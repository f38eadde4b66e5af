import Mathlib.Tactic

set_option autoImplicit false

/-! # Runs of a step function

A system is given by a step function `step : σ → α → Option σ`: in the state `s` the action
`a` is either not enabled (`none`) or leads to exactly one next state. `run` executes a list
of actions, `Meets ok` says that every action of the list is taken in a state in which `ok`
allows it, `Always P` that the run goes through states with `P` only, `Once P` that it goes through one
with `P`. The induction rules are `run_invariant` (what every allowed step keeps holds at the end of every
allowed run), `run_stable` (what every allowed step keeps survives any further allowed run),
`always_iff_meets` (when an allowed step is exactly one that keeps `P`, a run always has `P` exactly when
all of it is allowed) and `Once.of_run` (what only comes out of states with `P` has such a state behind it).
-/

namespace Harbor.Runs

/-- Numerals name the actor of a run with one actor, and those of a run with two. -/
instance neZero_one : NeZero 1 := ⟨Nat.one_ne_zero⟩

instance neZero_two : NeZero 2 := ⟨two_ne_zero⟩

variable {σ α : Type*} {step : σ → α → Option σ} {ok : σ → α → Prop}

/-- Take the actions one after another; `none` as soon as one of them is not enabled. -/
def run (step : σ → α → Option σ) : σ → List α → Option σ
  | s, [] => some s
  | s, a :: as => (step s a).bind fun t => run step t as

/-- Every action of the list that is taken is taken in a state in which `ok` allows it. -/
def Meets (step : σ → α → Option σ) (ok : σ → α → Prop) : σ → List α → Prop
  | _, [] => True
  | s, a :: as => ok s a ∧ ∀ t, step s a = some t → Meets step ok t as

/-- `P` holds in every state the run goes through, the first and the last one included. -/
def Always (step : σ → α → Option σ) (P : σ → Prop) : σ → List α → Prop
  | s, [] => P s
  | s, a :: as => P s ∧ ∀ t, step s a = some t → Always step P t as

@[simp] theorem run_nil (s : σ) : run step s [] = some s := rfl

theorem run_cons (s : σ) (a : α) (as : List α) :
    run step s (a :: as) = (step s a).bind fun t => run step t as := rfl

theorem run_cons_of_step {s t : σ} {a : α} (h : step s a = some t) (as : List α) :
    run step s (a :: as) = run step t as := by
  rw [run_cons, h, Option.bind_some]

theorem run_append (s : σ) (as bs : List α) :
    run step s (as ++ bs) = (run step s as).bind fun t => run step t bs := by
  induction as generalizing s with
  | nil => rfl
  | cons a as ih =>
      rw [List.cons_append, run_cons, run_cons, Option.bind_assoc]
      congr 1
      funext t
      exact ih t

theorem run_append_of_run {s t : σ} {as : List α} (h : run step s as = some t) (bs : List α) :
    run step s (as ++ bs) = run step t bs := by
  rw [run_append, h, Option.bind_some]

theorem meets_append {s t : σ} {as bs : List α} (h : run step s as = some t) :
    Meets step ok s (as ++ bs) ↔ Meets step ok s as ∧ Meets step ok t bs := by
  induction as generalizing s with
  | nil =>
      have hst : s = t := by simpa using h
      subst hst
      simp [Meets]
  | cons a as ih =>
      rw [run_cons] at h
      obtain ⟨u, hu, hrun⟩ := Option.bind_eq_some_iff.mp h
      have hall : ∀ bs, (∀ v, step s a = some v → Meets step ok v bs) ↔ Meets step ok u bs := by
        intro bs
        constructor
        · intro hv
          exact hv u hu
        · intro hm v hv
          rw [hu] at hv
          cases hv
          exact hm
      simp only [List.cons_append, Meets, hall, ih hrun, and_assoc]

/-- Every run is allowed when every step is. -/
theorem meets_of_forall (h : ∀ s a, ok s a) (as : List α) : ∀ s : σ, Meets step ok s as := by
  induction as with
  | nil => intro s; trivial
  | cons a as ih => intro s; exact ⟨h s a, fun t _ => ih t⟩

/-- A run is allowed when its actions are, in whatever state. -/
theorem meets_of_forall_mem {as : List α} (h : ∀ a ∈ as, ∀ s, ok s a) : ∀ s : σ, Meets step ok s as := by
  induction as with
  | nil => exact fun _ => trivial
  | cons a as ih =>
      exact fun s => ⟨h a List.mem_cons_self s,
        fun t _ => ih (fun b hb => h b (List.mem_cons_of_mem _ hb)) t⟩

theorem meets_true (as : List α) (s : σ) : Meets step (fun _ _ => True) s as :=
  meets_of_forall (fun _ _ => trivial) as s

instance decidableMeets [∀ s a, Decidable (ok s a)] : ∀ (as : List α) (s : σ), Decidable (Meets step ok s as)
  | [], _ => isTrue trivial
  | a :: as, s =>
      match h : step s a with
      | none => decidable_of_iff (ok s a) (by simp [Meets, h])
      | some t =>
          have := decidableMeets as t
          decidable_of_iff (ok s a ∧ Meets step ok t as) (by simp [Meets, h])

instance decidableAlways {P : σ → Prop} [∀ s, Decidable (P s)] :
    ∀ (as : List α) (s : σ), Decidable (Always step P s as)
  | [], s => inferInstanceAs (Decidable (P s))
  | a :: as, s =>
      match h : step s a with
      | none => decidable_of_iff (P s) (by simp [Always, h])
      | some t =>
          have : Decidable (Always step P t as) := decidableAlways as t
          decidable_of_iff (P s ∧ Always step P t as) (by simp [Always, h])

/-- **What every allowed step keeps, every allowed run keeps.** -/
theorem run_invariant {I : σ → Prop}
    (hstep : ∀ s a t, I s → ok s a → step s a = some t → I t) :
    ∀ {as : List α} {s t : σ}, I s → Meets step ok s as → run step s as = some t → I t := by
  intro as
  induction as with
  | nil =>
      intro s t hs _ hrun
      have hst : s = t := by simpa using hrun
      exact hst ▸ hs
  | cons a as ih =>
      intro s t hs hmeets hrun
      rw [run_cons] at hrun
      obtain ⟨u, hu, hrun⟩ := Option.bind_eq_some_iff.mp hrun
      exact ih (hstep s a u hs hmeets.1 hu) (hmeets.2 u hu) hrun

/-- The rule for what is said of the actions so far together with the state they led to. -/
theorem run_history {I : List α → σ → Prop} {s₀ : σ} (hnil : I [] s₀)
    (hstep : ∀ as s a t, I as s → step s a = some t → I (as ++ [a]) t) :
    ∀ {as : List α} {t : σ}, run step s₀ as = some t → I as t := by
  intro as
  induction as using List.reverseRecOn with
  | nil =>
      intro t hrun
      have hst : s₀ = t := by simpa using hrun
      exact hst ▸ hnil
  | append_singleton as a ih =>
      intro t hrun
      rw [run_append] at hrun
      obtain ⟨s, hs, hlast⟩ := Option.bind_eq_some_iff.mp hrun
      rw [run_cons] at hlast
      obtain ⟨u, hu, hut⟩ := Option.bind_eq_some_iff.mp hlast
      have hut : u = t := by simpa using hut
      exact hut ▸ hstep as s a u (ih hs) hu

/-- The rule with a second invariant `I` to lean on: `J` is kept by the steps of `I`-states. -/
theorem run_stable {I J : σ → Prop}
    (hI : ∀ s a t, I s → ok s a → step s a = some t → I t)
    (hJ : ∀ s a t, I s → J s → ok s a → step s a = some t → J t)
    {as : List α} {s t : σ} (hs : I s) (hj : J s) (hmeets : Meets step ok s as)
    (hrun : run step s as = some t) : J t :=
  (run_invariant (I := fun s => I s ∧ J s)
    (fun s a t h hok hst => ⟨hI s a t h.1 hok hst, hJ s a t h.1 h.2 hok hst⟩)
    ⟨hs, hj⟩ hmeets hrun).2

theorem Always.head {P : σ → Prop} {s : σ} {as : List α} (h : Always step P s as) : P s := by
  cases as with
  | nil => exact h
  | cons a as => exact h.1

/-- The state the run leads to is one it goes through. -/
theorem Always.of_run {P : σ → Prop} {as : List α} :
    ∀ {s t : σ}, Always step P s as → run step s as = some t → P t := by
  induction as with
  | nil =>
      intro s t halways hrun
      have hst : s = t := by simpa using hrun
      exact hst ▸ halways
  | cons a as ih =>
      intro s t halways hrun
      rw [run_cons] at hrun
      obtain ⟨u, hu, hrun⟩ := Option.bind_eq_some_iff.mp hrun
      exact ih (halways.2 u hu) hrun

/-- What every step keeps, a run always has. -/
theorem always_of_invariant {I : σ → Prop} (hI : ∀ s a t, I s → step s a = some t → I t) {as : List α} :
    ∀ {s : σ}, I s → Always step I s as := by
  induction as with
  | nil => exact id
  | cons a as ih => exact fun {s} hs => ⟨hs, fun t ht => ih (hI s a t hs ht)⟩

/-- **When a step out of a good state is allowed exactly if it leads to a good one, a run stays in
good states exactly if every step of it is allowed**, as long as it stays in states with `I`. -/
theorem always_iff_meets_of_always {I P : σ → Prop}
    (hP : ∀ s a t, I s → I t → P s → step s a = some t → (P t ↔ ok s a)) :
    ∀ {as : List α} {s t : σ}, Always step I s as → P s → run step s as = some t →
      (Always step P s as ↔ Meets step ok s as) := by
  intro as
  induction as with
  | nil =>
      intro s t _ hs _
      exact ⟨fun _ => trivial, fun _ => hs⟩
  | cons a as ih =>
      intro s t hall hps hrun
      rw [run_cons] at hrun
      obtain ⟨u, hu, hrun⟩ := Option.bind_eq_some_iff.mp hrun
      have hallu : Always step I u as := hall.2 u hu
      have hstep := hP s a u hall.head hallu.head hps hu
      have hnext : ∀ {Q : σ → Prop}, (∀ v, step s a = some v → Q v) ↔ Q u := by
        intro Q
        refine ⟨fun h => h u hu, fun h v hv => ?_⟩
        rw [hu] at hv
        cases hv
        exact h
      rw [Always, Meets, hnext, hnext]
      constructor
      · rintro ⟨_, halways⟩
        have hpu : P u := halways.head
        exact ⟨hstep.mp hpu, (ih hallu hpu hrun).mp halways⟩
      · rintro ⟨hok, hmeets⟩
        exact ⟨hps, (ih hallu (hstep.mpr hok) hrun).mpr hmeets⟩

/-- The same with an invariant of the steps. -/
theorem always_iff_meets {I P : σ → Prop} (hI : ∀ s a t, I s → step s a = some t → I t)
    (hP : ∀ s a t, I s → P s → step s a = some t → (P t ↔ ok s a)) {as : List α} {s t : σ} (hs : I s)
    (hps : P s) (hrun : run step s as = some t) : Always step P s as ↔ Meets step ok s as :=
  always_iff_meets_of_always (fun s a t hs _ => hP s a t hs) (always_of_invariant hI hs) hps hrun

/-- **What is lost for good is still there at the end exactly if every step kept it.** -/
theorem end_iff_meets {I P : σ → Prop} (hI : ∀ s a t, I s → step s a = some t → I t)
    (hP : ∀ s a t, I s → P s → step s a = some t → (P t ↔ ok s a))
    (hlost : ∀ s a t, I s → ¬ P s → step s a = some t → ¬ P t) {as : List α} {s t : σ} (hs : I s)
    (hp : P s) (hrun : run step s as = some t) : P t ↔ Meets step ok s as := by
  rw [← always_iff_meets hI hP hs hp hrun]
  constructor
  · intro ht
    induction as generalizing s with
    | nil => exact hp
    | cons a as ih =>
        rw [run_cons] at hrun
        obtain ⟨u, hu, hrun⟩ := Option.bind_eq_some_iff.mp hrun
        refine ⟨hp, fun v hv => ?_⟩
        obtain rfl := Option.some.inj (hu.symm.trans hv)
        have hiu : I u := hI s a u hs hu
        by_cases hpu : P u
        · exact ih hiu hpu hrun
        · have hnot := run_stable (J := fun s => ¬ P s) (fun s a t h _ => hI s a t h)
            (fun s a t hi hnp _ h => hlost s a t hi hnp h) hiu hpu (meets_true _ _) hrun
          exact absurd ht hnot
  · intro halways
    exact halways.of_run hrun

/-- `P` holds in some state the run goes through, the first and the last one included. -/
def Once (step : σ → α → Option σ) (P : σ → Prop) : σ → List α → Prop
  | s, [] => P s
  | s, a :: as => P s ∨ ∃ t, step s a = some t ∧ Once step P t as

theorem Once.head {P : σ → Prop} {s : σ} (h : P s) (as : List α) : Once step P s as := by
  cases as with
  | nil => exact h
  | cons a as => exact Or.inl h

/-- **What a step only brings about out of a state with `P` has such a state behind it.** -/
theorem Once.of_run {I P Q : σ → Prop} (hI : ∀ s a t, I s → step s a = some t → I t)
    (hQ : ∀ s a t, I s → step s a = some t → Q t → Q s ∨ P s) :
    ∀ {as : List α} {s t : σ}, I s → ¬ Q s → run step s as = some t → Q t → Once step P s as := by
  intro as
  induction as with
  | nil =>
      intro s t _ hnot hrun hq
      have hst : s = t := by simpa using hrun
      exact absurd (hst ▸ hq) hnot
  | cons a as ih =>
      intro s t hs hnot hrun hq
      rw [run_cons] at hrun
      obtain ⟨u, hu, hrun⟩ := Option.bind_eq_some_iff.mp hrun
      by_cases hqu : Q u
      · have hp : P s := (hQ s a u hs hu hqu).resolve_left hnot
        exact Once.head hp (a :: as)
      · exact Or.inr ⟨u, hu, ih (hI s a u hs hu) hqu hrun hq⟩

/-- What `P` brings about and every step keeps holds at the end of a run that had `P` once. -/
theorem Once.stable {I P J : σ → Prop} (hI : ∀ s a t, I s → step s a = some t → I t)
    (hP : ∀ s, P s → J s) (hJ : ∀ s a t, I s → J s → step s a = some t → J t) :
    ∀ {as : List α} {s t : σ}, I s → Once step P s as → run step s as = some t → J t := by
  intro as
  induction as with
  | nil =>
      intro s t _ honce hrun
      have hst : s = t := by simpa using hrun
      exact hst ▸ hP s honce
  | cons a as ih =>
      intro s t hs honce hrun
      rcases honce with hp | ⟨v, hv, honce⟩
      · exact run_stable (fun s a t h _ => hI s a t h)
          (fun s a t h hj _ => hJ s a t h hj) hs (hP s hp) (meets_true _ _) hrun
      · rw [run_cons_of_step hv] at hrun
        exact ih (hI s a v hs hv) honce hrun

/-- A condition on the actions alone can be carried along. -/
theorem Meets.and_mem {P : α → Prop} :
    ∀ {as : List α} {s : σ}, Meets step ok s as → (∀ a ∈ as, P a) →
      Meets step (fun s a => ok s a ∧ P a) s as := by
  intro as
  induction as with
  | nil => intro s _ _; trivial
  | cons a as ih =>
      intro s hmeets hall
      refine ⟨⟨hmeets.1, hall a (by simp)⟩, fun t ht => ih (hmeets.2 t ht) ?_⟩
      intro b hb
      exact hall b (by simp [hb])

end Harbor.Runs
