import Mathlib.Tactic

set_option autoImplicit false

/-! # Programs that make calls

A handler of a server is a program that makes calls: it asks for something, waits for the answer, and
what it does next depends on the answer. `Prog E A α` is such a program with calls from `E`, where the
call `e` is answered by an `A e`, and a result in `α`. Nothing is said here about who answers: a
program is judged on every *past* it can have, the calls it has made with the answers it got.

`wp` is the rule to judge it by: `wp legal ok h p Q` says that the program `p`, with the past `h`, makes
only calls that `ok` allows as long as the answers are `legal`, and that its result satisfies `Q`. It
goes through a program construct by construct (`wp_bind`, `wp_perform_bind`). `Gets.obeys`
carries it over to every past of a program that runs by itself, `Run.invariant` to any number of
programs that share a world and run in any interleaving.
-/

namespace Harbor

/-- A program: either done, or waiting for the answer to a call. -/
inductive Prog (E : Type) (A : E → Type) (α : Type) where
  | done (a : α)
  | call (e : E) (next : A e → Prog E A α)

/-- A call together with the answer it got. -/
abbrev Event {E : Type} (A : E → Type) := Σ e : E, A e

/-- The calls a program has made, the latest one first. -/
abbrev History {E : Type} (A : E → Type) := List (Event A)

namespace Prog

variable {E : Type} {A : E → Type} {α β : Type}

def bind : Prog E A α → (α → Prog E A β) → Prog E A β
  | .done a, f => f a
  | .call e next, f => .call e fun a => (next a).bind f

instance : Monad (Prog E A) where
  pure := .done
  bind := Prog.bind

/-- Make one call. -/
def perform (e : E) : Prog E A (A e) := .call e .done

/-! ## The rule -/

/-- Every call the program makes is one `ok` allows, and `Q` holds of its result. -/
def wp (legal : Event A → Prop) (ok : History A → Event A → Prop) :
    History A → Prog E A α → (History A → α → Prop) → Prop
  | h, .done a, Q => Q h a
  | h, .call e next, Q =>
      ∀ a, legal ⟨e, a⟩ → ok h ⟨e, a⟩ ∧ wp legal ok (⟨e, a⟩ :: h) (next a) Q

variable {legal : Event A → Prop} {ok ok' : History A → Event A → Prop} {h : History A}

theorem wp_bind {p : Prog E A α} {f : α → Prog E A β} {Q : History A → β → Prop} :
    wp legal ok h (p >>= f) Q ↔ wp legal ok h p fun h a => wp legal ok h (f a) Q := by
  induction p generalizing h with
  | done a => exact Iff.rfl
  | call e next ih =>
      constructor
      · intro hwp a ha
        exact ⟨(hwp a ha).1, (ih a).mp (hwp a ha).2⟩
      · intro hwp a ha
        exact ⟨(hwp a ha).1, (ih a).mpr (hwp a ha).2⟩

/-- One call, and then the rest. -/
theorem wp_perform_bind {e : E} {f : A e → Prog E A β} {Q : History A → β → Prop} :
    wp legal ok h (perform e >>= f) Q ↔
      ∀ a, legal ⟨e, a⟩ → ok h ⟨e, a⟩ ∧ wp legal ok (⟨e, a⟩ :: h) (f a) Q := Iff.rfl

theorem wp_mono {p : Prog E A α} {Q Q' : History A → α → Prop}
    (hok : ∀ h ev, legal ev → ok h ev → ok' h ev) (hQ : ∀ h a, Q h a → Q' h a)
    (hwp : wp legal ok h p Q) : wp legal ok' h p Q' := by
  induction p generalizing h with
  | done a => exact hQ h a hwp
  | call e next ih =>
      intro a ha
      exact ⟨hok h ⟨e, a⟩ ha (hwp a ha).1, ih a (hwp a ha).2⟩

/-! ## Results -/

/-- Every result the program can have satisfies `Q`, whatever its calls are answered. -/
def Returns (Q : α → Prop) : Prog E A α → Prop
  | .done a => Q a
  | .call _ next => ∀ a, (next a).Returns Q

theorem returns_bind {p : Prog E A α} {f : α → Prog E A β} {Q : β → Prop}
    (hf : ∀ a, (f a).Returns Q) : (p >>= f).Returns Q := by
  induction p with
  | done a => exact hf a
  | call e next ih => exact fun a => ih a

theorem wp_of_returns {p : Prog E A α} {Q : α → Prop} (hp : p.Returns Q) :
    wp legal (fun _ _ => True) h p fun _ a => Q a := by
  induction p generalizing h with
  | done a => exact hp
  | call e next ih => exact fun a _ => ⟨trivial, ih a (hp a)⟩

/-! ## Pasts -/

/-- Every event of the past was allowed by `ok` when it happened. -/
def Obeys (ok : History A → Event A → Prop) : History A → Prop
  | [] => True
  | ev :: h => ok h ev ∧ Obeys ok h

/-- The calls before were allowed as well. -/
theorem Obeys.before {h₁ h₂ : History A} (hobeys : Obeys ok (h₁ ++ h₂)) : Obeys ok h₂ := by
  induction h₁ with
  | nil => exact hobeys
  | cons _ h₁ ih => exact ih hobeys.2

theorem Obeys.of_append {h₁ h₂ : History A} {ev : Event A} (hobeys : Obeys ok (h₁ ++ ev :: h₂)) :
    ok h₂ ev :=
  hobeys.before.1

/-- A weaker `ok`, which may use what holds of every event of the past. -/
theorem Obeys.mono_legal
    (hok : ∀ h ev, (∀ past ∈ ev :: h, legal past) → ok h ev → ok' h ev) :
    ∀ {h : History A}, (∀ past ∈ h, legal past) → Obeys ok h → Obeys ok' h := by
  intro h
  induction h with
  | nil => exact fun _ => id
  | cons ev h ih =>
      exact fun hlegal hobeys =>
        ⟨hok h ev hlegal hobeys.1, ih (fun past hpast => hlegal past (by simp [hpast])) hobeys.2⟩

/-- The program `p₀` gets to `p` with the past `h`. -/
inductive Gets (legal : Event A → Prop) (p₀ : Prog E A α) : History A → Prog E A α → Prop
  | start : Gets legal p₀ [] p₀
  | answer {h : History A} {e : E} {next : A e → Prog E A α} (a : A e) :
      Gets legal p₀ h (.call e next) → legal ⟨e, a⟩ → Gets legal p₀ (⟨e, a⟩ :: h) (next a)

/-- A program that is done stays where it is. -/
theorem Gets.of_done {r : α} {p : Prog E A α} (hgets : Gets legal (.done r) h p) :
    h = [] ∧ p = .done r := by
  induction hgets with
  | start => exact ⟨rfl, rfl⟩
  | answer a _ _ ih => exact nomatch ih.2

/-- A program that waits is still waiting, or has gone on from one of the answers. -/
theorem Gets.of_call {e : E} {next : A e → Prog E A α} {p : Prog E A α}
    (hgets : Gets legal (.call e next) h p) :
    (h = [] ∧ p = .call e next) ∨
      ∃ a h', h = h' ++ [⟨e, a⟩] ∧ legal ⟨e, a⟩ ∧ Gets legal (next a) h' p := by
  induction hgets with
  | start => exact Or.inl ⟨rfl, rfl⟩
  | answer b _ hb ih =>
      rcases ih with ⟨rfl, hp⟩ | ⟨a, h', rfl, ha, hgets⟩
      · cases hp
        exact Or.inr ⟨b, [], rfl, hb, .start⟩
      · exact Or.inr ⟨a, _, rfl, ha, .answer b hgets hb⟩

/-- A program that waits goes wherever one of the answers brings it. -/
theorem Gets.call {e : E} {next : A e → Prog E A α} {p : Prog E A α} {a : A e} (ha : legal ⟨e, a⟩)
    (hgets : Gets legal (next a) h p) : Gets legal (.call e next) (h ++ [⟨e, a⟩]) p := by
  induction hgets with
  | start => exact .answer a .start ha
  | answer b _ hb ih => exact .answer b ih hb

theorem Gets.mono {legal' : Event A → Prop} {p₀ p : Prog E A α}
    (hlegal : ∀ ev, legal ev → legal' ev) (hgets : Gets legal p₀ h p) : Gets legal' p₀ h p := by
  induction hgets with
  | start => exact .start
  | answer a _ ha ih => exact .answer a ih (hlegal _ ha)

/-- Every answer in the past of a program is a legal one. -/
theorem Gets.legal_of_mem {p₀ p : Prog E A α} (hgets : Gets legal p₀ h p) : ∀ ev ∈ h, legal ev := by
  induction hgets with
  | start => simp
  | answer a _ ha ih =>
      intro ev hev
      obtain rfl | hold := List.mem_cons.mp hev
      · exact ha
      · exact ih ev hold

/-- What the rule says about a program holds wherever it gets. -/
theorem Gets.rule {p₀ p : Prog E A α} {Q : History A → α → Prop} (hgets : Gets legal p₀ h p)
    (hwp : wp legal ok [] p₀ Q) : wp legal ok h p Q := by
  induction hgets with
  | start => exact hwp
  | answer a _ ha ih => exact (ih a ha).2

/-- **Every past of a program obeys what the rule allows.** -/
theorem Gets.obeys {p₀ p : Prog E A α} {Q : History A → α → Prop} (hgets : Gets legal p₀ h p)
    (hwp : wp legal ok [] p₀ Q) : Obeys ok h := by
  induction hgets with
  | start => trivial
  | answer a hbefore ha ih => exact ⟨(hbefore.rule hwp a ha).1, ih⟩

/-- The result of a program satisfies the postcondition. -/
theorem Gets.result {p₀ : Prog E A α} {a : α} {Q : History A → α → Prop}
    (hgets : Gets legal p₀ h (.done a)) (hwp : wp legal ok [] p₀ Q) : Q h a :=
  hgets.rule hwp

/-! ## One program, one world -/

/-- The program `p₀` gets to `p` while nothing else changes the world `w₀`, which is `w` then. -/
inductive Alone {W : Type} (exec : W → Event A → W → Prop) (w₀ : W) (p₀ : Prog E A α) :
    History A → W → Prog E A α → Prop
  | start : Alone exec w₀ p₀ [] w₀ p₀
  | answer {h : History A} {w v : W} {e : E} {next : A e → Prog E A α} (a : A e) :
      Alone exec w₀ p₀ h w (.call e next) → exec w ⟨e, a⟩ v →
        Alone exec w₀ p₀ (⟨e, a⟩ :: h) v (next a)

theorem Alone.gets {W : Type} {exec : W → Event A → W → Prop} {w₀ w : W} {p₀ p : Prog E A α}
    (hlegal : ∀ w ev w', exec w ev w' → legal ev) (halone : Alone exec w₀ p₀ h w p) :
    Gets legal p₀ h p := by
  induction halone with
  | start => exact .start
  | answer a _ hexec ih => exact .answer a ih (hlegal _ _ _ hexec)

theorem Alone.mono {W : Type} {exec exec' : W → Event A → W → Prop} {w₀ w : W} {p₀ p : Prog E A α}
    (hexec : ∀ w ev w', exec w ev w' → exec' w ev w') (halone : Alone exec w₀ p₀ h w p) :
    Alone exec' w₀ p₀ h w p := by
  induction halone with
  | start => exact .start
  | answer a _ ha ih => exact .answer a ih (hexec _ _ _ ha)

/-- The program ends with `r` and leaves the world `v`; its events, the first one first. -/
inductive Ends {W : Type} (exec : W → Event A → W → Prop) :
    W → Prog E A α → List (Event A) → W → α → Prop
  | done {w : W} {r : α} : Ends exec w (.done r) [] w r
  | call {w u v : W} {e : E} {next : A e → Prog E A α} {evs : List (Event A)} {r : α} (a : A e) :
      exec w ⟨e, a⟩ u → Ends exec u (next a) evs v r →
        Ends exec w (.call e next) (⟨e, a⟩ :: evs) v r

theorem Alone.ends_append {W : Type} {exec : W → Event A → W → Prop} {w₀ w v : W}
    {p₀ p : Prog E A α} {evs : List (Event A)} {r : α} (halone : Alone exec w₀ p₀ h w p)
    (hends : Ends exec w p evs v r) : Ends exec w₀ p₀ (h.reverse ++ evs) v r := by
  induction halone generalizing evs with
  | start => exact hends
  | @answer h w u e next a _ hexec ih =>
      rw [List.reverse_cons, List.append_assoc]
      exact ih (.call a hexec hends)

/-- A program that has nothing left to do has ended. -/
theorem Alone.ends {W : Type} {exec : W → Event A → W → Prop} {w₀ w : W} {p₀ : Prog E A α} {r : α}
    (halone : Alone exec w₀ p₀ h w (.done r)) : Ends exec w₀ p₀ h.reverse w r := by
  have hends := halone.ends_append .done
  rwa [List.append_nil] at hends

/-- Calls that are `free` are answered the same where two runs make the same one at the same place. -/
def SameAnswers (free : E → Prop) (evs₁ evs₂ : List (Event A)) : Prop :=
  ∀ (i : Nat) (e : E) (a₁ a₂ : A e), free e → evs₁[i]? = some ⟨e, a₁⟩ → evs₂[i]? = some ⟨e, a₂⟩ →
    a₁ = a₂

theorem SameAnswers.head {free : E → Prop} {evs₁ evs₂ : List (Event A)} {e : E} {a₁ a₂ : A e}
    (hsame : SameAnswers free (⟨e, a₁⟩ :: evs₁) (⟨e, a₂⟩ :: evs₂)) (hfree : free e) : a₁ = a₂ :=
  hsame 0 e a₁ a₂ hfree rfl rfl

theorem SameAnswers.tail {free : E → Prop} {evs₁ evs₂ : List (Event A)} {ev₁ ev₂ : Event A}
    (hsame : SameAnswers free (ev₁ :: evs₁) (ev₂ :: evs₂)) : SameAnswers free evs₁ evs₂ :=
  fun i e a₁ a₂ hfree h₁ h₂ => hsame (i + 1) e a₁ a₂ hfree h₁ h₂

/-- **Two runs of one program.** When related worlds answer the calls the program makes alike, and go to
related worlds, the runs are the same. -/
theorem Ends.agree {W : Type} {exec : W → Event A → W → Prop} {R : W → W → Prop} {free : E → Prop}
    (hcall : ∀ w₁ w₂ h e a₁ a₂ u₁ u₂, R w₁ w₂ → ok h ⟨e, a₁⟩ → exec w₁ ⟨e, a₁⟩ u₁ →
      exec w₂ ⟨e, a₂⟩ u₂ → (free e → a₁ = a₂) → a₁ = a₂ ∧ R u₁ u₂)
    {p : Prog E A α} {Q : History A → α → Prop} :
    ∀ {h : History A} {w₁ w₂ v₁ v₂ : W} {evs₁ evs₂ : List (Event A)} {r₁ r₂ : α},
      wp legal ok h p Q → R w₁ w₂ → (∀ ev ∈ evs₁, legal ev) → SameAnswers free evs₁ evs₂ →
      Ends exec w₁ p evs₁ v₁ r₁ → Ends exec w₂ p evs₂ v₂ r₂ →
      evs₁ = evs₂ ∧ r₁ = r₂ ∧ R v₁ v₂ := by
  induction p with
  | done r =>
      intro h w₁ w₂ v₁ v₂ evs₁ evs₂ r₁ r₂ _ hR _ _ h₁ h₂
      cases h₁
      cases h₂
      exact ⟨rfl, rfl, hR⟩
  | call e next ih =>
      intro h w₁ w₂ v₁ v₂ evs₁ evs₂ r₁ r₂ hwp hR hlegal hsame h₁ h₂
      cases h₁ with
      | call a₁ hexec₁ h₁ =>
          cases h₂ with
          | call a₂ hexec₂ h₂ =>
              obtain ⟨hok, hrest⟩ := hwp a₁ (hlegal _ List.mem_cons_self)
              -- the call is allowed, so both worlds answer it alike
              obtain ⟨rfl, hR'⟩ := hcall _ _ _ _ _ _ _ _ hR hok hexec₁ hexec₂ hsame.head
              obtain ⟨rfl, rfl, hR''⟩ := ih a₁ hrest hR'
                (fun ev hev => hlegal ev (List.mem_cons_of_mem _ hev)) hsame.tail h₁ h₂
              exact ⟨rfl, rfl, hR''⟩

/-- What every allowed call keeps, a run that ends keeps. -/
theorem Ends.keeps {W : Type} {exec : W → Event A → W → Prop} {K : W → W → Prop}
    (hrefl : ∀ w, K w w) (htrans : ∀ w u v, K w u → K u v → K w v)
    (hcall : ∀ w h ev u, ok h ev → exec w ev u → K w u) {p : Prog E A α}
    {Q : History A → α → Prop} :
    ∀ {h : History A} {w v : W} {evs : List (Event A)} {r : α}, wp legal ok h p Q →
      (∀ ev ∈ evs, legal ev) → Ends exec w p evs v r → K w v := by
  induction p with
  | done r =>
      intro h w v evs r' _ _ hends
      cases hends
      exact hrefl w
  | call e next ih =>
      intro h w v evs r' hwp hlegal hends
      cases hends with
      | call a hexec hends =>
          obtain ⟨hok, hrest⟩ := hwp a (hlegal _ List.mem_cons_self)
          exact htrans _ _ _ (hcall _ _ _ _ hok hexec)
            (ih a hrest (fun ev hev => hlegal ev (List.mem_cons_of_mem _ hev)) hends)

/-! ## Many programs, one world -/

/-- A program on its way. -/
structure Thread (E : Type) (A : E → Type) (α : Type) where
  past : History A
  prog : Prog E A α

/-- The world and the programs that run in it, those that are done included. -/
structure Config (W E : Type) (A : E → Type) (α : Type) where
  world : W
  threads : List (Thread E A α)

variable {W : Type}

/-- One step: a program that `arrives` comes in, or the world changes by itself, or one of the programs
makes its next call and the world answers. -/
inductive Step (exec : W → Event A → W → Prop) (env : W → W → Prop) (arrives : Prog E A α → Prop) :
    Config W E A α → Config W E A α → Prop
  | arrive {w : W} {threads : List (Thread E A α)} {p : Prog E A α} :
      arrives p → Step exec env arrives ⟨w, threads⟩ ⟨w, threads ++ [⟨[], p⟩]⟩
  | env {w w' : W} {threads : List (Thread E A α)} :
      env w w' → Step exec env arrives ⟨w, threads⟩ ⟨w', threads⟩
  | call {w w' : W} {before after : List (Thread E A α)} {h : History A} {e : E}
      {next : A e → Prog E A α} (a : A e) :
      exec w ⟨e, a⟩ w' →
        Step exec env arrives ⟨w, before ++ ⟨h, .call e next⟩ :: after⟩
          ⟨w', before ++ ⟨⟨e, a⟩ :: h, next a⟩ :: after⟩

/-- Any number of steps from a world without programs. -/
def Run (exec : W → Event A → W → Prop) (env : W → W → Prop) (arrives : Prog E A α → Prop)
    (w₀ : W) : Config W E A α → Prop :=
  Relation.ReflTransGen (Step exec env arrives) ⟨w₀, []⟩

variable {exec : W → Event A → W → Prop} {env : W → W → Prop} {arrives : Prog E A α → Prop}
  {w₀ : W} {c : Config W E A α}

/-- A program that is alone makes a run, after any other that has left nothing behind but the world. -/
theorem Run.alone {p₀ p : Prog E A α} {h : History A} {w w₁ : W} {threads : List (Thread E A α)}
    (hrun : Run exec env arrives w₀ ⟨w₁, threads⟩) (hp : arrives p₀)
    (halone : Alone exec w₁ p₀ h w p) : Run exec env arrives w₀ ⟨w, threads ++ [⟨h, p⟩]⟩ := by
  induction halone with
  | start => exact Relation.ReflTransGen.tail hrun (.arrive hp)
  | answer a _ hexec ih => exact Relation.ReflTransGen.tail ih (.call a hexec)

/-- Every program of a run is on its way from one that has arrived. -/
theorem Run.gets (hlegal : ∀ w ev w', exec w ev w' → legal ev) (hrun : Run exec env arrives w₀ c) :
    ∀ thread ∈ c.threads, ∃ p₀, arrives p₀ ∧ Gets legal p₀ thread.past thread.prog := by
  induction hrun with
  | refl => simp
  | tail _ hstep ih =>
      cases hstep with
      | @arrive w threads p hp =>
          intro thread hthread
          obtain hold | rfl := by simpa using hthread
          · exact ih thread hold
          · exact ⟨p, hp, .start⟩
      | env _ => exact ih
      | @call w w' before after h e next a hexec =>
          intro thread hthread
          simp only [List.mem_append, List.mem_cons] at hthread
          obtain hold | rfl | hold := hthread
          · exact ih thread (by simp [hold])
          · obtain ⟨p₀, hp₀, hgets⟩ := ih ⟨h, .call e next⟩ (by simp)
            exact ⟨p₀, hp₀, .answer a hgets (hlegal w _ w' hexec)⟩
          · exact ih thread (by simp [hold])

/-- **The world's invariant.** `I` holds in every state of a run if every allowed call keeps it; a call
may use that the `fact`s about the calls before it still hold. -/
theorem Run.invariant {Q : History A → α → Prop} {I : W → Prop} {fact : W → Event A → Prop}
    (hlegal : ∀ w ev w', exec w ev w' → legal ev) (hwp : ∀ p, arrives p → wp legal ok [] p Q)
    (hcall : ∀ w h ev w', I w → (∀ past ∈ h, fact w past) → ok h ev → exec w ev w' →
      I w' ∧ fact w' ev ∧ ∀ past, fact w past → fact w' past)
    (henv : ∀ w w', I w → env w w' → I w' ∧ ∀ past, fact w past → fact w' past)
    (h₀ : I w₀) (hrun : Run exec env arrives w₀ c) :
    I c.world ∧ ∀ thread ∈ c.threads, ∀ past ∈ thread.past, fact c.world past := by
  induction hrun with
  | refl => exact ⟨h₀, by simp⟩
  | @tail c c' hbefore hstep ih =>
      obtain ⟨hI, hfacts⟩ := ih
      cases hstep with
      | @arrive w threads p _ =>
          refine ⟨hI, fun thread hthread => ?_⟩
          obtain hold | rfl := by simpa using hthread
          · exact hfacts thread hold
          · simp
      | @env w w' threads hw =>
          obtain ⟨hI', hkeep⟩ := henv w w' hI hw
          exact ⟨hI', fun thread hthread past hpast => hkeep past (hfacts thread hthread past hpast)⟩
      -- the thread that takes the step learns the new fact, the others keep theirs
      | @call w w' before after h e next a hexec =>
          obtain ⟨p₀, hp₀, hgets⟩ := Run.gets hlegal hbefore ⟨h, .call e next⟩ (by simp)
          have hok := (hgets.rule (hwp p₀ hp₀) a (hlegal w _ w' hexec)).1
          obtain ⟨hI', hnew, hkeep⟩ := hcall w h ⟨e, a⟩ w' hI (hfacts ⟨h, .call e next⟩ (by simp)) hok hexec
          refine ⟨hI', fun thread hthread past hpast => ?_⟩
          simp only [List.mem_append, List.mem_cons] at hthread
          obtain hold | rfl | hold := hthread
          · exact hkeep past (hfacts thread (by simp [hold]) past hpast)
          · obtain rfl | hpast := List.mem_cons.mp hpast
            · exact hnew
            · exact hkeep past (hfacts ⟨h, .call e next⟩ (by simp) past hpast)
          · exact hkeep past (hfacts thread (by simp [hold]) past hpast)

end Prog

end Harbor
