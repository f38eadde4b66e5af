import Harbor.Lib.Runs
import Mathlib.Data.Fintype.Card

set_option autoImplicit false

/-! # Latches

Tokens are counted in an atomic counter; a waiter sleeps on a condition variable until the counter is
zero. A token that ends decrements outside of the mutex, and only the one that finds it was the last takes
the mutex and notifies. The waiter is a `wait_for` with the predicate "the counter is zero": it reads the
counter under the mutex, and going to sleep gives up the mutex in the same step. Every atomic operation,
lock, unlock and notification is one step.

`Inv` holds in every run: the counter is the number of live tokens (`count_eq`), and a waiter that sleeps
while the counter is zero has a notification coming (`notifier_of_blocked`).
-/

namespace Harbor.Latch

/-- A token: its destructor owes a notification if it was the last one. -/
inductive Token where
  | unborn
  | live
  /-- Decremented, as the last one: it goes on to take the mutex. -/
  | owing
  /-- It has the mutex, and notifies next. -/
  | holding
  /-- It has notified, and still has the mutex. -/
  | notified
  | dead
  deriving DecidableEq, Repr

/-- The thread that waits. `expired` is set once the time is up. -/
inductive Waiter where
  | idle
  /-- It wants the mutex for the first look at the counter. -/
  | entering
  /-- It has the mutex, and looks at the counter next. -/
  | checking (expired : Bool)
  /-- It has seen that the counter is not zero, and goes to sleep next; it still has the mutex. -/
  | drowsy
  | blocked
  /-- Notified, or woken by the clock or by nothing; it wants the mutex back. -/
  | woken (expired : Bool)
  /-- The result of the wait. -/
  | returned (zero : Bool)
  deriving DecidableEq, Repr

inductive Holder (ι : Type) where
  | waiter
  | token (i : ι)
  deriving DecidableEq, Repr

structure State (ι : Type) where
  count : Nat := 0
  mutex : Option (Holder ι) := none
  tokens : ι → Token := fun _ => .unborn
  waiter : Waiter := .idle

inductive Action (ι : Type) where
  /-- The constructor of a token: `fetch_add`. -/
  | enter (i : ι)
  /-- The destructor: `fetch_sub`. -/
  | leave (i : ι)
  /-- The next step of a destructor that was the last one. -/
  | token (i : ι)
  /-- A dead token makes place for a new one. -/
  | reset (i : ι)
  | wait
  /-- The waiter's next step. -/
  | waiter
  | timeout
  | spurious
  deriving DecidableEq, Repr

variable {ι : Type} [DecidableEq ι]

/-- Another phase of one token. -/
def State.setToken (s : State ι) (i : ι) (p : Token) : State ι :=
  { s with tokens := Function.update s.tokens i p }

/-- `notify_all`. -/
def Waiter.notify : Waiter → Waiter
  | .blocked => .woken false
  | w => w

@[simp] theorem setToken_self (s : State ι) (i : ι) (p : Token) :
    (s.setToken i p).tokens i = p := Function.update_self _ _ _

theorem setToken_ne (s : State ι) {i k : ι} (p : Token) (hk : k ≠ i) :
    (s.setToken i p).tokens k = s.tokens k := Function.update_of_ne hk _ _

/-! ## The step function -/

/-- The destructor of the last token, after the decrement. -/
def tokenStep (s : State ι) (i : ι) : Option (State ι) :=
  match s.tokens i with
  | .owing =>
      if s.mutex = none then some { s.setToken i .holding with mutex := some (.token i) } else none
  | .holding => some { s.setToken i .notified with waiter := s.waiter.notify }
  | .notified => some { s.setToken i .dead with mutex := none }
  | _ => none

/-- The waiter's next step. -/
def waiterStep (s : State ι) : Option (State ι) :=
  match s.waiter with
  | .entering =>
      if s.mutex = none then some { s with mutex := some .waiter, waiter := .checking false }
      else none
  | .checking expired =>
      if s.count = 0 then some { s with mutex := none, waiter := .returned true }
      else if expired then some { s with mutex := none, waiter := .returned false }
      else some { s with waiter := .drowsy }
  | .drowsy => some { s with mutex := none, waiter := .blocked }
  | .woken expired =>
      if s.mutex = none then some { s with mutex := some .waiter, waiter := .checking expired }
      else none
  | _ => none

def step (s : State ι) : Action ι → Option (State ι)
  | .enter i =>
      match s.tokens i with
      | .unborn => some { s.setToken i .live with count := s.count + 1 }
      | _ => none
  | .leave i =>
      match s.tokens i with
      | .live =>
          some { s.setToken i (if s.count = 1 then .owing else .dead) with count := s.count - 1 }
      | _ => none
  | .token i => tokenStep s i
  | .reset i =>
      match s.tokens i with
      | .dead => some (s.setToken i .unborn)
      | _ => none
  | .wait =>
      match s.waiter with
      | .idle | .returned _ => some { s with waiter := .entering }
      | _ => none
  | .waiter => waiterStep s
  | .timeout =>
      match s.waiter with
      | .blocked => some { s with waiter := .woken true }
      | _ => none
  | .spurious =>
      match s.waiter with
      | .blocked => some { s with waiter := .woken false }
      | _ => none

/-! ## Invariants -/

/-- Phases in which a token has the mutex. -/
def Token.holds : Token → Bool
  | .holding | .notified => true
  | _ => false

/-- Phases in which the waiter has the mutex. -/
def Waiter.holds : Waiter → Bool
  | .checking _ | .drowsy => true
  | _ => false

/-- Phases in which a token is going to notify. -/
def Token.notifies : Token → Bool
  | .owing | .holding => true
  | _ => false

/-- The waiter has seen a counter that was not zero, and has not been woken since. -/
def Waiter.sleeps : Waiter → Bool
  | .drowsy | .blocked => true
  | _ => false

def live [Fintype ι] (s : State ι) : Finset ι := Finset.univ.filter fun i => s.tokens i = .live

structure Inv [Fintype ι] (s : State ι) : Prop where
  count_eq : s.count = (live s).card
  token_holds : ∀ i, (s.tokens i).holds = true ↔ s.mutex = some (.token i)
  waiter_holds : s.waiter.holds = true ↔ s.mutex = some .waiter
  notifier : s.waiter.sleeps = true → s.count = 0 → ∃ i, (s.tokens i).notifies = true

variable [Fintype ι]

omit [DecidableEq ι] in
@[simp] theorem mem_live {s : State ι} {i : ι} : i ∈ live s ↔ s.tokens i = .live := by
  simp [live]

omit [DecidableEq ι] in
theorem inv_initial : Inv ({} : State ι) where
  count_eq := by simp [live]
  token_holds := fun i => by simp [Token.holds]
  waiter_holds := by simp [Waiter.holds]
  notifier := fun h => by simp [Waiter.sleeps] at h

theorem live_setToken_of_ne {s : State ι} {i : ι} {p : Token} (hi : s.tokens i ≠ .live)
    (hp : p ≠ .live) : live (s.setToken i p) = live s := by
  ext k
  rw [mem_live, mem_live]
  by_cases hk : k = i
  · subst hk
    rw [setToken_self]
    exact iff_of_false hp hi
  · rw [setToken_ne s p hk]

theorem card_live_enter {s : State ι} {i : ι} (hi : s.tokens i ≠ .live) :
    (live (s.setToken i .live)).card = (live s).card + 1 := by
  have hins : live (s.setToken i .live) = insert i (live s) := by
    ext k
    rw [Finset.mem_insert, mem_live, mem_live]
    by_cases hk : k = i
    · simp [hk]
    · simp [setToken_ne s _ hk, hk]
  rw [hins, Finset.card_insert_of_notMem (by simpa using hi)]

theorem card_live_leave {s : State ι} {i : ι} {p : Token} (hi : s.tokens i = .live)
    (hp : p ≠ .live) : (live (s.setToken i p)).card = (live s).card - 1 := by
  have herase : live (s.setToken i p) = (live s).erase i := by
    ext k
    rw [Finset.mem_erase, mem_live, mem_live]
    by_cases hk : k = i
    · simp [hk, hp]
    · simp [setToken_ne s _ hk, hk]
  rw [herase, Finset.card_erase_of_mem (by simpa using hi)]

/-! ## One step -/

section

variable {s t : State ι} (h : Inv s)
include h

/-- A token that goes from one phase outside of the mutex to another one. -/
theorem inv_setToken {i : ι} {p : Token} {count : Nat} (hfrom : (s.tokens i).holds = false)
    (hto : p.holds = false) (hcount : count = (live (s.setToken i p)).card)
    (hnotifier : s.waiter.sleeps = true → count = 0 →
      ∃ k, ((s.setToken i p).tokens k).notifies = true) :
    Inv { s.setToken i p with count } := by
  refine ⟨hcount, fun k => ?_, h.waiter_holds, hnotifier⟩
  show ((s.setToken i p).tokens k).holds = true ↔ s.mutex = some (.token k)
  by_cases hk : k = i
  · subst hk
    rw [setToken_self, hto, ← h.token_holds, hfrom]
  · rw [setToken_ne s p hk]
    exact h.token_holds k

theorem inv_enter {i : ι} (hi : s.tokens i = .unborn) :
    Inv { s.setToken i .live with count := s.count + 1 } := by
  refine inv_setToken h (by rw [hi]; rfl) rfl ?_ (fun _ h0 => by omega)
  rw [card_live_enter (by rw [hi]; simp), h.count_eq]

theorem inv_leave {i : ι} (hi : s.tokens i = .live) :
    Inv { s.setToken i (if s.count = 1 then .owing else .dead) with count := s.count - 1 } := by
  have hpos : 0 < s.count := by
    rw [h.count_eq]
    exact Finset.card_pos.mpr ⟨i, mem_live.mpr hi⟩
  have hto : (if s.count = 1 then Token.owing else .dead).holds = false := by split <;> rfl
  refine inv_setToken h (by rw [hi]; rfl) hto ?_ fun _ h0 => ⟨i, ?_⟩
  · rw [card_live_leave hi (by split <;> simp), h.count_eq]
  · -- the counter comes down to zero here, so this is the last one
    rw [setToken_self, if_pos (by omega)]
    rfl

theorem inv_reset {i : ι} (hi : s.tokens i = .dead) : Inv (s.setToken i .unborn) := by
  refine inv_setToken h (by rw [hi]; rfl) rfl ?_ fun hsleeps h0 => ?_
  · rw [live_setToken_of_ne (by rw [hi]; simp) (by simp)]
    exact h.count_eq
  · obtain ⟨k, hk⟩ := h.notifier hsleeps h0
    have hki : k ≠ i := by
      rintro rfl
      rw [hi] at hk
      exact nomatch hk
    exact ⟨k, by rwa [setToken_ne s _ hki]⟩

theorem inv_token {i : ι} (hst : tokenStep s i = some t) : Inv t := by
  rw [tokenStep] at hst
  split at hst
  · next hi =>
    split_ifs at hst with hmutex
    cases hst
    refine ⟨?_, fun k => ?_, ?_, fun hsleeps _ => ⟨i, ?_⟩⟩
    · show s.count = _
      rw [h.count_eq, ← live_setToken_of_ne (p := .holding) (by rw [hi]; simp) (by simp)]
      rfl
    · show ((s.setToken i .holding).tokens k).holds = true ↔ _
      by_cases hk : k = i
      · subst hk
        simp [Token.holds]
      · rw [setToken_ne s _ hk, h.token_holds, hmutex]
        simpa using Ne.symm hk
    · show s.waiter.holds = true ↔ _
      rw [h.waiter_holds, hmutex]
      simp
    · show ((s.setToken i .holding).tokens i).notifies = true
      rw [setToken_self]
      rfl
  · next hi =>
    cases hst
    have hmutex : s.mutex = some (.token i) := (h.token_holds i).mp (by rw [hi]; rfl)
    -- the waiter does not have the mutex, so it is not on its way to sleep
    have hwaiter : s.waiter.holds = false := by
      rw [← Bool.not_eq_true, h.waiter_holds, hmutex]
      simp
    have hnotify : s.waiter.notify.holds = false ∧ s.waiter.notify.sleeps = false := by
      cases hw : s.waiter <;> simp_all [Waiter.notify, Waiter.holds, Waiter.sleeps]
    refine ⟨?_, fun k => ?_, ?_, fun hsleeps _ => ?_⟩
    · show s.count = _
      rw [h.count_eq, ← live_setToken_of_ne (p := .notified) (by rw [hi]; simp) (by simp)]
      rfl
    · show ((s.setToken i .notified).tokens k).holds = true ↔ s.mutex = _
      by_cases hk : k = i
      · subst hk
        simp [Token.holds, hmutex]
      · rw [setToken_ne s _ hk, h.token_holds]
    · show s.waiter.notify.holds = true ↔ s.mutex = _
      simp [hnotify.1, hmutex]
    · rw [show s.waiter.notify.sleeps = false from hnotify.2] at hsleeps
      exact nomatch hsleeps
  · next hi =>
    cases hst
    have hmutex : s.mutex = some (.token i) := (h.token_holds i).mp (by rw [hi]; rfl)
    refine ⟨?_, fun k => ?_, ?_, fun hsleeps h0 => ?_⟩
    · show s.count = _
      rw [h.count_eq, ← live_setToken_of_ne (p := .dead) (by rw [hi]; simp) (by simp)]
      rfl
    · show ((s.setToken i .dead).tokens k).holds = true ↔ none = _
      by_cases hk : k = i
      · subst hk
        simp [Token.holds]
      · rw [setToken_ne s _ hk, h.token_holds, hmutex]
        simpa using Ne.symm hk
    · show s.waiter.holds = true ↔ none = _
      rw [h.waiter_holds, hmutex]
      simp
    · -- another token notifies still: this one has done so
      obtain ⟨k, hk⟩ := h.notifier hsleeps h0
      have hki : k ≠ i := by
        rintro rfl
        rw [hi] at hk
        exact nomatch hk
      exact ⟨k, by rwa [show _ = s.tokens k from setToken_ne s _ hki]⟩
  · exact nomatch hst

omit [DecidableEq ι] in
/-- Steps of the waiter that leave the mutex and the tokens alone. -/
theorem inv_setWaiter {w : Waiter} (hw : w.holds = s.waiter.holds) (hsleeps : w.sleeps = false) :
    Inv { s with waiter := w } := by
  refine ⟨h.count_eq, h.token_holds, ?_, fun hs => ?_⟩
  · show w.holds = true ↔ _
    rw [hw]
    exact h.waiter_holds
  · rw [show w.sleeps = false from hsleeps] at hs
    exact nomatch hs

omit [DecidableEq ι] in
/-- The waiter takes the mutex. -/
theorem inv_acquire {expired : Bool} (hmutex : s.mutex = none) :
    Inv { s with mutex := some .waiter, waiter := .checking expired } := by
  refine ⟨h.count_eq, fun k => ?_, by simp [Waiter.holds], fun hs => nomatch hs⟩
  rw [show (_ : Bool) = (s.tokens k).holds from rfl, h.token_holds, hmutex]
  simp

omit [DecidableEq ι] in
/-- The waiter gives up the mutex. -/
theorem inv_release {w : Waiter} (hheld : s.waiter.holds = true) (hw : w.holds = false)
    (hsleeps : w.sleeps = true → s.waiter.sleeps = true) :
    Inv { s with mutex := none, waiter := w } := by
  have hmutex := h.waiter_holds.mp hheld
  refine ⟨h.count_eq, fun k => ?_, ?_, fun hs => h.notifier (hsleeps hs)⟩
  · rw [show (_ : Bool) = (s.tokens k).holds from rfl, h.token_holds, hmutex]
    simp
  · simp [hw]

omit [DecidableEq ι] in
theorem inv_waiter (hst : waiterStep s = some t) : Inv t := by
  rw [waiterStep] at hst
  split at hst
  · split_ifs at hst with hmutex
    cases hst
    exact inv_acquire h hmutex
  · next expired hw =>
    split_ifs at hst with h0 hexpired
    · cases hst
      exact inv_release h (by rw [hw]; rfl) rfl (fun hs => nomatch hs)
    · cases hst
      exact inv_release h (by rw [hw]; rfl) rfl (fun hs => nomatch hs)
    · cases hst
      refine ⟨h.count_eq, h.token_holds, ?_, fun _ hzero => absurd hzero h0⟩
      rw [← h.waiter_holds, hw]
      exact Iff.rfl
  · next hw =>
    cases hst
    exact inv_release h (by rw [hw]; rfl) rfl fun _ => by rw [hw]; rfl
  · split_ifs at hst with hmutex
    cases hst
    exact inv_acquire h hmutex
  · exact nomatch hst

end

/-- Every step keeps `Inv`. -/
theorem inv_step (s : State ι) (a : Action ι) (t : State ι) (h : Inv s)
    (hst : step s a = some t) : Inv t := by
  cases a with
  | enter i =>
      rw [step] at hst
      split at hst <;> cases hst
      next hi => exact inv_enter h hi
  | leave i =>
      rw [step] at hst
      split at hst <;> cases hst
      next hi => exact inv_leave h hi
  | token i => exact inv_token h hst
  | reset i =>
      rw [step] at hst
      split at hst <;> cases hst
      next hi => exact inv_reset h hi
  | wait =>
      rw [step] at hst
      split at hst <;> cases hst
      · next hw => exact inv_setWaiter h (by rw [hw]; rfl) rfl
      · next hw => exact inv_setWaiter h (by rw [hw]; rfl) rfl
  | waiter => exact inv_waiter h hst
  | timeout =>
      rw [step] at hst
      split at hst <;> cases hst
      next hw => exact inv_setWaiter h (by rw [hw]; rfl) rfl
  | spurious =>
      rw [step] at hst
      split at hst <;> cases hst
      next hw => exact inv_setWaiter h (by rw [hw]; rfl) rfl

omit [DecidableEq ι] in
/-- **No wakeup is lost.** -/
theorem notifier_of_blocked {s : State ι} (h : Inv s) (hblocked : s.waiter = .blocked)
    (h0 : s.count = 0) : ∃ i, s.tokens i = .owing ∨ s.tokens i = .holding := by
  obtain ⟨i, hi⟩ := h.notifier (by rw [hblocked]; rfl) h0
  refine ⟨i, ?_⟩
  cases hp : s.tokens i <;> rw [hp] at hi <;> simp_all [Token.notifies]

/-! ## Who is live -/

/-- Whether a token is live after an action. -/
def LiveAfter (s : State ι) (k : ι) : Action ι → Prop
  | .enter i => k = i ∨ s.tokens k = .live
  | .leave i => k ≠ i ∧ s.tokens k = .live
  | _ => s.tokens k = .live

omit [Fintype ι] in
theorem live_setToken_iff {s : State ι} {i k : ι} {p : Token} (hi : s.tokens i ≠ .live)
    (hp : p ≠ .live) : (s.setToken i p).tokens k = .live ↔ s.tokens k = .live := by
  by_cases hk : k = i
  · subst hk
    rw [setToken_self]
    exact iff_of_false hp hi
  · rw [setToken_ne s p hk]

omit [Fintype ι] [DecidableEq ι] in
theorem waiterStep_tokens {s t : State ι} (hst : waiterStep s = some t) : t.tokens = s.tokens := by
  rw [waiterStep] at hst
  split at hst
  · split_ifs at hst
    cases hst
    rfl
  · split_ifs at hst <;> cases hst <;> rfl
  · cases hst
    rfl
  · split_ifs at hst
    cases hst
    rfl
  · exact nomatch hst

omit [Fintype ι] in
/-- Only a constructor makes a token live, and only its destructor ends that. -/
theorem live_step {s t : State ι} {a : Action ι} (hst : step s a = some t) (k : ι) :
    t.tokens k = .live ↔ LiveAfter s k a := by
  cases a with
  | enter i =>
      rw [step] at hst
      split at hst <;> cases hst
      show (s.setToken i .live).tokens k = .live ↔ _
      by_cases hk : k = i
      · simp [LiveAfter, hk]
      · simp [LiveAfter, setToken_ne s _ hk, hk]
  | leave i =>
      rw [step] at hst
      split at hst <;> cases hst
      show (s.setToken i _).tokens k = .live ↔ _
      by_cases hk : k = i
      · subst hk
        rw [setToken_self, LiveAfter]
        split <;> simp
      · simp [LiveAfter, setToken_ne s _ hk, hk]
  | token i =>
      rw [step, tokenStep] at hst
      split at hst
      · next hi =>
        split_ifs at hst
        cases hst
        exact live_setToken_iff (by rw [hi]; simp) (by simp)
      · next hi =>
        cases hst
        exact live_setToken_iff (by rw [hi]; simp) (by simp)
      · next hi =>
        cases hst
        exact live_setToken_iff (by rw [hi]; simp) (by simp)
      · exact nomatch hst
  | reset i =>
      rw [step] at hst
      split at hst <;> cases hst
      next hi => exact live_setToken_iff (by rw [hi]; simp) (by simp)
  | wait =>
      rw [step] at hst
      split at hst <;> cases hst <;> exact Iff.rfl
  | waiter =>
      rw [waiterStep_tokens hst]
      exact Iff.rfl
  | timeout =>
      rw [step] at hst
      split at hst <;> cases hst
      exact Iff.rfl
  | spurious =>
      rw [step] at hst
      split at hst <;> cases hst
      exact Iff.rfl

end Harbor.Latch
