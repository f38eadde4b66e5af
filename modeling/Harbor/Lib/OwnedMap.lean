import Mathlib.Tactic
import Mathlib.Data.Set.Card
import Mathlib.Data.List.AList

set_option autoImplicit false

/-! # Owned maps

A map whose entries belong to somebody or to nobody. What is kept here of an entry is only whose it
is: `none` for a key that is not live, `some none` for an entry without an owner. `Spec` says what each
call answers and does, in terms of who owns what: a creation succeeds if its caller is ready, the key is
not live and there is room, and changes nothing if it fails. `ofAList` is the owned map of an association
list.
-/

namespace Harbor

/-- Whose the live keys are. -/
abbrev OwnedMap (κ ω : Type) := κ → Option (Option ω)

namespace OwnedMap

variable {κ ω : Type}

/-- The live keys. -/
def live (m : OwnedMap κ ω) : Set κ := {k | m k ≠ none}

/-- The keys of an owner. -/
def keysOf (m : OwnedMap κ ω) (owner : ω) : Set κ := {k | m k = some (some owner)}

section

variable [DecidableEq κ] [DecidableEq ω]

def create (m : OwnedMap κ ω) (k : κ) (owner : Option ω) : OwnedMap κ ω :=
  Function.update m k (some owner)

def erase (m : OwnedMap κ ω) (k : κ) : OwnedMap κ ω := Function.update m k none

/-- Without the keys of an owner; nobody owns the entries without one together. -/
def eraseOwnedBy (m : OwnedMap κ ω) : Option ω → OwnedMap κ ω
  | none => m
  | some owner => fun k => if m k = some (some owner) then none else m k

end

/-- A call on an owned map; a creation has the number of entries it may not go beyond, if any, and
whether its caller is ready for it. -/
inductive Op (κ ω : Type) where
  | create (k : κ) (owner : Option ω) (limit : Option Nat) (ready : Bool)
  | get (k : κ)
  | erase (k : κ)
  | getOwned (k : κ) (owner : Option ω)
  | eraseOwned (k : κ) (owner : Option ω)
  | eraseOwnedBy (owner : Option ω)
  | list

inductive Answer (κ ω : Type) where
  | done (ok : Bool)
  | count (n : Nat)
  | listed (entries : List (κ × Option ω))

/-- A creation succeeds. -/
def MayCreate (m : OwnedMap κ ω) (k : κ) (limit : Option Nat) (ready : Bool) : Prop :=
  ready = true ∧ m k = none ∧ ∀ n ∈ limit, m.live.ncard < n

/-- What a call answers, and the map it leaves. -/
def Spec [DecidableEq κ] [DecidableEq ω] (m : OwnedMap κ ω) :
    Op κ ω → Answer κ ω → OwnedMap κ ω → Prop
  | .create k owner limit ready, .done ok, m' =>
      (ok = true ↔ m.MayCreate k limit ready) ∧ m' = if ok then m.create k owner else m
  | .get k, .done ok, m' => (ok = true ↔ m k ≠ none) ∧ m' = m
  | .erase k, .done ok, m' => (ok = true ↔ m k ≠ none) ∧ m' = m.erase k
  | .getOwned k owner, .done ok, m' => (ok = true ↔ m k = some owner) ∧ m' = m
  | .eraseOwned k owner, .done ok, m' =>
      (ok = true ↔ m k = some owner) ∧ m' = if m k = some owner then m.erase k else m
  | .eraseOwnedBy none, .count n, m' => n = 0 ∧ m' = m
  | .eraseOwnedBy (some owner), .count n, m' =>
      n = (m.keysOf owner).ncard ∧ m' = m.eraseOwnedBy (some owner)
  | .list, .listed entries, m' => (∀ k owner, (k, owner) ∈ entries ↔ m k = some owner) ∧ m' = m
  | _, _, _ => False

end OwnedMap

/-! ## Association lists -/

namespace OwnedMap

variable {κ ω α : Type} [DecidableEq κ] (owner : α → Option ω)

/-- The owned map of an association list, with the owner of each entry. -/
def ofAList (l : AList fun _ : κ => α) : OwnedMap κ ω := fun k => (l.lookup k).map owner

theorem ofAList_erase (l : AList fun _ : κ => α) (k : κ) :
    ofAList owner (l.erase k) = (ofAList owner l).erase k := by
  funext k'
  by_cases h : k' = k
  · subst h
    rw [ofAList, AList.lookup_erase, erase, Function.update_self]
    rfl
  · rw [ofAList, AList.lookup_erase_ne h, erase, Function.update_of_ne h]
    rfl

theorem mem_entries_iff (l : AList fun _ : κ => α) (k : κ) (a : α) :
    (⟨k, a⟩ : Sigma fun _ : κ => α) ∈ l.entries ↔ l.lookup k = some a := by
  rw [← AList.mem_lookup_iff, Option.mem_def]

/-- There are as many live keys as entries. -/
theorem ncard_live (l : AList fun _ : κ => α) : (ofAList owner l).live.ncard = l.entries.length := by
  have hkeys : (ofAList owner l).live = (l.entries.map Sigma.fst).toFinset := by
    ext k
    simp only [live, ofAList, Set.mem_ofPred_eq, List.coe_toFinset, List.mem_map,
      Option.ne_none_iff_isSome, Option.isSome_map]
    constructor
    · intro h
      obtain ⟨a, ha⟩ := Option.isSome_iff_exists.mp h
      exact ⟨⟨k, a⟩, (mem_entries_iff l k a).mpr ha, rfl⟩
    · rintro ⟨⟨k', a⟩, ha, rfl⟩
      exact Option.isSome_iff_exists.mpr ⟨a, (mem_entries_iff l k' a).mp ha⟩
  have hnodup : (l.entries.map Sigma.fst).Nodup := l.nodupKeys
  rw [hkeys, Set.ncard_coe_finset, List.toFinset_card_of_nodup hnodup, List.length_map]

/-- As many keys have an owner as entries do. -/
theorem ncard_keysOf [DecidableEq ω] (l : AList fun _ : κ => α) (p : ω) :
    ((ofAList owner l).keysOf p).ncard =
      (l.entries.filter fun e => owner e.2 = some p).length := by
  have hkeys : (ofAList owner l).keysOf p =
      ((l.entries.filter fun e => owner e.2 = some p).map Sigma.fst).toFinset := by
    ext k
    simp only [keysOf, ofAList, Set.mem_ofPred_eq, Option.map_eq_some_iff, List.coe_toFinset,
      List.mem_map, List.mem_filter, decide_eq_true_eq]
    constructor
    · rintro ⟨a, ha, hp⟩
      exact ⟨⟨k, a⟩, ⟨(mem_entries_iff l k a).mpr ha, hp⟩, rfl⟩
    · rintro ⟨⟨k', a⟩, ⟨ha, hp⟩, rfl⟩
      exact ⟨a, (mem_entries_iff l k' a).mp ha, hp⟩
  have hnodup : ((l.entries.filter fun e => owner e.2 = some p).map Sigma.fst).Nodup :=
    List.Nodup.sublist (List.filter_sublist.map Sigma.fst) l.nodupKeys
  rw [hkeys, Set.ncard_coe_finset, List.toFinset_card_of_nodup hnodup, List.length_map]

end OwnedMap

end Harbor
