import Mathlib.Data.List.AList

set_option autoImplicit false

/-! # Maps of things that carry their key

A map from keys to things that know their own key, such as catalog entries under their names. It is an
association list in which no thing stands under another's key. `get_put` and `get_erase` say what the
operations do; a map that is filled from a list of things with different keys has just these
(`get_ofList_eq_some`).
-/

namespace Harbor

universe u v

/-- `keyed` leaves no other way to put a thing in than under its key. -/
structure KeyedMap {α : Type u} {κ : Type v} [DecidableEq κ] (key : α → κ) where
  entries : AList fun _ : κ => α
  keyed : ∀ k a, entries.lookup k = some a → key a = k

namespace KeyedMap

variable {α : Type u} {κ : Type v} [DecidableEq κ] {key : α → κ}

def empty : KeyedMap key := ⟨∅, by simp⟩

instance : EmptyCollection (KeyedMap key) := ⟨empty⟩

def get (m : KeyedMap key) (k : κ) : Option α := m.entries.lookup k

/-- Put it in, in place of what is there under its key. -/
def put (m : KeyedMap key) (a : α) : KeyedMap key where
  entries := m.entries.insert (key a) a
  keyed := by
    intro k b hb
    by_cases hk : k = key a
    · subst hk
      rw [AList.lookup_insert] at hb
      rw [Option.some.inj hb]
    · rw [AList.lookup_insert_ne hk] at hb
      exact m.keyed k b hb

def erase (m : KeyedMap key) (k : κ) : KeyedMap key where
  entries := m.entries.erase k
  keyed := by
    intro k' b hb
    by_cases hk : k' = k
    · subst hk
      rw [AList.lookup_erase] at hb
      cases hb
    · rw [AList.lookup_erase_ne hk] at hb
      exact m.keyed k' b hb

def toList (m : KeyedMap key) : List α := m.entries.entries.map Sigma.snd

/-- Put them in one after another; the last one under a key stays. -/
def ofList (l : List α) : KeyedMap key := l.foldl put ∅

@[simp] theorem get_empty (k : κ) : (∅ : KeyedMap key).get k = none := AList.lookup_empty k

theorem get_put (m : KeyedMap key) (a : α) (k : κ) :
    (m.put a).get k = if k = key a then some a else m.get k := by
  unfold get put
  split
  · rename_i hk
    rw [hk, AList.lookup_insert]
  · rename_i hk
    rw [AList.lookup_insert_ne hk]

theorem get_erase (m : KeyedMap key) (k k' : κ) :
    (m.erase k).get k' = if k' = k then none else m.get k' := by
  unfold get erase
  split
  · rename_i hk
    rw [hk, AList.lookup_erase]
  · rename_i hk
    rw [AList.lookup_erase_ne hk]

theorem key_of_get {m : KeyedMap key} {k : κ} {a : α} (h : m.get k = some a) : key a = k := m.keyed k a h

theorem mem_toList {m : KeyedMap key} {a : α} : a ∈ m.toList ↔ m.get (key a) = some a := by
  rw [toList, get, ← Option.mem_def, AList.mem_lookup_iff]
  constructor
  · intro h
    obtain ⟨⟨k, b⟩, hmem, rfl⟩ := List.mem_map.mp h
    have hk : key b = k := m.keyed k b (AList.mem_lookup_iff.mpr hmem)
    rwa [hk]
  · intro h
    exact List.mem_map.mpr ⟨_, h, rfl⟩

theorem get_eq_some {m : KeyedMap key} {k : κ} {a : α} : m.get k = some a ↔ a ∈ m.toList ∧ key a = k := by
  rw [mem_toList]
  constructor
  · intro h
    have hk := key_of_get h
    exact ⟨by rw [hk, h], hk⟩
  · rintro ⟨h, rfl⟩
    exact h

/-- Different things in a map have different keys. -/
theorem nodup_keys (m : KeyedMap key) : (m.toList.map key).Nodup := by
  have hkeys : m.toList.map key = m.entries.keys := by
    rw [toList, AList.keys, List.keys, List.map_map]
    refine List.map_congr_left fun s hs => ?_
    exact m.keyed s.1 s.2 (AList.mem_lookup_iff.mpr hs)
  rw [hkeys]
  exact m.entries.keys_nodup

theorem mem_put {m : KeyedMap key} {a b : α} :
    b ∈ (m.put a).toList ↔ b = a ∨ (b ∈ m.toList ∧ key b ≠ key a) := by
  rw [mem_toList, get_put, mem_toList]
  by_cases hk : key b = key a
  · rw [if_pos hk, Option.some.injEq, eq_comm]
    exact ⟨Or.inl, fun h => h.resolve_right fun hb => hb.2 hk⟩
  · rw [if_neg hk]
    refine ⟨fun h => Or.inr ⟨h, hk⟩, ?_⟩
    rintro (rfl | ⟨h, -⟩)
    · exact absurd rfl hk
    · exact h

theorem mem_erase {m : KeyedMap key} {k : κ} {a : α} :
    a ∈ (m.erase k).toList ↔ a ∈ m.toList ∧ key a ≠ k := by
  rw [mem_toList, get_erase, mem_toList]
  by_cases hk : key a = k
  · rw [if_pos hk]
    exact iff_of_false nofun fun h => h.2 hk
  · rw [if_neg hk, and_iff_left hk]

theorem isSome_get {m : KeyedMap key} {k : κ} : (m.get k).isSome = true ↔ ∃ a ∈ m.toList, key a = k := by
  simp only [Option.isSome_iff_exists, get_eq_some]

theorem eq_of_key {m : KeyedMap key} {a b : α} (ha : a ∈ m.toList) (hb : b ∈ m.toList)
    (h : key a = key b) : a = b := by
  rw [mem_toList] at ha hb
  rw [h, hb] at ha
  exact (Option.some.inj ha).symm

theorem get_foldl_put (l : List α) (m : KeyedMap key) (hl : (l.map key).Nodup) (k : κ) (a : α) :
    (l.foldl put m).get k = some a ↔ (a ∈ l ∧ key a = k) ∨ (k ∉ l.map key ∧ m.get k = some a) := by
  induction l generalizing m with
  | nil => simp
  | cons b l ih =>
      rw [List.map_cons, List.nodup_cons] at hl
      rw [List.foldl_cons, ih (m.put b) hl.2, get_put, List.map_cons, List.mem_cons, List.mem_cons]
      by_cases hk : k = key b
      · subst hk
        have hnot : ¬(a ∈ l ∧ key a = key b) := fun h => hl.1 (h.2 ▸ List.mem_map_of_mem h.1)
        rw [if_pos rfl]
        constructor
        · rintro (h | ⟨-, h⟩)
          · exact absurd h hnot
          · cases h
            exact Or.inl ⟨Or.inl rfl, rfl⟩
        · rintro (⟨rfl | hmem, h⟩ | ⟨h, -⟩)
          · exact Or.inr ⟨hl.1, rfl⟩
          · exact absurd ⟨hmem, h⟩ hnot
          · exact absurd (Or.inl rfl) h
      · rw [if_neg hk]
        constructor
        · rintro (⟨hmem, h⟩ | ⟨hmem, h⟩)
          · exact Or.inl ⟨Or.inr hmem, h⟩
          · exact Or.inr ⟨fun h => h.elim hk hmem, h⟩
        · rintro (⟨rfl | hmem, h⟩ | ⟨hmem, h⟩)
          · exact absurd h.symm hk
          · exact Or.inl ⟨hmem, h⟩
          · exact Or.inr ⟨fun h => hmem (Or.inr h), h⟩

/-- A map filled from things with different keys has just these. -/
theorem get_ofList_eq_some {l : List α} (hl : (l.map key).Nodup) {k : κ} {a : α} :
    (ofList l : KeyedMap key).get k = some a ↔ a ∈ l ∧ key a = k := by
  rw [ofList, get_foldl_put l ∅ hl, get_empty]
  simp

theorem mem_ofList {l : List α} (hl : (l.map key).Nodup) {a : α} :
    a ∈ (ofList l : KeyedMap key).toList ↔ a ∈ l := by
  rw [mem_toList, get_ofList_eq_some hl, and_iff_left rfl]

end KeyedMap

end Harbor
