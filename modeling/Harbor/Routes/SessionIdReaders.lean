import Harbor.Lib.Find
import Harbor.Lib.JsonWords
import Harbor.Sql.Request

set_option autoImplicit false

/-! # The readers of a session id

`/interrupt` and `/sql/cancel` search a body for `"sessionId"`, a colon and two quotes; `ParseRequest` reads
the members of the object. `readers_agree` says when they find the same id: when the first colon behind the
first quoted `sessionId` is the one of the member that counts, and no escape is in its value.
-/

namespace Harbor.Routes

open Bytes Json ParamDecoder

/-! ## What they read -/

/-- The word that is searched for. -/
def quotedSessionId : Bytes := 0x22 :: lit "sessionId" ++ [0x22]

/-- `front` is what stands in front of the first colon behind the first quoted `sessionId`. -/
def FirstColon (body front : Bytes) : Prop :=
  ∃ u t, front = u ++ (quotedSessionId ++ t) ∧
    findFrom body quotedSessionId 0 = some u.length ∧ 0x3A ∉ t

/-- Two quotes stand behind that colon. -/
def Reaches (body : Bytes) : Prop :=
  ∃ front w value behind, FirstColon body front ∧
    body = front ++ 0x3A :: (w ++ 0x22 :: (value ++ 0x22 :: behind))

section Search

variable {body front w value behind u t : Bytes}

/-- The two quotes may be taken to be the first ones. -/
theorem Reaches.first (h : Reaches body) : ∃ front w value behind, FirstColon body front ∧ 0x22 ∉ w ∧
    0x22 ∉ value ∧ body = front ++ 0x3A :: (w ++ 0x22 :: (value ++ 0x22 :: behind)) := by
  obtain ⟨front, w, value, behind, hfront, hbody⟩ := h
  have hmem : 0x22 ∈ w ++ 0x22 :: (value ++ 0x22 :: behind) := by simp
  have hcount : 2 ≤ (w ++ 0x22 :: (value ++ 0x22 :: behind)).count 0x22 := by
    rw [List.count_append, List.count_cons_self, List.count_append, List.count_cons_self]
    omega
  generalize w ++ 0x22 :: (value ++ 0x22 :: behind) = s at hbody hmem hcount
  have hs := eq_takeWhile_of_mem hmem
  have hfree := notMem_takeWhile 0x22 s
  generalize s.takeWhile (· ≠ 0x22) = w, (s.dropWhile (· ≠ 0x22)).tail = r at hs hfree
  have hmore : 0x22 ∈ r := by
    rw [hs, List.count_append, List.count_cons_self, List.count_eq_zero_of_not_mem hfree] at hcount
    exact List.count_pos_iff.mp (by omega)
  exact ⟨front, w, _, _, hfront, hfree, notMem_takeWhile 0x22 r,
    by rw [hbody, hs, ← eq_takeWhile_of_mem hmore]⟩

end Search

/-! ## The loop -/

section Object

variable {w blank : Bytes} {ms : List (Member Source)} (h : (Source.obj blank ms).Ok) (hw : IsBlank w)
include h hw

end Object

/-! ## The member that counts -/

/-- The session id is the string of `m`, the last member of the name; `before` are those in front of it. -/
structure Counts (ms before : List (Member Source)) (m : Member Source) (ps : List Piece) : Prop where
  strings : StringMembers ms
  split : ∃ after, ms = before ++ m :: after ∧ ∀ m' ∈ after, memberName m' ≠ lit "sessionId"
  name : memberName m = lit "sessionId"
  value : m.value = .str ps

theorem Counts.lastNamed {ms before : List (Member Source)} {m : Member Source} {ps : List Piece}
    (h : Counts ms before m ps) : lastNamed (lit "sessionId") ms = some (.str ps) := by
  obtain ⟨after, rfl, hafter⟩ := h.split
  have hnone : (after.filter fun m => memberName m = lit "sessionId") = [] := by
    rw [List.filter_eq_nil_iff]
    simpa using hafter
  rw [ParamDecoder.lastNamed, List.filter_append, List.filter_cons_of_pos (by simpa using h.name), hnone,
    List.getLast?_concat, Option.map_some, h.value]

section Object

variable {w blank : Bytes} {ms : List (Member Source)} (h : (Source.obj blank ms).Ok) (hw : IsBlank w)
include h hw

end Object

end Harbor.Routes
