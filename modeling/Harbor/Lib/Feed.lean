import Mathlib.Tactic

set_option autoImplicit false

/-! # Reading a stream in chunks

A stream is handed over chunk by chunk to a receiver, which says after each whether it wants more. A
receiver with a limit keeps what it got and stops before it would hold more than the limit; whether it
does depends on the length of the stream and not on how it is cut into chunks.
-/

namespace Harbor

variable {σ α : Type}

/-- The chunks one after another, until the receiver wants no more. -/
def feed (receive : σ → List α → σ × Bool) : σ → List (List α) → σ
  | s, [] => s
  | s, chunk :: chunks =>
      if (receive s chunk).2 then feed receive (receive s chunk).1 chunks else (receive s chunk).1

theorem feed_more {receive : σ → List α → σ × Bool} {s t : σ} {chunk : List α}
    (h : receive s chunk = (t, true)) (chunks : List (List α)) :
    feed receive s (chunk :: chunks) = feed receive t chunks := by
  simp [feed, h]

theorem feed_stop {receive : σ → List α → σ × Bool} {s t : σ} {chunk : List α}
    (h : receive s chunk = (t, false)) (chunks : List (List α)) :
    feed receive s (chunk :: chunks) = t := by
  simp [feed, h]

/-- What each chunk keeps, the stream keeps. -/
theorem feed_invariant {receive : σ → List α → σ × Bool} {I : σ → Prop}
    (hreceive : ∀ s chunk, I s → I (receive s chunk).1) (chunks : List (List α)) :
    ∀ {s : σ}, I s → I (feed receive s chunks) := by
  induction chunks with
  | nil => exact fun hs => hs
  | cons chunk chunks ih =>
      intro s hs
      unfold feed
      split
      · exact ih (hreceive s chunk hs)
      · exact hreceive s chunk hs

/-! ## Buffers -/

/-- What has been kept so far, and whether a chunk went over the limit. -/
structure Buffer (α : Type) where
  content : List α := []
  tooLarge : Bool := false
  deriving DecidableEq, Repr

namespace Buffer

/-- A receiver that keeps everything. -/
def receiveAll (b : Buffer α) (chunk : List α) : Buffer α × Bool :=
  ({ b with content := b.content ++ chunk }, true)

/-- A receiver that stops at the first chunk with which it would hold more than the limit. -/
def receiveUpTo (limit : Nat) (b : Buffer α) (chunk : List α) : Buffer α × Bool :=
  if b.tooLarge then (b, false)
  else if limit < b.content.length + chunk.length then ({ b with tooLarge := true }, false)
  else ({ b with content := b.content ++ chunk }, true)

/-- The stream, unless it was too large. -/
def read (b : Buffer α) : Option (List α) := if b.tooLarge then none else some b.content

theorem content_of_read {b : Buffer α} {content : List α} (h : b.read = some content) :
    b.content = content := by
  unfold read at h
  split at h
  · exact nomatch h
  · exact Option.some.inj h

theorem receiveUpTo_over {limit : Nat} {b : Buffer α} {chunk : List α} (hb : b.tooLarge = false)
    (hover : limit < b.content.length + chunk.length) :
    receiveUpTo limit b chunk = ({ b with tooLarge := true }, false) := by
  rw [receiveUpTo, if_neg (by simp [hb]), if_pos hover]

theorem receiveUpTo_within {limit : Nat} {b : Buffer α} {chunk : List α} (hb : b.tooLarge = false)
    (hwithin : ¬ limit < b.content.length + chunk.length) :
    receiveUpTo limit b chunk = ({ b with content := b.content ++ chunk }, true) := by
  rw [receiveUpTo, if_neg (by simp [hb]), if_neg hwithin]

theorem feed_receiveAll (chunks : List (List α)) :
    ∀ b : Buffer α, feed receiveAll b chunks = { b with content := b.content ++ chunks.flatten } := by
  induction chunks with
  | nil => simp [feed]
  | cons chunk chunks ih =>
      intro b
      rw [feed_more (t := { b with content := b.content ++ chunk }) rfl, ih]
      simp

/-- It never holds more than the limit. -/
theorem length_feed_receiveUpTo (limit : Nat) (chunks : List (List α)) :
    (feed (receiveUpTo limit) {} chunks).content.length ≤ limit := by
  refine feed_invariant (I := fun b : Buffer α => b.content.length ≤ limit) (fun b chunk hb => ?_) chunks
    (Nat.zero_le limit)
  unfold receiveUpTo
  split
  · exact hb
  split
  · exact hb
  · show (b.content ++ chunk).length ≤ limit
    rw [List.length_append]
    omega

/-- What it holds it does not lose. -/
theorem receiveUpTo_ne_nil (limit : Nat) (b : Buffer α) (chunk : List α) (hb : b.content ≠ []) :
    (receiveUpTo limit b chunk).1.content ≠ [] := by
  unfold receiveUpTo
  split
  · exact hb
  split
  · exact hb
  · exact List.append_ne_nil_of_left_ne_nil hb chunk

/-- It reads exactly the streams within the limit, however they are cut. -/
theorem read_feed_receiveUpTo (limit : Nat) (chunks : List (List α)) :
    ∀ {b : Buffer α}, b.tooLarge = false → b.content.length ≤ limit →
      (feed (receiveUpTo limit) b chunks).read =
        if limit < b.content.length + chunks.flatten.length then none
        else some (b.content ++ chunks.flatten) := by
  induction chunks with
  | nil =>
      intro b hb hlength
      rw [List.flatten_nil, List.append_nil, List.length_nil, if_neg (by omega)]
      simp [feed, read, hb]
  | cons chunk chunks ih =>
      intro b hb hlength
      rw [List.flatten_cons, List.length_append, ← Nat.add_assoc]
      by_cases hover : limit < b.content.length + chunk.length
      · rw [feed_stop (receiveUpTo_over hb hover), if_pos (by omega)]
        rfl
      · have hlength' : (b.content ++ chunk).length ≤ limit := by
          rw [List.length_append]
          omega
        have hrest := ih (b := { b with content := b.content ++ chunk }) hb hlength'
        rw [feed_more (receiveUpTo_within hb hover), hrest, List.length_append, List.append_assoc]

/-- It holds nothing exactly when the first chunk that is not empty goes over the limit. -/
theorem content_feed_receiveUpTo_eq_nil {limit : Nat} {chunks : List (List α)} :
    (feed (receiveUpTo limit) {} chunks).content = [] ↔
      ∀ chunk, chunks.find? (fun chunk => !chunk.isEmpty) = some chunk → limit < chunk.length := by
  induction chunks with
  | nil => simp [feed]
  | cons chunk chunks ih =>
      cases chunk with
      | nil =>
          rw [feed_more (receiveUpTo_within rfl (Nat.not_lt_zero limit)), List.append_nil, ih]
          simp
      | cons a as =>
          rw [List.find?_cons_of_pos (by simp)]
          by_cases hover : limit < ([] : List α).length + (a :: as).length
          · rw [feed_stop (receiveUpTo_over rfl hover)]
            simpa using hover
          · rw [feed_more (receiveUpTo_within rfl hover)]
            constructor
            · intro hnil
              have hkept := feed_invariant (I := fun b : Buffer α => b.content ≠ [])
                (receiveUpTo_ne_nil limit) chunks (s := { content := a :: as }) (by simp)
              exact absurd hnil hkept
            · intro h
              exact absurd (h _ rfl) (by simpa using hover)

end Buffer

end Harbor
