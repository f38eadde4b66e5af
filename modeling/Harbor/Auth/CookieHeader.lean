import Harbor.Auth.Request
import Harbor.Lib.Find

set_option autoImplicit false

/-! # The Cookie header

The header comes with the cookies of every application on the host, so what stands in front of the
session cookie is not this server's own. `cookieValue` says what a name stands for in a header, and
`extractCookie_exact_iff` when `ExtractCookie` finds it: a piece without an equals sign ends the scan.
-/

namespace Harbor.Auth

/-! ## The scan -/

/-- The loop of `ExtractCookie` as it goes through the header, `rest` being the header from `pos` on. -/
def extractCookieScan (name rest : Bytes) : Bytes :=
  if _hrest : rest = [] then []
  else
    let cur := rest.dropWhile Bytes.isSpace
    match cur.idxOf? 0x3D, cur.idxOf? 0x3B with
    | none, _ => []
    | some eq, none => if cur.take eq = name then cur.drop (eq + 1) else []
    | some eq, some semi =>
        if eq > semi then []
        else if cur.take eq = name then (cur.drop (eq + 1)).take (semi - (eq + 1))
        else extractCookieScan name (cur.drop (semi + 1))
termination_by rest.length
decreasing_by
  have hcur := (List.dropWhile_suffix (l := rest) Bytes.isSpace).length_le
  have hpos := List.length_pos_of_ne_nil _hrest
  rw [List.length_drop]
  omega

/-- White space is skipped up to the end of the piece. -/
theorem dropWhile_isSpace_append (piece rest : Bytes) :
    (piece ++ 0x3B :: rest).dropWhile Bytes.isSpace =
      piece.dropWhile Bytes.isSpace ++ 0x3B :: rest := by
  induction piece with
  | nil => rfl
  | cons b piece ih =>
      rw [List.cons_append, List.dropWhile_cons, List.dropWhile_cons]
      by_cases hb : Bytes.isSpace b
      · rw [if_pos hb, if_pos hb, ih]
      · rw [if_neg hb, if_neg hb, List.cons_append]

/-- The last piece, behind which there is no semicolon. -/
theorem extractCookieScan_last (name : Bytes) {piece : Bytes} (h : 0x3B ∉ piece) :
    extractCookieScan name piece = extractCookieLoop name [piece] := by
  have hcur : 0x3B ∉ piece.dropWhile Bytes.isSpace := fun hmem => h (List.dropWhile_subset _ hmem)
  have hsemi : (piece.dropWhile Bytes.isSpace).idxOf? 0x3B = none := List.idxOf?_eq_none_iff.mpr hcur
  rw [extractCookieScan, extractCookieLoop]
  by_cases hpiece : piece = []
  · subst hpiece
    rfl
  rw [dif_neg hpiece]
  dsimp only
  generalize piece.dropWhile Bytes.isSpace = cur at hsemi ⊢
  rw [hsemi]
  by_cases heq : 0x3D ∈ cur
  · rw [if_neg (not_not.mpr heq)]
    have hsplit := Bytes.eq_takeWhile_of_mem heq
    have hname := Bytes.notMem_takeWhile 0x3D cur
    generalize cur.takeWhile (· ≠ 0x3D) = key at hsplit hname ⊢
    generalize (cur.dropWhile (· ≠ 0x3D)).tail = value at hsplit ⊢
    subst hsplit
    rw [Bytes.idxOf?_append hname]
    simp [extractCookieLoop]
  · rw [if_pos heq, List.idxOf?_eq_none_iff.mpr heq]

/-- A piece and the semicolon behind it are one round of the loop. -/
theorem extractCookieScan_cons (name : Bytes) {piece : Bytes} (h : 0x3B ∉ piece) (rest : Bytes)
    {pieces : List Bytes} (hrest : extractCookieScan name rest = extractCookieLoop name pieces) :
    extractCookieScan name (piece ++ 0x3B :: rest) = extractCookieLoop name (piece :: pieces) := by
  have hcur : 0x3B ∉ piece.dropWhile Bytes.isSpace := fun hmem => h (List.dropWhile_subset _ hmem)
  rw [extractCookieScan, extractCookieLoop, dif_neg (by simp)]
  dsimp only
  rw [dropWhile_isSpace_append]
  generalize piece.dropWhile Bytes.isSpace = cur at hcur ⊢
  rw [Bytes.idxOf?_append hcur]
  by_cases heq : 0x3D ∈ cur
  · rw [if_neg (not_not.mpr heq)]
    have hsplit := Bytes.eq_takeWhile_of_mem heq
    have hname := Bytes.notMem_takeWhile 0x3D cur
    generalize cur.takeWhile (· ≠ 0x3D) = key at hsplit hname ⊢
    generalize (cur.dropWhile (· ≠ 0x3D)).tail = value at hsplit ⊢
    subst hsplit
    rw [List.append_assoc, List.cons_append, Bytes.idxOf?_append hname]
    dsimp only
    rw [if_neg (by simp), ← hrest]
    -- the scan cuts by positions; behind the semicolon is the rest of the header
    have hsemi : (key ++ 0x3D :: (value ++ 0x3B :: rest)).drop ((key ++ 0x3D :: value).length + 1) =
        rest := by
      rw [show key ++ 0x3D :: (value ++ 0x3B :: rest) = (key ++ 0x3D :: value ++ [0x3B]) ++ rest by
        simp]
      refine List.drop_left' ?_
      rw [List.length_append]
      rfl
    have hvalue : (key ++ 0x3D :: (value ++ 0x3B :: rest)).drop (key.length + 1) =
        value ++ 0x3B :: rest := by
      rw [show key ++ 0x3D :: (value ++ 0x3B :: rest) = (key ++ [0x3D]) ++ (value ++ 0x3B :: rest) by
        simp]
      exact List.drop_left' (by simp)
    have hlen : (key ++ 0x3D :: value).length - (key.length + 1) = value.length := by
      simp only [List.length_append, List.length_cons]
      omega
    rw [List.take_left' rfl, hsemi, hvalue, hlen, List.take_left' rfl]
  · rw [if_pos heq]
    -- The sign that is found, if any, stands behind the semicolon.
    cases hfound : (cur ++ 0x3B :: rest).idxOf? 0x3D with
    | none => rfl
    | some eq =>
        obtain ⟨hlt, hat, -⟩ := List.idxOf?_eq_some_iff.mp hfound
        dsimp only
        refine if_pos ?_
        by_contra hle
        rcases Nat.lt_or_eq_of_le (Nat.le_of_not_lt hle) with hin | rfl
        · rw [List.getElem_append_left hin] at hat
          exact heq (hat ▸ List.getElem_mem hin)
        · rw [List.getElem_append_right (Nat.le_refl _)] at hat
          simp at hat

/-- **The scan over the header is the loop over its pieces.** -/
theorem extractCookie_eq_scan {name : Bytes} (hname : name ≠ []) (header : Bytes) :
    extractCookie header name = extractCookieScan name header := by
  have hpieces : ∀ pieces : List Bytes, pieces ≠ [] → (∀ piece ∈ pieces, 0x3B ∉ piece) →
      extractCookieScan name ([0x3B].intercalate pieces) = extractCookieLoop name pieces := by
    intro pieces hne hfree
    induction pieces with
    | nil => exact absurd rfl hne
    | cons piece pieces ih =>
        rw [List.forall_mem_cons] at hfree
        by_cases hlast : pieces = []
        · subst hlast
          rw [List.intercalate_singleton]
          exact extractCookieScan_last name hfree.1
        · rw [List.intercalate_cons_of_ne_nil hlast, List.append_assoc]
          exact extractCookieScan_cons name hfree.1 _ (ih hlast hfree.2)
  have h := hpieces (header.splitOn 0x3B) (List.splitOn_ne_nil 0x3B header)
    fun piece hpiece => Bytes.notMem_of_mem_splitOn hpiece
  rw [List.intercalate_splitOn] at h
  unfold extractCookie
  by_cases hheader : header = []
  · subst hheader
    rw [if_pos (.inl rfl), extractCookieScan, dif_pos rfl]
  · rw [if_neg (not_or.mpr ⟨hheader, hname⟩), h]

/-! ## What a name stands for -/

/-- The pieces between the semicolons, without the white space in front of them. -/
def cookiePieces (header : Bytes) : List Bytes :=
  (header.splitOn 0x3B).map (·.dropWhile Bytes.isSpace)

/-- The piece gives a value to exactly this name. -/
def namesCookie (name piece : Bytes) : Bool := 0x3D ∈ piece && piece.takeWhile (· ≠ 0x3D) == name

theorem namesCookie_iff {name piece : Bytes} :
    namesCookie name piece = true ↔ 0x3D ∈ piece ∧ piece.takeWhile (· ≠ 0x3D) = name := by
  rw [namesCookie, Bool.and_eq_true, decide_eq_true_iff, beq_iff_eq]

/-- What stands behind the first equals sign of a piece. -/
def pieceValue (piece : Bytes) : Bytes := (piece.dropWhile (· ≠ 0x3D)).tail

/-- The value that a header gives to a name: that of the first piece with the name. -/
def cookieValue (name header : Bytes) : Option Bytes :=
  ((cookiePieces header).find? (namesCookie name)).map pieceValue

/-- `ExtractCookie` returns the value of the name, and the empty string only when there is none or it
is empty. -/
def ExtractsCookie (name header : Bytes) : Prop :=
  extractCookie header name = (cookieValue name header).getD [] ∧
    (extractCookie header name = [] ↔ cookieValue name header = none ∨ cookieValue name header = some [])

/-- Every piece in front of the one with the name has an equals sign. -/
def PairsBefore (name header : Bytes) : Prop :=
  ∀ piece ∈ (cookiePieces header).takeWhile (! namesCookie name ·), 0x3D ∈ piece

/-- The value that the loop is looking for among these pieces. -/
def wantedValue (name : Bytes) (pieces : List Bytes) : Option Bytes :=
  ((pieces.map (·.dropWhile Bytes.isSpace)).find? (namesCookie name)).map pieceValue

theorem extractCookieLoop_eq (name : Bytes) (pieces : List Bytes) :
    extractCookieLoop name pieces = (wantedValue name pieces).getD [] ↔
      ((wantedValue name pieces).getD [] ≠ [] →
        ∀ piece ∈ (pieces.map (·.dropWhile Bytes.isSpace)).takeWhile (! namesCookie name ·),
          0x3D ∈ piece) := by
  induction pieces with
  | nil => simp [extractCookieLoop, wantedValue]
  | cons piece pieces ih =>
      unfold wantedValue at ih ⊢
      rw [extractCookieLoop, List.map_cons]
      generalize piece.dropWhile Bytes.isSpace = cur
      by_cases heq : 0x3D ∈ cur
      · rw [if_neg (not_not.mpr heq)]
        by_cases hname : cur.takeWhile (· ≠ 0x3D) = name
        · have hfound : namesCookie name cur = true := namesCookie_iff.mpr ⟨heq, hname⟩
          rw [if_pos hname, List.find?_cons_of_pos hfound, List.takeWhile_cons_of_neg (by simp [hfound])]
          simp [pieceValue]
        · have hother : ¬ namesCookie name cur := fun h => hname (namesCookie_iff.mp h).2
          rw [if_neg hname, List.find?_cons_of_neg hother, ih,
            List.takeWhile_cons_of_pos (by simp [hother]), List.forall_mem_cons]
          simp only [heq, true_and]
      · have hother : ¬ namesCookie name cur := fun h => heq (namesCookie_iff.mp h).1
        rw [if_pos heq, List.find?_cons_of_neg hother,
          List.takeWhile_cons_of_pos (by simp [hother]), List.forall_mem_cons]
        constructor
        · intro hvalue hne
          exact absurd hvalue.symm hne
        · intro h
          by_contra hvalue
          exact heq (h (Ne.symm hvalue)).1

/-- An empty result says that there is no value. -/
theorem getD_eq_nil {value : Option Bytes} : value.getD [] = [] ↔ value = none ∨ value = some [] := by
  cases value <;> simp

/-- **The value is found exactly when every piece in front of it has an equals sign**, or when it is
empty anyway. -/
theorem extractCookie_exact_iff (header : Bytes) :
    ExtractsCookie (lit "harbor_session") header ↔
      ((cookieValue (lit "harbor_session") header).getD [] ≠ [] →
        PairsBefore (lit "harbor_session") header) := by
  have hloop : extractCookie header (lit "harbor_session") =
      extractCookieLoop (lit "harbor_session") (header.splitOn 0x3B) := by
    unfold extractCookie
    by_cases hheader : header = []
    · subst hheader
      rfl
    · exact if_neg (not_or.mpr ⟨hheader, by decide⟩)
  unfold ExtractsCookie
  rw [hloop]
  constructor
  · rintro ⟨hvalue, -⟩
    exact (extractCookieLoop_eq _ _).mp hvalue
  · intro h
    have hvalue := (extractCookieLoop_eq (lit "harbor_session") (header.splitOn 0x3B)).mpr h
    exact ⟨hvalue, by rw [hvalue]; exact getD_eq_nil⟩

/-- A nameless cookie of another application hides the session. -/
theorem extractCookie_nameless :
    ¬ ExtractsCookie (lit "harbor_session") (lit "theme; harbor_session=v1.YQ.MQ.Yg.Yw") := by
  rintro ⟨h, -⟩
  exact absurd h (by decide)

end Harbor.Auth
