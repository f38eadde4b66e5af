import Harbor.Auth.Serve
import Harbor.Lib.Replace

set_option autoImplicit false

/-! # The URI of a server

`harbor_serve` puts its bind address and its port into a URI and takes them out of it again with
`QuackUri`, which removes the scheme by replacing its text. `bind_uri_iff` says which addresses come back
as they were; for the others `harbor_stop` looks for another server than the one that was asked for.
-/

namespace Harbor.Quack

open Bytes (decNat trim startsWith replaceAll)

/-! ## The constructor of QuackUri -/

structure QuackUri where
  ssl : Bool
  ipv6 : Bool
  host : Bytes
  port : Nat
  http : Bytes
  uri : Bytes
  deriving DecidableEq, Repr

/-- `std::stoi`: white space, a sign, digits up to the first byte that is none; `none` where it throws,
without a digit or outside of 32 bits. -/
def stoi (s : Bytes) : Option Int :=
  let s := s.dropWhile Bytes.isSpace
  let negative := s.head? == some 0x2D
  let digits := (if negative || s.head? == some 0x2B then s.tail else s).takeWhile Bytes.isDigit
  let n : Int := Bytes.natOfDigits 0 digits
  let v := if negative then -n else n
  if digits = [] ∨ ¬ (-2 ^ 31 ≤ v ∧ v < 2 ^ 31) then none else some v

/-- The URI with the short form of its scheme. -/
def shortScheme (uri : Bytes) : Bytes :=
  let uri := if startsWith uri (lit "quack://") then replaceAll (lit "quack://") (lit "quack:") uri else uri
  if startsWith uri (lit "harbor://") then replaceAll (lit "harbor://") (lit "harbor:") uri else uri

/-- The URI without its scheme. -/
def withoutScheme (uri : Bytes) : Except Bytes Bytes :=
  if startsWith uri (lit "quack:") then return replaceAll (lit "quack:") [] uri
  else if startsWith uri (lit "harbor:") then return replaceAll (lit "harbor:") [] uri
  else throw (lit "Invalid DuckDB Harbor/Quack RPC URI, needs to start with 'harbor:' or 'quack:'")

/-- The address between brackets, if there is one, and what follows. -/
def readBrackets (remainder : Bytes) : Except Bytes (Option Bytes × Bytes) :=
  if startsWith remainder (lit "[") then
    if 0x5D ∉ remainder then throw (lit "Invalid IPv6 URL, missing ']'")
    else
      let host := (remainder.takeWhile (· ≠ 0x5D)).tail
      if host = [] then throw (lit "Missing IPv6 Address")
      else return (some host, (remainder.dropWhile (· ≠ 0x5D)).tail)
  else return (none, remainder)

/-- The port behind the first colon, 9494 without one, and what is in front of it. -/
def readPort (remainder : Bytes) : Except Bytes (Nat × Bytes) :=
  if 0x3A ∈ remainder then
    let portStr := (remainder.dropWhile (· ≠ 0x3A)).tail
    if portStr = [] then throw (lit "Invalid Port")
    else
      match stoi portStr with
      | none => throw (lit "Invalid Port")
      | some rawPort =>
          if rawPort < 1 ∨ rawPort > 65535 then throw (lit "Invalid Port")
          else return (rawPort.toNat, remainder.takeWhile (· ≠ 0x3A))
  else return (9494, remainder)

/-- The constructor of `QuackUri`. -/
def QuackUri.new (uri : Bytes) (ssl : Bool) : Except Bytes QuackUri := do
  let uri := shortScheme (trim uri)
  let remainder ← withoutScheme uri
  if remainder = [] then throw (lit "Missing hostname")
  else
    let (address, remainder) ← readBrackets remainder
    let (port, remainder) ← readPort remainder
    let host := address.getD remainder
    let http := lit "http" ++ (if ssl then lit "s" else []) ++ lit "://" ++
      (if address.isSome then lit "[" ++ host ++ lit "]" else host) ++ lit ":" ++ decNat port
    return { ssl, ipv6 := address.isSome, host, port, http, uri }

/-- `QuackUri::CanonicalUri`. -/
def QuackUri.canonicalUri (u : QuackUri) : Bytes := lit "quack:" ++ u.host ++ lit ":" ++ decNat u.port

/-! ## What the parts of the constructor return -/

theorem readPort_cases {remainder rest : Bytes} {port : Nat} (h : readPort remainder = .ok (port, rest)) :
    (0x3A ∉ remainder ∧ port = 9494 ∧ rest = remainder) ∨
      ∃ portStr, remainder = rest ++ 0x3A :: portStr ∧ 0x3A ∉ rest ∧ stoi portStr = some (port : Int) ∧
        1 ≤ port ∧ port ≤ 65535 := by
  unfold readPort at h
  dsimp only at h
  split_ifs at h with hcolon hempty
  · cases hport : stoi ((remainder.dropWhile (· ≠ 0x3A)).tail) with
    | none =>
        rw [hport] at h
        cases h
    | some rawPort =>
        rw [hport] at h
        dsimp only at h
        split_ifs at h with hrange
        obtain ⟨rfl, rfl⟩ := Prod.mk.inj (Except.ok.inj h)
        refine Or.inr ⟨_, Bytes.eq_takeWhile_of_mem hcolon, Bytes.notMem_takeWhile _ _, ?_, ?_, ?_⟩
        · rw [hport, Int.toNat_of_nonneg (by omega)]
        · omega
        · omega
  · obtain ⟨rfl, rfl⟩ := Prod.mk.inj (Except.ok.inj h)
    exact Or.inl ⟨hcolon, rfl, rfl⟩

theorem readBrackets_cases {remainder rest : Bytes} {address : Option Bytes}
    (h : readBrackets remainder = .ok (address, rest)) :
    (∃ host, address = some host ∧ remainder = 0x5B :: (host ++ 0x5D :: rest) ∧ 0x5D ∉ host ∧ host ≠ []) ∨
      (address = none ∧ rest = remainder ∧ remainder.head? ≠ some 0x5B) := by
  unfold readBrackets at h
  dsimp only at h
  split_ifs at h with hbracket hclose hempty
  · obtain ⟨rfl, rfl⟩ := Prod.mk.inj (Except.ok.inj h)
    obtain ⟨t, rfl⟩ := Bytes.startsWith_iff.mp hbracket
    have hsplit := Bytes.eq_takeWhile_of_mem hclose
    have hfree := Bytes.notMem_takeWhile 0x5D (lit "[" ++ t)
    refine Or.inl ⟨_, rfl, ?_, fun h => hfree (List.mem_of_mem_tail h), hempty⟩
    exact hsplit
  · obtain ⟨rfl, rfl⟩ := Prod.mk.inj (Except.ok.inj h)
    refine Or.inr ⟨rfl, rfl, fun hhead => hbracket (Bytes.startsWith_iff.mpr ?_)⟩
    obtain ⟨t, rfl⟩ := List.head?_eq_some_iff.mp hhead
    exact List.prefix_append (lit "[") t

/-! ## Ports -/

theorem length_decNat_le {n k : Nat} (hk : 0 < k) (h : n < 10 ^ k) : (decNat n).length ≤ k := by
  induction n using Nat.strong_induction_on generalizing k with
  | _ n ih =>
      by_cases hn : n < 10
      · rw [Bytes.decNat_of_lt hn]
        exact hk
      · rw [Bytes.decNat_of_le (by omega), List.length_append]
        obtain ⟨k, rfl⟩ := Nat.exists_eq_add_of_le' hk
        have hk' : 0 < k := by
          rcases Nat.eq_zero_or_pos k with rfl | hpos
          · simp at h
            omega
          · exact hpos
        have hdiv : n / 10 < 10 ^ k := by
          rw [Nat.div_lt_iff_lt_mul (by decide), ← pow_succ]
          exact h
        have hshort := ih (n / 10) (by omega) hk' hdiv
        simpa using hshort

theorem natOfDigits_lt {ds : Bytes} (h : ∀ b ∈ ds, Bytes.isDigit b = true) (acc : Nat) :
    Bytes.natOfDigits acc ds < (acc + 1) * 10 ^ ds.length := by
  induction ds generalizing acc with
  | nil => simp [Bytes.natOfDigits]
  | cons b ds ih =>
      rw [List.forall_mem_cons] at h
      have hb : Bytes.digitValue b ≤ 9 := by
        have hdigit := h.1
        simp only [Bytes.isDigit, Bool.and_eq_true, decide_eq_true_iff, UInt8.le_iff_toNat_le] at hdigit
        simp only [Bytes.digitValue]
        have hlow : (0x30 : UInt8).toNat = 48 := rfl
        have hhigh : (0x39 : UInt8).toNat = 57 := rfl
        omega
      have hstep := ih h.2 (acc * 10 + Bytes.digitValue b)
      rw [Bytes.natOfDigits, List.foldl_cons, ← Bytes.natOfDigits]
      refine Nat.lt_of_lt_of_le hstep ?_
      rw [List.length_cons, pow_succ, ← Nat.mul_assoc, Nat.mul_right_comm]
      exact Nat.mul_le_mul_right _ (by omega)

/-- The text of a port is at least as long as its numeral. -/
theorem length_le_of_stoi {s : Bytes} {n : Nat} (h : stoi s = some (n : Int)) (hn : 1 ≤ n) :
    (decNat n).length ≤ s.length := by
  unfold stoi at h
  dsimp only at h
  have hspace := (List.dropWhile_suffix (l := s) Bytes.isSpace).length_le
  generalize s.dropWhile Bytes.isSpace = t at h hspace
  have htail : (if (t.head? == some 0x2D || t.head? == some 0x2B) = true then t.tail else t).length ≤
      t.length := by
    split_ifs
    · rw [List.length_tail]
      omega
    · exact Nat.le_refl _
  generalize (if (t.head? == some 0x2D || t.head? == some 0x2B) = true then t.tail else t) = u at h htail
  have htake := (List.takeWhile_prefix (l := u) Bytes.isDigit).length_le
  have hdigits : ∀ b ∈ u.takeWhile Bytes.isDigit, Bytes.isDigit b = true := fun b hb =>
    List.mem_takeWhile_imp hb
  generalize u.takeWhile Bytes.isDigit = digits at h htake hdigits
  have hvalue := natOfDigits_lt hdigits 0
  split_ifs at h with hminus hrange hrange
  · have heq := Option.some.inj h
    omega
  · have heq := Option.some.inj h
    have hne : digits ≠ [] := fun hempty => hrange (Or.inl hempty)
    have hshort := length_decNat_le (List.length_pos_of_ne_nil hne)
      (n := n) (by rw [Nat.zero_add, Nat.one_mul] at hvalue; omega)
    omega

theorem stoi_decNat {n : Nat} (h : n < 2 ^ 31) : stoi (decNat n) = some (n : Int) := by
  have hdigits := Bytes.isDigit_of_mem_decNat (n := n)
  have hvalue := Bytes.natOfDigits_decNat n
  cases hn : decNat n with
  | nil => exact absurd hn (Bytes.decNat_ne_nil n)
  | cons b ds =>
      rw [hn] at hdigits hvalue
      have hb : Bytes.isDigit b = true := hdigits b (by simp)
      have hplain : Bytes.isSpace b = false ∧ b ≠ 0x2D ∧ b ≠ 0x2B := by
        grind [Bytes.isDigit, Bytes.isSpace]
      obtain ⟨hspace, hminus, hplus⟩ := hplain
      have hall : (b :: ds).takeWhile Bytes.isDigit = b :: ds := List.takeWhile_eq_self_iff.mpr hdigits
      simp [stoi, hspace, hminus, hplus, hall, hvalue]
      omega

/-- A port is read off its numeral. -/
theorem readPort_decNat {rest : Bytes} (hrest : 0x3A ∉ rest) {port : Nat} (hlow : 1 ≤ port)
    (hhigh : port ≤ 65535) : readPort (rest ++ 0x3A :: decNat port) = .ok (port, rest) := by
  have hmem : 0x3A ∈ rest ++ 0x3A :: decNat port := by simp
  have hcut : ((rest ++ 0x3A :: decNat port).dropWhile (· ≠ 0x3A)).tail = decNat port := by
    have hsplit := Bytes.eq_takeWhile_of_mem hmem
    rw [Bytes.takeWhile_append hrest] at hsplit
    exact (List.cons.inj (List.append_cancel_left hsplit)).2.symm
  rw [readPort, if_pos hmem, hcut, if_neg (Bytes.decNat_ne_nil port), stoi_decNat (by omega)]
  dsimp only
  rw [if_neg (by omega), Bytes.takeWhile_append hrest, Int.toNat_natCast]
  rfl

/-! ## The text of the URI -/

/-- The address stands between brackets already. -/
def isBracketed (host : Bytes) : Bool := startsWith host (lit "[") && host.getLast? == some 0x5D

/-- The host that a bind string names: what is between the white space, and between the brackets. -/
def bindHost (bind : Bytes) : Bytes :=
  if isBracketed (trim bind) then (trim bind).tail.dropLast else trim bind

/-- The host is put between brackets in the URI. -/
def HasBrackets (bind : Bytes) : Prop := isBracketed (trim bind) = true ∨ 0x3A ∈ trim bind

instance (bind : Bytes) : Decidable (HasBrackets bind) := inferInstanceAs (Decidable (_ ∨ _))

theorem eq_of_isBracketed {host : Bytes} (h : isBracketed host = true) :
    host = 0x5B :: (host.tail.dropLast ++ [0x5D]) := by
  rw [isBracketed, Bool.and_eq_true, Bytes.startsWith_iff, beq_iff_eq] at h
  obtain ⟨⟨t, rfl⟩, hlast⟩ := h
  have hne : t ≠ [] := by
    rintro rfl
    cases hlast
  have hlast' : t.getLast? = some 0x5D := by
    rw [← hlast, List.getLast?_append_of_ne_nil _ hne]
  exact congrArg (0x5B :: ·) (List.dropLast_append_getLast? 0x5D hlast').symm

/-- The URI that `harbor_serve` builds. -/
theorem harborUriFromBindPort_eq {bind uri : Bytes} {port : UInt16}
    (h : Auth.harborUriFromBindPort bind port = .ok uri) :
    uri = lit "harbor:" ++ (if HasBrackets bind then 0x5B :: (bindHost bind ++ [0x5D]) else trim bind) ++
      0x3A :: decNat port.toNat ∧ trim bind ≠ [] := by
  unfold Auth.harborUriFromBindPort at h
  dsimp only at h
  rw [← isBracketed] at h
  split_ifs at h with hempty hone hcolon
  · refine ⟨?_, hempty⟩
    obtain rfl := Except.ok.inj h
    have hbrackets : HasBrackets bind := Or.inr hcolon.1
    rw [if_pos hbrackets, bindHost, if_neg (by simp [hcolon.2])]
    simp [lit]
  · refine ⟨?_, hempty⟩
    obtain rfl := Except.ok.inj h
    by_cases hbracketed : isBracketed (trim bind) = true
    · have hbrackets : HasBrackets bind := Or.inl hbracketed
      rw [if_pos hbrackets, bindHost, if_pos hbracketed, ← eq_of_isBracketed hbracketed]
      simp [lit]
    · have hnone : ¬ HasBrackets bind := by
        rintro (hyes | hyes)
        · exact hbracketed hyes
        · exact hcolon ⟨hyes, by simpa using hbracketed⟩
      rw [if_neg hnone]
      simp [lit]

/-! ## The URI without its scheme -/

theorem colon_notMem_decNat (n : Nat) : 0x3A ∉ decNat n := by
  intro h
  exact absurd (Bytes.isDigit_of_mem_decNat _ h) (by decide)

/-- The URI of `harbor_serve` has no white space at its ends. -/
theorem trim_uri (form : Bytes) (port : Nat) :
    trim (lit "harbor:" ++ form ++ 0x3A :: decNat port) = lit "harbor:" ++ form ++ 0x3A :: decNat port := by
  refine Bytes.trim_of_ends ?_ ?_
  · rintro b ⟨⟩
    rfl
  · intro b hb
    rw [List.getLast?_append_of_ne_nil _ (by simp), List.getLast?_cons_of_ne_nil (Bytes.decNat_ne_nil port)]
      at hb
    have hdigit := Bytes.isDigit_of_mem_decNat b (List.mem_of_getLast? hb)
    have hspace : ∀ b : UInt8, Bytes.isDigit b = true → Bytes.isSpace b = false :=
      forall_byte (by decide +kernel)
    exact hspace b hdigit

/-- A text whose only colon stands in front of a port has no `://`. -/
theorem not_infix_slashes {x : Bytes} (hx : 0x3A ∉ x) (port : Nat) :
    ¬ lit "harbor://" <:+: x ++ 0x3A :: decNat port := by
  rintro ⟨u, v, h⟩
  have hcut : (u ++ lit "harbor") ++ 0x3A :: (lit "//" ++ v) = x ++ 0x3A :: decNat port := by
    rw [← h]
    simp [lit]
  obtain ⟨-, hport⟩ := Bytes.append_cons_inj hx (colon_notMem_decNat port) hcut
  have hslash : 0x2F ∈ decNat port := by
    rw [← hport]
    simp [lit]
  exact absurd (Bytes.isDigit_of_mem_decNat _ hslash) (by decide)

/-- The scheme is only found in front of the colon, behind a name that ends like it. -/
theorem delete_scheme_of_not_suffix {x : Bytes} (hx : 0x3A ∉ x) (h : ¬ lit "harbor" <:+ x) (port : Nat) :
    replaceAll (lit "harbor:") [] (x ++ 0x3A :: decNat port) = x ++ 0x3A :: decNat port := by
  refine Bytes.replaceAll_of_not_infix ?_
  rintro ⟨u, v, huv⟩
  have hcut : (u ++ lit "harbor") ++ 0x3A :: v = x ++ 0x3A :: decNat port := by
    rw [← huv]
    simp [lit]
  obtain ⟨hname, -⟩ := Bytes.append_cons_inj hx (colon_notMem_decNat port) hcut
  exact h ⟨u, hname⟩

theorem delete_scheme_of_suffix {x : Bytes} (hx : 0x3A ∉ x) (port : Nat) :
    replaceAll (lit "harbor:") [] ((x ++ lit "harbor") ++ 0x3A :: decNat port) = x ++ decNat port := by
  have htext : (x ++ lit "harbor") ++ 0x3A :: decNat port =
      x ++ (lit "harbor:" ++ decNat port) := by simp [lit]
  have hdigits : ¬ lit "harbor:" <:+: decNat port := fun hwithin =>
    colon_notMem_decNat port (hwithin.subset (by decide))
  rw [htext, Bytes.replaceAll_append_of_not, Bytes.replaceAll_pat (by decide), List.nil_append,
    Bytes.replaceAll_of_not_infix hdigits]
  intro x' hne hsuffix hprefix
  -- An earlier occurrence would have its colon inside of the name.
  have hshort : lit "harbor:" <+: x' ++ lit "harbor" := by
    refine List.prefix_of_prefix_length_le hprefix ?_ ?_
    · rw [show lit "harbor:" = lit "harbor" ++ [0x3A] from rfl, List.append_assoc, ← List.append_assoc x']
      exact List.prefix_append _ _
    · have hpos := List.length_pos_of_ne_nil hne
      rw [List.length_append]
      show 7 ≤ x'.length + 6
      omega
  have hcolon : 0x3A ∈ x' ++ lit "harbor" := hshort.subset (by decide)
  rcases List.mem_append.mp hcolon with hmem | hmem
  · exact hx (hsuffix.subset hmem)
  · exact absurd hmem (by decide)

/-- The scheme is short unless two slashes follow it. -/
theorem shortScheme_of_not {rest : Bytes} (h : ¬ lit "//" <+: rest) :
    shortScheme (lit "harbor:" ++ rest) = lit "harbor:" ++ rest := by
  have hquack : ¬ startsWith (lit "harbor:" ++ rest) (lit "quack://") = true := Bool.false_ne_true
  have hharbor : ¬ startsWith (lit "harbor:" ++ rest) (lit "harbor://") = true := by
    rw [Bytes.startsWith_iff, show lit "harbor://" = lit "harbor:" ++ lit "//" from rfl,
      List.prefix_append_right_inj]
    exact h
  unfold shortScheme
  dsimp only
  rw [if_neg hquack, if_neg hharbor]

theorem shortScheme_slashes {x : Bytes} (hx : 0x3A ∉ x) (port : Nat) :
    shortScheme (lit "harbor:" ++ (lit "//" ++ x) ++ 0x3A :: decNat port) =
      lit "harbor:" ++ x ++ 0x3A :: decNat port := by
  have htext : lit "harbor:" ++ (lit "//" ++ x) ++ 0x3A :: decNat port =
      lit "harbor://" ++ (x ++ 0x3A :: decNat port) := by simp [lit]
  have hquack : ¬ startsWith (lit "harbor://" ++ (x ++ 0x3A :: decNat port)) (lit "quack://") = true :=
    Bool.false_ne_true
  have hharbor : startsWith (lit "harbor://" ++ (x ++ 0x3A :: decNat port)) (lit "harbor://") = true :=
    Bytes.startsWith_iff.mpr (List.prefix_append _ _)
  rw [htext]
  unfold shortScheme
  dsimp only
  rw [if_neg hquack, if_pos hharbor, Bytes.replaceAll_pat (by decide),
    Bytes.replaceAll_of_not_infix (not_infix_slashes hx port), List.append_assoc]

theorem withoutScheme_harbor (rest : Bytes) :
    withoutScheme (lit "harbor:" ++ rest) = .ok (replaceAll (lit "harbor:") [] rest) := by
  have hquack : startsWith (lit "harbor:" ++ rest) (lit "quack:") = false := rfl
  have hharbor : startsWith (lit "harbor:" ++ rest) (lit "harbor:") = true :=
    Bytes.startsWith_iff.mpr (List.prefix_append _ _)
  rw [withoutScheme, hquack, if_neg (by decide), if_pos hharbor, Bytes.replaceAll_pat (by decide)]
  rfl

/-- Between brackets the scheme is looked for in the address alone. -/
theorem delete_scheme_brackets (inner : Bytes) (port : Nat) :
    replaceAll (lit "harbor:") [] (0x5B :: (inner ++ [0x5D]) ++ 0x3A :: decNat port) =
      0x5B :: (replaceAll (lit "harbor:") [] inner ++ 0x5D :: (0x3A :: decNat port)) := by
  have hdigits : ¬ lit "harbor:" <:+: 0x3A :: decNat port := by
    intro hwithin
    have hletter : (0x68 : UInt8) ∈ 0x3A :: decNat port := hwithin.subset (by decide)
    rcases List.mem_cons.mp hletter with heq | hmem
    · exact absurd heq (by decide)
    · exact absurd (Bytes.isDigit_of_mem_decNat _ hmem) (by decide)
  have htext : 0x5B :: (inner ++ [0x5D]) ++ 0x3A :: decNat port =
      [] ++ 0x5B :: (inner ++ 0x5D :: (0x3A :: decNat port)) := by simp
  rw [htext, Bytes.replaceAll_append_cons (by decide), Bytes.replaceAll_append_cons (by decide),
    Bytes.replaceAll_of_not_infix hdigits, Bytes.replaceAll_nil, List.nil_append]

/-! ## What comes back -/

/-- What the constructor has read when it does not throw. -/
theorem new_eq_ok {uri : Bytes} {ssl : Bool} {u : QuackUri} (h : QuackUri.new uri ssl = .ok u) :
    ∃ remainder address rest rest', withoutScheme (shortScheme (trim uri)) = .ok remainder ∧
      readBrackets remainder = .ok (address, rest) ∧ readPort rest = .ok (u.port, rest') ∧
      u.host = address.getD rest' := by
  unfold QuackUri.new at h
  obtain ⟨remainder, hremainder, h⟩ := bind_eq_ok.mp h
  by_cases hempty : remainder = []
  · rw [if_pos hempty] at h
    cases h
  rw [if_neg hempty] at h
  obtain ⟨⟨address, rest⟩, hbrackets, h⟩ := bind_eq_ok.mp h
  obtain ⟨⟨port, rest'⟩, hport, h⟩ := bind_eq_ok.mp h
  obtain rfl := Except.ok.inj h
  exact ⟨remainder, address, rest, rest', hremainder, hbrackets, hport, rfl⟩

theorem new_of_parts {uri remainder rest rest' : Bytes} {address : Option Bytes} {port : Nat} (ssl : Bool)
    (hremainder : withoutScheme (shortScheme (trim uri)) = .ok remainder) (hne : remainder ≠ [])
    (hbrackets : readBrackets remainder = .ok (address, rest)) (hport : readPort rest = .ok (port, rest')) :
    ∃ u, QuackUri.new uri ssl = .ok u ∧ u.host = address.getD rest' ∧ u.port = port := by
  unfold QuackUri.new
  simp only [hremainder, ok_bind, if_neg hne, hbrackets, hport]
  exact ⟨_, rfl, rfl, rfl⟩

/-- An address between brackets comes back unless it is empty, has a closing bracket or the scheme. -/
theorem new_brackets_iff (inner : Bytes) {port : Nat} (hlow : 1 ≤ port) (hhigh : port ≤ 65535) (ssl : Bool) :
    (∃ u, QuackUri.new (lit "harbor:" ++ 0x5B :: (inner ++ [0x5D]) ++ 0x3A :: decNat port) ssl = .ok u ∧
        u.host = inner ∧ u.port = port) ↔
      inner ≠ [] ∧ 0x5D ∉ inner ∧ ¬ lit "harbor:" <:+: inner := by
  have hremainder : withoutScheme (shortScheme (trim
      (lit "harbor:" ++ 0x5B :: (inner ++ [0x5D]) ++ 0x3A :: decNat port))) =
        .ok (0x5B :: (replaceAll (lit "harbor:") [] inner ++ 0x5D :: (0x3A :: decNat port))) := by
    rw [trim_uri, List.append_assoc, shortScheme_of_not (fun h => absurd h (by simp [lit])),
      withoutScheme_harbor, delete_scheme_brackets]
  constructor
  · rintro ⟨u, hnew, hhost, -⟩
    obtain ⟨remainder, address, rest, rest', hremainder', hbrackets, -, hhost'⟩ := new_eq_ok hnew
    obtain rfl := Except.ok.inj (hremainder.symm.trans hremainder')
    rcases readBrackets_cases hbrackets with ⟨host, rfl, htext, hfree, hne⟩ | ⟨-, -, hhead⟩
    · obtain rfl : host = inner := hhost'.symm.trans hhost
      have hclose : 0x5D ∉ replaceAll (lit "harbor:") [] host := fun h => hfree (Bytes.mem_of_mem_delete h)
      have htail := (List.cons.inj htext).2
      have hdeleted := congrArg (List.takeWhile (· ≠ 0x5D)) htail
      rw [Bytes.takeWhile_append hclose, Bytes.takeWhile_append hfree] at hdeleted
      exact ⟨hne, hfree, (Bytes.delete_eq_self_iff (by decide)).mp hdeleted⟩
    · exact absurd rfl hhead
  · rintro ⟨hne, hfree, hscheme⟩
    rw [Bytes.replaceAll_of_not_infix hscheme] at hremainder
    have hbrackets : readBrackets (0x5B :: (inner ++ 0x5D :: (0x3A :: decNat port))) =
        .ok (some inner, [] ++ 0x3A :: decNat port) := by
      have hopen : startsWith (0x5B :: (inner ++ 0x5D :: (0x3A :: decNat port))) (lit "[") = true := rfl
      have hfree' : 0x5D ∉ 0x5B :: inner := by simp [hfree]
      have hhost := Bytes.takeWhile_append hfree' (0x3A :: decNat port)
      have hrest := Bytes.eq_takeWhile_of_mem
        (show 0x5D ∈ (0x5B :: inner) ++ 0x5D :: (0x3A :: decNat port) by simp)
      rw [hhost] at hrest
      have hrest := (List.cons.inj (List.append_cancel_left hrest)).2
      rw [List.cons_append] at hhost hrest
      unfold readBrackets
      dsimp only
      rw [if_pos hopen, if_neg (by simp), hhost, List.tail_cons, if_neg hne, ← hrest]
      rfl
    exact new_of_parts ssl hremainder (by simp) hbrackets (readPort_decNat (by simp) hlow hhigh)

/-- What is left of the URI of a name, by its two slashes and its end. -/
theorem remainder_cases {name remainder : Bytes} {port : Nat} (hname : 0x3A ∉ name)
    (h : withoutScheme (shortScheme (trim (lit "harbor:" ++ name ++ 0x3A :: decNat port))) = .ok remainder) :
    ∃ x, (name = x ∧ ¬ lit "//" <+: name ∨ name = lit "//" ++ x) ∧
      (¬ lit "harbor" <:+ x ∧ remainder = x ++ 0x3A :: decNat port ∨
        ∃ x', x = x' ++ lit "harbor" ∧ remainder = x' ++ decNat port) := by
  have hdelete : ∀ x, 0x3A ∉ x → withoutScheme (lit "harbor:" ++ x ++ 0x3A :: decNat port) = .ok remainder →
      (¬ lit "harbor" <:+ x ∧ remainder = x ++ 0x3A :: decNat port ∨
        ∃ x', x = x' ++ lit "harbor" ∧ remainder = x' ++ decNat port) := by
    intro x hx hremainder
    rw [List.append_assoc, withoutScheme_harbor] at hremainder
    obtain rfl := Except.ok.inj hremainder
    by_cases hsuffix : lit "harbor" <:+ x
    · obtain ⟨x', rfl⟩ := hsuffix
      refine Or.inr ⟨x', rfl, delete_scheme_of_suffix (fun hmem => hx ?_) port⟩
      exact List.mem_append_left _ hmem
    · exact Or.inl ⟨hsuffix, delete_scheme_of_not_suffix hx hsuffix port⟩
  rw [trim_uri] at h
  by_cases hslashes : lit "//" <+: name
  · obtain ⟨x, rfl⟩ := hslashes
    have hx : 0x3A ∉ x := fun hmem => hname (List.mem_append_right _ hmem)
    rw [shortScheme_slashes hx] at h
    exact ⟨x, Or.inr rfl, hdelete x hx h⟩
  · have hnot : ¬ lit "//" <+: name ++ 0x3A :: decNat port := by
      intro hprefix
      exact hslashes (Bytes.prefix_of_prefix_append_cons (by decide) hprefix)
    rw [List.append_assoc, shortScheme_of_not hnot, ← List.append_assoc] at h
    exact ⟨name, Or.inl ⟨rfl, hslashes⟩, hdelete name hname h⟩

/-- A name comes back unless it begins with two slashes or a bracket or ends like the scheme. -/
theorem new_name_iff {name : Bytes} (hne : name ≠ []) (hname : 0x3A ∉ name) {port : Nat} (hlow : 1 ≤ port)
    (hhigh : port ≤ 65535) (ssl : Bool) :
    (∃ u, QuackUri.new (lit "harbor:" ++ name ++ 0x3A :: decNat port) ssl = .ok u ∧
        u.host = name ∧ u.port = port) ↔
      ¬ lit "//" <+: name ∧ ¬ lit "[" <+: name ∧ ¬ lit "harbor" <:+ name := by
  constructor
  · rintro ⟨u, hnew, hhost, hport⟩
    obtain ⟨remainder, address, rest, rest', hremainder, hbrackets, hread, hhost'⟩ := new_eq_ok hnew
    obtain ⟨x, hx, hx'⟩ := remainder_cases hname hremainder
    have hdigits : (decNat 9494).length = 4 := by decide
    have hlong : remainder.length ≤ x.length + 1 + (decNat port).length := by
      rcases hx' with ⟨-, rfl⟩ | ⟨x', rfl, rfl⟩
      · simp only [List.length_append, List.length_cons]
        omega
      · simp only [List.length_append]
        omega
    have hshort : x.length ≤ name.length := by
      rcases hx with ⟨rfl, -⟩ | rfl
      · exact Nat.le_refl _
      · simp
    -- Without a colon the port is the default one, and the name has lost its end.
    have hcolon : 0x3A ∉ remainder → port = 9494 → remainder.length + 2 ≤ name.length := by
      rintro hfree rfl
      rcases hx' with ⟨-, rfl⟩ | ⟨x', rfl, rfl⟩
      · exact absurd (by simp) hfree
      · have hsix : (lit "harbor").length = 6 := rfl
        rw [List.length_append] at hshort ⊢
        omega
    rcases readBrackets_cases hbrackets with ⟨host, rfl, htext, -, -⟩ | ⟨rfl, hrest, hhead⟩
    · obtain rfl : host = name := hhost'.symm.trans hhost
      have hlen := congrArg List.length htext
      simp only [List.length_cons, List.length_append] at hlen
      rcases readPort_cases hread with ⟨hfree, hdefault, -⟩ | ⟨portStr, hrest, -, hstoi, hone, -⟩
      · have hnocolon : 0x3A ∉ remainder := by
          rw [htext]
          simp [hname, hfree]
        have hlost := hcolon hnocolon (hport.symm.trans hdefault)
        omega
      · have hport' := length_le_of_stoi hstoi hone
        rw [hport] at hport'
        rw [hrest] at hlen
        simp only [List.length_cons, List.length_append] at hlen
        omega
    · subst hrest
      obtain rfl : name = rest' := hhost.symm.trans hhost'
      rcases readPort_cases hread with ⟨hfree, hdefault, rfl⟩ | ⟨portStr, htext, -, hstoi, hone, -⟩
      · have hlost := hcolon hfree (hport.symm.trans hdefault)
        omega
      · have hport' := length_le_of_stoi hstoi hone
        rw [hport] at hport'
        have hlen := congrArg List.length htext
        simp only [List.length_cons, List.length_append] at hlen
        have hslashes : name = x ∧ ¬ lit "//" <+: name := by
          rcases hx with hplain | hslashes
          · exact hplain
          · have htwo : (lit "//").length = 2 := rfl
            have hname' := congrArg List.length hslashes
            rw [List.length_append] at hname'
            omega
        have hend : ¬ lit "harbor" <:+ x := by
          rcases hx' with ⟨hend, -⟩ | ⟨x', hx'', hcut⟩
          · exact hend
          · exfalso
            have hsix : (lit "harbor").length = 6 := rfl
            have hx'' := congrArg List.length hx''
            have hcut := congrArg List.length hcut
            rw [List.length_append] at hx'' hcut
            omega
        refine ⟨hslashes.2, fun hopen => hhead ?_, hslashes.1 ▸ hend⟩
        obtain ⟨t, rfl⟩ := hopen
        rw [htext]
        rfl
  · rintro ⟨hslashes, hopen, hend⟩
    have hnot : ¬ lit "//" <+: name ++ 0x3A :: decNat port := fun hprefix =>
      hslashes (Bytes.prefix_of_prefix_append_cons (by decide) hprefix)
    have hremainder : withoutScheme (shortScheme (trim (lit "harbor:" ++ name ++ 0x3A :: decNat port))) =
        .ok (name ++ 0x3A :: decNat port) := by
      rw [trim_uri, List.append_assoc, shortScheme_of_not hnot, withoutScheme_harbor,
        delete_scheme_of_not_suffix hname hend]
    have hbrackets : readBrackets (name ++ 0x3A :: decNat port) =
        .ok (none, name ++ 0x3A :: decNat port) := by
      have hplain : ¬ startsWith (name ++ 0x3A :: decNat port) (lit "[") = true := fun hstart =>
        hopen (Bytes.prefix_of_prefix_append_cons (by decide) (Bytes.startsWith_iff.mp hstart))
      rw [readBrackets, if_neg hplain]
      rfl
    exact new_of_parts ssl hremainder (by simp) hbrackets (readPort_decNat hname hlow hhigh)

/-! ## The round trip -/

/-- The URI of a server gives the host and the port that it was built from. -/
def RoundTrips (bind : Bytes) (port : UInt16) (uri : Bytes) (ssl : Bool) : Prop :=
  ∃ u, QuackUri.new uri ssl = .ok u ∧ u.host = bindHost bind ∧ u.port = port.toNat

/-- The bind string comes back: between brackets neither empty, nor with a closing bracket, nor with the
scheme in it; otherwise neither with two slashes or an opening bracket in front nor with the letters of
the scheme at the end. -/
def ComesBack (bind : Bytes) : Prop :=
  if HasBrackets bind then
    bindHost bind ≠ [] ∧ 0x5D ∉ bindHost bind ∧ ¬ lit "harbor:" <:+: bindHost bind
  else ¬ lit "//" <+: bindHost bind ∧ ¬ lit "[" <+: bindHost bind ∧ ¬ lit "harbor" <:+ bindHost bind

instance (bind : Bytes) : Decidable (ComesBack bind) := by
  unfold ComesBack
  infer_instance

theorem roundTrips_iff {bind uri : Bytes} {port : UInt16} (hport : port ≠ 0)
    (h : Auth.harborUriFromBindPort bind port = .ok uri) (ssl : Bool) :
    RoundTrips bind port uri ssl ↔ ComesBack bind := by
  have hlow : 1 ≤ port.toNat := by
    rw [Nat.one_le_iff_ne_zero]
    exact fun hzero => hport (UInt16.toNat_inj.mp hzero)
  have hhigh : port.toNat ≤ 65535 := Nat.le_of_lt_succ port.toNat_lt
  obtain ⟨rfl, hne⟩ := harborUriFromBindPort_eq h
  unfold RoundTrips ComesBack
  by_cases hbrackets : HasBrackets bind
  · rw [if_pos hbrackets, if_pos hbrackets]
    exact new_brackets_iff (bindHost bind) hlow hhigh ssl
  · have hplain : bindHost bind = trim bind := if_neg fun hyes => hbrackets (Or.inl hyes)
    rw [if_neg hbrackets, if_neg hbrackets, hplain]
    exact new_name_iff hne (fun hcolon => hbrackets (Or.inr hcolon)) hlow hhigh ssl

/-- **Canonical URIs tell servers apart**: the port is behind the last colon. -/
theorem canonicalUri_inj {u v : QuackUri} :
    u.canonicalUri = v.canonicalUri ↔ u.host = v.host ∧ u.port = v.port := by
  constructor
  · intro h
    have hform : ∀ w : QuackUri, w.canonicalUri.reverse =
        (decNat w.port).reverse ++ 0x3A :: (w.host.reverse ++ (lit "quack:").reverse) := by
      intro w
      simp [QuackUri.canonicalUri, lit]
    have hrev := congrArg List.reverse h
    rw [hform, hform] at hrev
    have hfree : ∀ n, 0x3A ∉ (decNat n).reverse := fun n hmem =>
      colon_notMem_decNat n (List.mem_reverse.mp hmem)
    have htake := congrArg (List.takeWhile (· ≠ 0x3A)) hrev
    rw [Bytes.takeWhile_append (hfree _), Bytes.takeWhile_append (hfree _), List.reverse_inj] at htake
    rw [htake] at hrev
    have hhost := List.append_cancel_right (List.cons.inj (List.append_cancel_left hrev)).2
    exact ⟨List.reverse_inj.mp hhost, Bytes.decNat_injective htake⟩
  · rintro ⟨hhost, hport⟩
    rw [QuackUri.canonicalUri, QuackUri.canonicalUri, hhost, hport]

/-- **Two servers keep their hosts and ports, and are told apart by them, exactly when both bind strings
come back.** -/
theorem bind_uri_iff {bind bind' uri uri' : Bytes} {port port' : UInt16} (hport : port ≠ 0)
    (hport' : port' ≠ 0) (h : Auth.harborUriFromBindPort bind port = .ok uri)
    (h' : Auth.harborUriFromBindPort bind' port' = .ok uri') (ssl : Bool) :
    (RoundTrips bind port uri ssl ∧ RoundTrips bind' port' uri' ssl ∧
      ∀ u u', QuackUri.new uri ssl = .ok u → QuackUri.new uri' ssl = .ok u' →
        (u.canonicalUri = u'.canonicalUri ↔ bindHost bind = bindHost bind' ∧ port = port')) ↔
      ComesBack bind ∧ ComesBack bind' := by
  rw [← roundTrips_iff hport h ssl, ← roundTrips_iff hport' h' ssl]
  constructor
  · rintro ⟨hfirst, hsecond, -⟩
    exact ⟨hfirst, hsecond⟩
  · rintro ⟨hfirst, hsecond⟩
    refine ⟨hfirst, hsecond, fun u u' hu hu' => ?_⟩
    obtain ⟨v, hv, hhost, hnumber⟩ := hfirst
    obtain ⟨v', hv', hhost', hnumber'⟩ := hsecond
    obtain rfl := Except.ok.inj (hu.symm.trans hv)
    obtain rfl := Except.ok.inj (hu'.symm.trans hv')
    rw [canonicalUri_inj, hhost, hhost', hnumber, hnumber', UInt16.toNat_inj]

theorem bind_uri_iff_loopback :
    (RoundTrips (lit "localhost") 1294 (lit "harbor:localhost:1294") true ∧
      RoundTrips (lit " ::1 ") 9494 (lit "harbor:[::1]:9494") true ∧
      ∀ u u', QuackUri.new (lit "harbor:localhost:1294") true = .ok u →
        QuackUri.new (lit "harbor:[::1]:9494") true = .ok u' →
        (u.canonicalUri = u'.canonicalUri ↔
          bindHost (lit "localhost") = bindHost (lit " ::1 ") ∧ (1294 : UInt16) = 9494)) :=
  (bind_uri_iff (by decide) (by decide) (by decide) (by decide) true).mpr ⟨by decide, by decide⟩

/-- The name `myharbor` loses its end, and its server is taken for one on another host and port. -/
theorem myharbor_lost :
    Auth.harborUriFromBindPort (lit "myharbor") 1294 = .ok (lit "harbor:myharbor:1294") ∧
      ¬ RoundTrips (lit "myharbor") 1294 (lit "harbor:myharbor:1294") true ∧
      (QuackUri.new (lit "harbor:myharbor:1294") true).toOption.map QuackUri.canonicalUri =
        (QuackUri.new (lit "harbor:my1294:9494") true).toOption.map QuackUri.canonicalUri := by
  refine ⟨by decide, ?_, by decide⟩
  rintro ⟨u, hu, hhost, -⟩
  have hread := congrArg (fun u => u.toOption.map QuackUri.host) hu
  rw [show ((Except.ok u : Except Bytes QuackUri).toOption.map QuackUri.host) = some u.host from rfl,
    hhost] at hread
  exact absurd hread (by decide)

end Harbor.Quack
