import Harbor.Auth.Base64UrlCodec
import Harbor.Lib.Base64
import Harbor.Routes.Admin

set_option autoImplicit false

/-! # The sign-in page and its policy

A browser that is not signed in gets a page with one inline script and a `Content-Security-Policy` that names
the nonce of that script. `scriptTags` and `scriptSources` are what a browser reads out of the two. No other
script than that of the page runs under the policy, and none of the page of another answer
(`admits_iff`).
-/

namespace Harbor.Ui.LoginPage

open Harbor.Auth (shiftLeft_or toNat_first toNat_pair toNat_block)
open Harbor.Routes.Admin (emDash)

/-! ## The functions -/

def kAlphabet : Bytes := lit "ABCDEFGHIJKLMNOPQRSTUVWXYZabcdefghijklmnopqrstuvwxyz0123456789+/"

/-- `kAlphabet[v & 0x3F]`. -/
def kAlphabetAt (v : UInt32) : UInt8 := kAlphabet.getD (v &&& 0x3F).toNat 0

/-- `GenerateScriptNonce` on the bytes of `RandomBytes`. -/
def generateScriptNonce : Bytes → Bytes
  | [] => []
  | [a] =>
      let single : UInt32 := a.toUInt32 <<< 16
      [kAlphabetAt (single >>> 18), kAlphabetAt (single >>> 12), 0x3D, 0x3D]
  | [a, b] =>
      let pair : UInt32 := a.toUInt32 <<< 16 ||| b.toUInt32 <<< 8
      [kAlphabetAt (pair >>> 18), kAlphabetAt (pair >>> 12), kAlphabetAt (pair >>> 6), 0x3D]
  | a :: b :: c :: bytes =>
      let triplet : UInt32 := a.toUInt32 <<< 16 ||| b.toUInt32 <<< 8 ||| c.toUInt32
      kAlphabetAt (triplet >>> 18) :: kAlphabetAt (triplet >>> 12) :: kAlphabetAt (triplet >>> 6) ::
        kAlphabetAt triplet :: generateScriptNonce bytes

/-- The lines of the page up to its script. -/
def kHarborLoginPagePrefix : List Bytes :=
  [lit "<!doctype html>",
    lit "<html lang=\"en\">",
    lit "<head>",
    lit "<meta charset=\"utf-8\">",
    lit "<meta name=\"viewport\" content=\"width=device-width,initial-scale=1\">",
    lit "<title>harbor " ++ emDash ++ lit " Sign in</title>",
    lit "<style>",
    lit "  :root \x7b color-scheme: light dark; \x7d",
    lit "  body \x7b font-family: system-ui, -apple-system, Segoe UI, sans-serif;",
    lit "         display: grid; place-items: center; min-height: 100vh; margin: 0;",
    lit "         background: #fafafa; \x7d",
    lit "  @media (prefers-color-scheme: dark) \x7b",
    lit "    body \x7b background: #18181b; color: #fafafa; \x7d",
    lit "    input \x7b background: #27272a; color: #fafafa; border-color: #3f3f46; \x7d",
    lit "    .card \x7b background: #27272a; \x7d",
    lit "  \x7d",
    lit "  .card \x7b background: white; padding: 2rem; border-radius: 12px;",
    lit "          box-shadow: 0 4px 20px rgba(0,0,0,0.08);",
    lit "          width: min(420px, 90vw); \x7d",
    lit "  h1 \x7b margin: 0 0 0.5rem; font-size: 1.5rem; \x7d",
    lit "  p \x7b margin: 0.25rem 0 1.25rem; opacity: 0.75; font-size: 0.95rem; \x7d",
    lit "  label \x7b display: block; margin-bottom: 0.5rem; font-weight: 500; \x7d",
    lit "  input[type=\"password\"] \x7b width: 100%; padding: 0.625rem 0.75rem;",
    lit "                            border: 1px solid #d4d4d8; border-radius: 8px;",
    lit "                            font-size: 1rem; box-sizing: border-box; \x7d",
    lit "  button \x7b width: 100%; margin-top: 1rem; padding: 0.625rem;",
    lit "           background: #18181b; color: white; border: 0; border-radius: 8px;",
    lit "           font-size: 1rem; font-weight: 500; cursor: pointer; \x7d",
    lit "  button:hover \x7b background: #27272a; \x7d",
    lit "  button:disabled \x7b opacity: 0.5; cursor: not-allowed; \x7d",
    lit "  .err \x7b color: #dc2626; font-size: 0.875rem; margin-top: 0.75rem;",
    lit "         min-height: 1.2em; \x7d",
    lit "</style>",
    lit "</head>",
    lit "<body>",
    lit "<form class=\"card\" id=\"f\">",
    lit "  <h1>harbor</h1>",
    lit "  <p>Paste the token printed by <code>harbor_serve()</code>.</p>",
    lit "  <label for=\"t\">Token</label>",
    lit "  <input id=\"t\" type=\"password\" autocomplete=\"off\" required autofocus>",
    lit "  <button id=\"b\" type=\"submit\">Sign in</button>",
    lit "  <div class=\"err\" id=\"e\"></div>",
    lit "</form>"]

/-- The lines behind the opening tag of the script, the first of which follows the tag. -/
def kHarborLoginPageSuffix : List Bytes :=
  [lit "",
    lit "  const f=document.getElementById('f'),b=document.getElementById('b'),",
    lit "        t=document.getElementById('t'),e=document.getElementById('e');",
    lit "  f.addEventListener('submit', async (ev)=>\x7b",
    lit "    ev.preventDefault();",
    lit "    e.textContent=''; b.disabled=true;",
    lit "    try \x7b",
    lit "      const r=await fetch('/auth/login',\x7bmethod:'POST',",
    lit "        headers:\x7b'Content-Type':'application/json'\x7d,",
    lit "        credentials:'same-origin',",
    lit "        body:JSON.stringify(\x7btoken:t.value\x7d)\x7d);",
    lit "      if (r.ok) \x7b window.location.reload(); return; \x7d",
    lit "      const j=await r.json().catch(()=>(\x7b\x7d));",
    lit "      e.textContent=j.message||('Sign in failed ('+r.status+')');",
    lit "    \x7d catch(err) \x7b e.textContent='Network error: '+err.message; \x7d",
    lit "    b.disabled=false;",
    lit "  \x7d);",
    lit "</script>",
    lit "</body>",
    lit "</html>"]

/-- Lines with their ends. -/
def unlines (lines : List Bytes) : Bytes := lines.flatMap (· ++ [0x0A])

/-- `RenderLoginPage`. -/
def renderLoginPage (nonce : Bytes) : Bytes :=
  unlines kHarborLoginPagePrefix ++ (lit "<script nonce=\"" ++ nonce ++ lit "\">") ++
    unlines kHarborLoginPageSuffix

/-- The `csp` of `HandleProxyGet`. -/
def contentSecurityPolicy (nonce : Bytes) : Bytes :=
  lit "default-src 'none'; " ++
    (lit "script-src 'nonce-" ++ nonce ++ lit "'; ") ++
    lit "style-src 'unsafe-inline'; " ++
    lit "connect-src 'self'; " ++
    lit "form-action 'self'; " ++
    lit "base-uri 'none'; " ++
    lit "frame-ancestors 'none'"

/-! ## What a browser reads -/

/-- The opening tags of the scripts of a text, each without its `'>'`. -/
def scriptTags : Bytes → List Bytes
  | [] => []
  | b :: text =>
      if b = 0x3C ∧ lit "script" <+: Bytes.lower text then
        (b :: text).takeWhile (· ≠ 0x3E) :: scriptTags text
      else scriptTags text

/-- The nonce of such a tag, when it is its first attribute. -/
def tagNonce (tag : Bytes) : Option Bytes :=
  if (lit "<script nonce=\"").isPrefixOf tag then
    some ((tag.drop (lit "<script nonce=\"").length).takeWhile (· ≠ 0x22))
  else none

/-- The directives of a policy, each a list of words. -/
def directives (policy : Bytes) : List (List Bytes) :=
  (policy.splitOn 0x3B).map fun directive => (directive.splitOn 0x20).filter (· ≠ [])

/-- The sources behind the name of a directive. -/
def sources (policy name : Bytes) : Option (List Bytes) :=
  ((directives policy).find? fun words => words.head? = some name).map List.tail

/-- The sources that decide about a script: those of the most special directive there is. -/
def scriptSources (policy : Bytes) : Option (List Bytes) :=
  sources policy (lit "script-src-elem") <|> sources policy (lit "script-src") <|>
    sources policy (lit "default-src")

/-- The source expression for a nonce. -/
def nonceSource (nonce : Bytes) : Bytes := lit "'nonce-" ++ nonce ++ lit "'"

/-- A script with this tag runs under the policy. -/
def Admits (policy tag : Bytes) : Prop :=
  ∃ nonce, tagNonce tag = some nonce ∧ ∃ allowed, scriptSources policy = some allowed ∧
    nonceSource nonce ∈ allowed

/-! ## The nonce -/

theorem kAlphabet_eq_map : kAlphabet = (List.range 64).map Base64.alphabet := by
  rfl

theorem kAlphabetAt_eq (v : UInt32) : kAlphabetAt v = Base64.alphabet (v.toNat % 64) := by
  have hmask : (v &&& 0x3F).toNat = v.toNat % 64 := by
    rw [UInt32.toNat_and]
    exact Nat.and_two_pow_sub_one_eq_mod v.toNat 6
  have hlt : v.toNat % 64 < (List.range 64).length := by
    rw [List.length_range]
    exact Nat.mod_lt _ (by decide)
  rw [kAlphabetAt, hmask, kAlphabet_eq_map, List.getD_eq_getElem?_getD, List.getElem?_map,
    List.getElem?_eq_getElem hlt, List.getElem_range, Option.map_some, Option.getD_some]

/-- **The nonce is the standard base64 of the random bytes.** -/
theorem generateScriptNonce_eq (bytes : Bytes) : generateScriptNonce bytes = Base64.encode bytes := by
  induction bytes using generateScriptNonce.induct with
  | case1 => rfl
  | case2 a =>
      have ha := a.toNat_lt
      simp only [generateScriptNonce, Base64.encode, kAlphabetAt_eq, UInt32.toNat_shiftRight, toNat_first,
        Nat.shiftRight_eq_div_pow, UInt32.toNat_ofNat, Nat.reducePow, Nat.reduceMod,
        List.cons.injEq, and_true]
      exact ⟨congrArg _ (by omega), congrArg _ (by omega), rfl, rfl⟩
  | case3 a b =>
      have ha := a.toNat_lt
      have hb := b.toNat_lt
      simp only [generateScriptNonce, Base64.encode, kAlphabetAt_eq, UInt32.toNat_shiftRight, toNat_pair,
        Nat.shiftRight_eq_div_pow, UInt32.toNat_ofNat, Nat.reducePow, Nat.reduceMod,
        List.cons.injEq, and_true]
      exact ⟨congrArg _ (by omega), congrArg _ (by omega), congrArg _ (by omega), rfl⟩
  | case4 a b c bytes ih =>
      have ha := a.toNat_lt
      have hb := b.toNat_lt
      have hc := c.toNat_lt
      simp only [generateScriptNonce, Base64.encode, kAlphabetAt_eq, UInt32.toNat_shiftRight, toNat_block,
        Nat.shiftRight_eq_div_pow, UInt32.toNat_ofNat, Nat.reducePow, Nat.reduceMod,
        List.cons.injEq, ih, and_true]
      exact ⟨congrArg _ (by omega), congrArg _ (by omega), congrArg _ (by omega), congrArg _ (by omega)⟩

/-- Nothing in a nonce ends an attribute, a tag, a source or a directive. -/
theorem generateScriptNonce_plain (bytes : Bytes) :
    ∀ b ∈ generateScriptNonce bytes, b ≠ 0x20 ∧ b ≠ 0x22 ∧ b ≠ 0x3B ∧ b ≠ 0x3C ∧ b ≠ 0x3E := by
  rw [generateScriptNonce_eq]
  exact Base64.encode_forall (P := fun b => b ≠ 0x20 ∧ b ≠ 0x22 ∧ b ≠ 0x3B ∧ b ≠ 0x3C ∧ b ≠ 0x3E)
    (by decide) (by decide) bytes

/-! ## The page -/

/-- A word that begins in one line and lacks the line's end has ended there. -/
theorem word_of_line {word line rest : Bytes} (hword : (0x0A : UInt8) ∉ word)
    (h : word <+: line ++ 0x0A :: rest) : word <+: line := by
  have hline : line ++ [0x0A] <+: line ++ 0x0A :: rest := ⟨rest, by simp⟩
  rcases Nat.lt_or_ge line.length word.length with hlt | hle
  · have hlonger : line ++ [0x0A] <+: word :=
      List.prefix_of_prefix_length_le hline h (by simpa using hlt)
    exact absurd (hlonger.subset (by simp)) hword
  · exact List.prefix_of_prefix_length_le h ⟨_, rfl⟩ hle

theorem not_tag_of_nil {b : UInt8} {text : Bytes} (h : scriptTags (b :: text) = []) :
    ¬ (b = 0x3C ∧ lit "script" <+: Bytes.lower text) := by
  intro hscript
  rw [scriptTags, if_pos hscript] at h
  cases h

/-- No tag begins in one line and ends in the next. -/
theorem scriptTags_line {line : Bytes} (hline : scriptTags line = []) (rest : Bytes) :
    scriptTags (line ++ 0x0A :: rest) = scriptTags rest := by
  induction line with
  | nil => rfl
  | cons b line ih =>
      have hno := not_tag_of_nil hline
      rw [scriptTags, if_neg hno] at hline
      have hlower : Bytes.lower (line ++ 0x0A :: rest) = Bytes.lower line ++ 0x0A :: Bytes.lower rest := by
        simp only [Bytes.lower, List.map_cons, List.map_append]
        rfl
      have hnone : ¬ (b = 0x3C ∧ lit "script" <+: Bytes.lower (line ++ 0x0A :: rest)) := by
        rw [hlower]
        exact fun hscript => hno ⟨hscript.1, word_of_line (by decide) hscript.2⟩
      rw [List.cons_append, scriptTags, if_neg hnone]
      exact ih hline

theorem scriptTags_unlines {lines : List Bytes} (h : ∀ line ∈ lines, scriptTags line = []) (rest : Bytes) :
    scriptTags (unlines lines ++ rest) = scriptTags rest := by
  induction lines with
  | nil => rfl
  | cons line lines ih =>
      have hsplit : unlines (line :: lines) ++ rest = line ++ 0x0A :: (unlines lines ++ rest) := by
        simp [unlines]
      rw [hsplit, scriptTags_line (h line List.mem_cons_self)]
      exact ih fun l hl => h l (List.mem_cons_of_mem _ hl)

/-- Where no angle opens, no tag does. -/
theorem scriptTags_append_of_ne {text : Bytes} (h : ∀ b ∈ text, b ≠ 0x3C) (rest : Bytes) :
    scriptTags (text ++ rest) = scriptTags rest := by
  induction text with
  | nil => rfl
  | cons b text ih =>
      rw [List.cons_append, scriptTags, if_neg fun hscript => h b List.mem_cons_self hscript.1]
      exact ih fun c hc => h c (List.mem_cons_of_mem _ hc)

/-- No angle has the first two letters of the name behind it. -/
def opensNone : Bytes → Bool
  | b :: c :: d :: text =>
      !(b == 0x3C && (c == 0x73 || c == 0x53) && (d == 0x63 || d == 0x43)) && opensNone (c :: d :: text)
  | _ => true

theorem toLower_eq_s (b : UInt8) : Bytes.toLower b = 0x73 → (b == 0x73 || b == 0x53) = true :=
  forall_byte (P := fun b => Bytes.toLower b = 0x73 → (b == 0x73 || b == 0x53) = true) (by decide +kernel) b

theorem toLower_eq_c (b : UInt8) : Bytes.toLower b = 0x63 → (b == 0x63 || b == 0x43) = true :=
  forall_byte (P := fun b => Bytes.toLower b = 0x63 → (b == 0x63 || b == 0x43) = true) (by decide +kernel) b

theorem scriptTags_of_opensNone {text : Bytes} (h : opensNone text = true) : scriptTags text = [] := by
  induction text using opensNone.induct with
  | case1 b c d text ih =>
      rw [opensNone, Bool.and_eq_true, Bool.not_eq_true'] at h
      rw [scriptTags, if_neg]
      · exact ih h.2
      · rintro ⟨rfl, hscript⟩
        have hs := (List.cons_prefix_cons.mp hscript).1
        have hc := (List.cons_prefix_cons.mp (List.cons_prefix_cons.mp hscript).2).1
        have hopens := h.1
        rw [toLower_eq_s c hs.symm, toLower_eq_c d hc.symm] at hopens
        cases hopens
  | case2 text hshort =>
      -- Two bytes have no room for the name.
      rcases text with _ | ⟨b, _ | ⟨c, _ | ⟨d, text⟩⟩⟩
      · rfl
      · rw [scriptTags, if_neg fun hscript => absurd hscript.2.length_le (by decide)]
        rfl
      · rw [scriptTags, if_neg fun hscript => absurd hscript.2.length_le (by simp [Bytes.lower, lit]), scriptTags,
          if_neg fun hscript => absurd hscript.2.length_le (by decide)]
        rfl
      · exact absurd rfl (hshort b c d text)

/-- The bytes of a literal, without a look at how the string is stored. -/
theorem scriptTags_lit {cs : List Char} (h : opensNone (cs.map fun c => UInt8.ofNat c.toNat) = true) :
    scriptTags (lit (String.ofList cs)) = [] := by
  rw [lit_ofList]
  exact scriptTags_of_opensNone h

theorem scriptTags_kHarborLoginPagePrefix : ∀ line ∈ kHarborLoginPagePrefix, scriptTags line = [] := by
  have htitle : scriptTags (lit "<title>harbor " ++ emDash ++ lit " Sign in</title>") = [] :=
    scriptTags_of_opensNone rfl
  unfold kHarborLoginPagePrefix
  iterate 5 refine List.forall_mem_cons.mpr ⟨scriptTags_lit rfl, ?_⟩
  refine List.forall_mem_cons.mpr ⟨htitle, ?_⟩
  repeat refine List.forall_mem_cons.mpr ⟨scriptTags_lit rfl, ?_⟩
  exact List.forall_mem_nil _

theorem scriptTags_kHarborLoginPageSuffix : ∀ line ∈ kHarborLoginPageSuffix, scriptTags line = [] := by
  unfold kHarborLoginPageSuffix
  repeat refine List.forall_mem_cons.mpr ⟨scriptTags_lit rfl, ?_⟩
  exact List.forall_mem_nil _

/-- The tag of the page without its `'>'`. -/
def pageTag (nonce : Bytes) : Bytes := lit "<script nonce=\"" ++ nonce ++ lit "\""

/-- **The page has one script, and its tag carries the nonce.** -/
theorem scriptTags_renderLoginPage (bytes : Bytes) :
    scriptTags (renderLoginPage (generateScriptNonce bytes)) = [pageTag (generateScriptNonce bytes)] := by
  have hplain := generateScriptNonce_plain bytes
  generalize generateScriptNonce bytes = nonce at hplain ⊢
  -- Behind the angle of the tag the next one is in the lines that follow.
  obtain ⟨inner, hinner⟩ : ∃ inner, inner = lit "script nonce=\"" ++ nonce ++ lit "\"" := ⟨_, rfl⟩
  have hno : ∀ b ∈ inner, b ≠ 0x3C ∧ b ≠ 0x3E := by
    intro b hb
    simp only [hinner, List.mem_append] at hb
    rcases hb with (hb | hb) | hb
    · exact (by decide : ∀ b ∈ lit "script nonce=\"", b ≠ 0x3C ∧ b ≠ 0x3E) b hb
    · exact (hplain b hb).2.2.2
    · exact (by decide : ∀ b ∈ lit "\"", b ≠ 0x3C ∧ b ≠ 0x3E) b hb
  have hpage : renderLoginPage nonce = unlines kHarborLoginPagePrefix ++
      0x3C :: (inner ++ 0x3E :: unlines kHarborLoginPageSuffix) := by
    simp only [renderLoginPage, hinner, List.append_assoc]
    rfl
  have htag : pageTag nonce = 0x3C :: inner := by
    rw [hinner, pageTag]
    rfl
  have hopen : lit "script" <+: Bytes.lower (inner ++ 0x3E :: unlines kHarborLoginPageSuffix) := by
    refine ⟨Bytes.lower (lit " nonce=\"" ++ nonce ++ lit "\"" ++ 0x3E :: unlines kHarborLoginPageSuffix), ?_⟩
    simp only [hinner, Bytes.lower, List.map_append, List.append_assoc]
    rfl
  have hrest : scriptTags (inner ++ 0x3E :: unlines kHarborLoginPageSuffix) = [] := by
    rw [scriptTags_append_of_ne fun b hb => (hno b hb).1, ← List.append_nil (unlines _), ← List.singleton_append,
      scriptTags_append_of_ne (by decide), scriptTags_unlines scriptTags_kHarborLoginPageSuffix]
    rfl
  rw [hpage, scriptTags_unlines scriptTags_kHarborLoginPagePrefix, scriptTags, if_pos ⟨rfl, hopen⟩, hrest, htag,
    ← List.cons_append, List.takeWhile_append_of_pos, List.takeWhile_cons_of_neg, List.append_nil]
  · decide
  · intro b hb
    rcases List.mem_cons.mp hb with rfl | hb
    · decide
    · simpa using (hno b hb).2

theorem tagNonce_pageTag (bytes : Bytes) :
    tagNonce (pageTag (generateScriptNonce bytes)) = some (generateScriptNonce bytes) := by
  have hplain := generateScriptNonce_plain bytes
  generalize generateScriptNonce bytes = nonce at hplain ⊢
  have hopen : (lit "<script nonce=\"").isPrefixOf (pageTag nonce) = true :=
    List.isPrefixOf_iff_prefix.mpr ⟨nonce ++ lit "\"", by rw [pageTag, List.append_assoc]⟩
  rw [tagNonce, if_pos hopen, pageTag, List.append_assoc, List.drop_left, List.takeWhile_append_of_pos]
  · show some (nonce ++ []) = some nonce
    rw [List.append_nil]
  · intro b hb
    simpa using (hplain b hb).2.1

/-! ## The policy -/

/-- The directives of the policy as they stand there, between the semicolons. -/
def policyPieces (nonce : Bytes) : List Bytes :=
  [lit "default-src 'none'", lit " script-src 'nonce-" ++ nonce ++ lit "'", lit " style-src 'unsafe-inline'",
    lit " connect-src 'self'", lit " form-action 'self'", lit " base-uri 'none'", lit " frame-ancestors 'none'"]

theorem not_mem_around {b : UInt8} {before nonce after : Bytes} (hbefore : b ∉ before)
    (hnonce : ∀ c ∈ nonce, c ≠ b) (hafter : b ∉ after) : b ∉ before ++ nonce ++ after := by
  simp only [List.mem_append, not_or]
  exact ⟨⟨hbefore, fun hb => hnonce b hb rfl⟩, hafter⟩

theorem splitOn_contentSecurityPolicy {nonce : Bytes} (h : ∀ b ∈ nonce, b ≠ 0x3B) :
    (contentSecurityPolicy nonce).splitOn 0x3B = policyPieces nonce := by
  have hjoin : contentSecurityPolicy nonce = [0x3B].intercalate (policyPieces nonce) := by
    simp only [contentSecurityPolicy, policyPieces, List.intercalate, List.intersperse, List.flatten_cons,
      List.flatten_nil, List.append_assoc, List.append_nil]
    rfl
  have hnonce : 0x3B ∉ lit " script-src 'nonce-" ++ nonce ++ lit "'" :=
    not_mem_around (by decide) h (by decide)
  have hpieces : ∀ piece ∈ policyPieces nonce, 0x3B ∉ piece := by
    simp only [policyPieces, List.forall_mem_cons]
    exact ⟨by decide, hnonce, by decide, by decide, by decide, by decide, by decide, by simp⟩
  rw [hjoin, List.splitOn_intercalate 0x3B hpieces (List.cons_ne_nil _ _)]

theorem splitOn_scriptPiece {nonce : Bytes} (h : ∀ b ∈ nonce, b ≠ 0x20) :
    (lit " script-src 'nonce-" ++ nonce ++ lit "'").splitOn 0x20 =
      [[], lit "script-src", nonceSource nonce] := by
  have hjoin : lit " script-src 'nonce-" ++ nonce ++ lit "'" =
      [0x20].intercalate [[], lit "script-src", nonceSource nonce] := by
    simp only [nonceSource, List.intercalate, List.intersperse, List.flatten_cons,
      List.flatten_nil, List.append_assoc, List.append_nil]
    rfl
  have hnonce : 0x20 ∉ nonceSource nonce := not_mem_around (by decide) h (by decide)
  have hwords : ∀ word ∈ [[], lit "script-src", nonceSource nonce], 0x20 ∉ word := by
    simp only [List.forall_mem_cons]
    exact ⟨by decide, by decide, hnonce, by simp⟩
  rw [hjoin, List.splitOn_intercalate 0x20 hwords (List.cons_ne_nil _ _)]

/-- **The only source of scripts is the nonce.** -/
theorem scriptSources_contentSecurityPolicy (bytes : Bytes) :
    scriptSources (contentSecurityPolicy (generateScriptNonce bytes)) =
      some [nonceSource (generateScriptNonce bytes)] := by
  have hplain := generateScriptNonce_plain bytes
  generalize generateScriptNonce bytes = nonce at hplain ⊢
  have hdirectives : directives (contentSecurityPolicy nonce) =
      [[lit "default-src", lit "'none'"], [lit "script-src", nonceSource nonce],
        [lit "style-src", lit "'unsafe-inline'"], [lit "connect-src", lit "'self'"],
        [lit "form-action", lit "'self'"], [lit "base-uri", lit "'none'"],
        [lit "frame-ancestors", lit "'none'"]] := by
    rw [directives, splitOn_contentSecurityPolicy fun b hb => (hplain b hb).2.2.1]
    simp only [policyPieces, List.map_cons, List.map_nil, splitOn_scriptPiece fun b hb => (hplain b hb).1]
    rfl
  have helem : sources (contentSecurityPolicy nonce) (lit "script-src-elem") = none := by
    rw [sources, hdirectives]
    rfl
  have hscript : sources (contentSecurityPolicy nonce) (lit "script-src") = some [nonceSource nonce] := by
    rw [sources, hdirectives]
    rfl
  rw [scriptSources, helem, hscript]
  rfl

/-! ## Who runs -/

theorem nonceSource_injective {m n : Bytes} (h : nonceSource m = nonceSource n) : m = n :=
  List.append_cancel_left (List.append_cancel_right h)

/-- **Under the policy of an answer the script of a page runs exactly when the page is of that answer.** -/
theorem admits_iff (bytes bytes' : Bytes) :
    (∀ tag ∈ scriptTags (renderLoginPage (generateScriptNonce bytes')),
      Admits (contentSecurityPolicy (generateScriptNonce bytes)) tag) ↔ bytes' = bytes := by
  rw [scriptTags_renderLoginPage, List.forall_mem_singleton, Admits, tagNonce_pageTag,
    scriptSources_contentSecurityPolicy]
  constructor
  · rintro ⟨nonce, hnonce, allowed, hallowed, hmem⟩
    cases hnonce
    cases hallowed
    have hsame := nonceSource_injective (List.mem_singleton.mp hmem)
    rw [generateScriptNonce_eq, generateScriptNonce_eq] at hsame
    exact Base64.encode_injective hsame
  · rintro rfl
    exact ⟨_, rfl, _, rfl, List.mem_singleton_self _⟩

end Harbor.Ui.LoginPage
