import Harbor.Lib.Json

set_option autoImplicit false

/-! # How the parameter decoder reads JSON

`SqlParamDecoder` reads a text at a position that its functions move on. A `Cursor` is such a position
together with what the text has from there on, so that a function that only looks ahead is a function
of the cursor. A function that returns `false` is `Except.error` with the message it sets.
-/

namespace Harbor

/-- A position in a text, and the text from there on. -/
structure Cursor where
  pos : Nat
  rest : Bytes
  deriving DecidableEq, Repr

namespace Cursor

def start (json : Bytes) : Cursor := ⟨0, json⟩

/-- `pos += n`. -/
def advance (c : Cursor) (n : Nat) : Cursor := ⟨c.pos + n, c.rest.drop n⟩

/-- The position from which on the text is `rest`. -/
def goto (c : Cursor) (rest : Bytes) : Cursor := ⟨c.pos + (c.rest.length - rest.length), rest⟩

@[simp] theorem advance_rest (c : Cursor) (n : Nat) : (c.advance n).rest = c.rest.drop n := rfl

@[simp] theorem goto_rest (c : Cursor) (rest : Bytes) : (c.goto rest).rest = rest := rfl

end Cursor

namespace ParamDecoder

open Json

/-- `SkipWhitespace`. -/
def skipWhitespace (c : Cursor) : Cursor := c.goto (skipWs c.rest)

/-- `ConsumeChar`. -/
def consumeChar (expected : UInt8) (c : Cursor) : Except Bytes Cursor :=
  let c := skipWhitespace c
  if c.rest.head? = some expected then .ok (c.advance 1)
  else .error (lit "expected '" ++ [expected] ++ lit "' at byte " ++ Bytes.decNat c.pos)

/-- `EncodeUtf8`. -/
def encodeUtf8 (cp : Nat) : Bytes :=
  if cp < 0x80 then [UInt8.ofNat cp]
  else if cp < 0x800 then [UInt8.ofNat (0xC0 ||| cp >>> 6), UInt8.ofNat (0x80 ||| cp &&& 0x3F)]
  else if cp < 0x10000 then
    [UInt8.ofNat (0xE0 ||| cp >>> 12), UInt8.ofNat (0x80 ||| cp >>> 6 &&& 0x3F),
      UInt8.ofNat (0x80 ||| cp &&& 0x3F)]
  else
    [UInt8.ofNat (0xF0 ||| cp >>> 18), UInt8.ofNat (0x80 ||| cp >>> 12 &&& 0x3F),
      UInt8.ofNat (0x80 ||| cp >>> 6 &&& 0x3F), UInt8.ofNat (0x80 ||| cp &&& 0x3F)]

/-- The cases of `ParseString` for one byte after a backslash, `u` apart. -/
def simpleEscape (esc : UInt8) : Option UInt8 :=
  if esc = 0x22 then some 0x22
  else if esc = 0x5C then some 0x5C
  else if esc = 0x2F then some 0x2F
  else if esc = 0x62 then some 0x08
  else if esc = 0x66 then some 0x0C
  else if esc = 0x6E then some 0x0A
  else if esc = 0x72 then some 0x0D
  else if esc = 0x74 then some 0x09
  else none

/-- The loop of `ParseString` behind the opening quote: what it appends to `out`, and the rest. -/
def readChars : Bytes → Except Bytes (Bytes × Bytes)
  | [] => .error (lit "unterminated string")
  | [b] =>
      if b = 0x22 then .ok ([], [])
      else if b = 0x5C then .error (lit "unterminated escape")
      else .error (lit "unterminated string")
  | b :: esc :: s =>
      if b = 0x22 then .ok ([], esc :: s)
      else if b = 0x5C then
        if esc = 0x75 then
          -- each `\uXXXX` is a code point of its own, also the halves of a surrogate pair
          match s with
          | h₁ :: h₂ :: h₃ :: h₄ :: s =>
              match hexUnit h₁ h₂ h₃ h₄ with
              | none => .error (lit "invalid hex in \\u escape")
              | some cp => do
                  let (out, rest) ← readChars s
                  .ok (encodeUtf8 cp ++ out, rest)
          | _ => .error (lit "truncated \\u escape")
        else
          match simpleEscape esc with
          | none => .error (lit "unknown escape \\" ++ [esc])
          | some c => do
              let (out, rest) ← readChars s
              .ok (c :: out, rest)
      else do
        let (out, rest) ← readChars (esc :: s)
        .ok (b :: out, rest)

/-- `ParseString`. -/
def parseString (c : Cursor) : Except Bytes (Bytes × Cursor) :=
  let c := skipWhitespace c
  match c.rest with
  | [] => .error (lit "expected JSON string")
  | b :: body =>
      if b = 0x22 then do
        let (out, rest) ← readChars body
        .ok (out, c.goto rest)
      else .error (lit "expected JSON string")

/-! ## The extent of a value -/

/-- The scan for the closing quote: what is behind it. -/
def scanString : Bytes → Option Bytes
  | [] => none
  | [b] => if b = 0x22 then some [] else none
  | b :: b' :: s =>
      if b = 0x5C then scanString s
      else if b = 0x22 then some (b' :: s)
      else scanString (b' :: s)

/-- The scan for the bracket that closes what `depth` brackets of its kind have opened. Brackets of the
other kind are not counted, and none inside a string. -/
def scanBrackets (openCh closeCh : UInt8) : Nat → Bool → Bytes → Option Bytes
  | _, _, [] => none
  | depth, true, b :: s =>
      if b = 0x5C then
        match s with
        | [] => none
        | _ :: s => scanBrackets openCh closeCh depth true s
      else scanBrackets openCh closeCh depth (b ≠ 0x22) s
  | depth, false, b :: s =>
      if b = 0x22 then scanBrackets openCh closeCh depth true s
      else if b = openCh then scanBrackets openCh closeCh (depth + 1) false s
      else if b = closeCh then
        if depth ≤ 1 then some s else scanBrackets openCh closeCh (depth - 1) false s
      else scanBrackets openCh closeCh depth false s

/-- What ends a literal or a number. -/
def endsLiteral (b : UInt8) : Bool := b == 0x2C || b == 0x5D || b == 0x7D || isWs b

/-- What is behind the value that the text starts with. -/
def scanValue : Bytes → Except Bytes Bytes
  | [] => .error (lit "unexpected end of input")
  | b :: s =>
      if b = 0x22 then
        match scanString s with
        | some rest => .ok rest
        | none => .error (lit "unterminated string in raw-value scan")
      else if b = 0x7B ∨ b = 0x5B then
        match scanBrackets b (if b = 0x7B then 0x7D else 0x5D) 0 false (b :: s) with
        | some rest => .ok rest
        | none => .error (lit "unterminated object/array")
      else if endsLiteral b then .error (lit "expected value")
      else .ok ((b :: s).dropWhile fun b => !endsLiteral b)

/-- `ParseRawValue`: the text of the value. -/
def parseRawValue (c : Cursor) : Except Bytes (Bytes × Cursor) := do
  let c := skipWhitespace c
  let rest ← scanValue c.rest
  .ok (c.rest.take (c.rest.length - rest.length), c.goto rest)

/-! ## Lists -/

/-- The loop over what stands between two brackets with commas in between: `item` reads one and updates
what has been read. The first argument bounds the number of items. -/
def readItems {σ : Type} (closeCh : UInt8) (item : σ → Cursor → Except Bytes (σ × Cursor)) :
    Nat → Bool → σ → Cursor → Except Bytes (σ × Cursor)
  | 0, _, _, _ => .error (lit "unreachable")
  | n + 1, first, s, c => do
      let c := skipWhitespace c
      if c.rest.head? = some closeCh then .ok (s, c.advance 1)
      else
        let c ← if first then .ok c else consumeChar 0x2C c
        let (s, c) ← item s c
        readItems closeCh item n false s c

end ParamDecoder

end Harbor
