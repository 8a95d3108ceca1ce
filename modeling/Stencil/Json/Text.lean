set_option autoImplicit false

namespace Stencil.Json

inductive Glyph where
  | plain (c : Char)
  | unit (code : Nat)
deriving DecidableEq, Repr

def isHighHalf (code : Nat) : Bool := 0xD800 ≤ code && code < 0xDC00

def isLowHalf (code : Nat) : Bool := 0xDC00 ≤ code && code < 0xE000

def joinHalves (high low : Nat) : Char := Char.ofNat (0x10000 + (high - 0xD800) * 0x400 + (low - 0xDC00))

def decodeGlyphs : List Glyph → Option (List Char)
  | [] => some []
  | .plain c :: rest => (decodeGlyphs rest).map (c :: ·)
  | .unit high :: .unit low :: rest =>
      if isHighHalf high then
        if isLowHalf low then (decodeGlyphs rest).map (joinHalves high low :: ·) else none
      else if isLowHalf high then none
      else (decodeGlyphs (.unit low :: rest)).map (Char.ofNat high :: ·)
  | .unit code :: rest =>
      if isHighHalf code || isLowHalf code then none else (decodeGlyphs rest).map (Char.ofNat code :: ·)

def hexValue? (c : Char) : Option Nat :=
  if '0' ≤ c ∧ c ≤ '9' then some (c.toNat - '0'.toNat)
  else if 'a' ≤ c ∧ c ≤ 'f' then some (c.toNat - 'a'.toNat + 10)
  else if 'A' ≤ c ∧ c ≤ 'F' then some (c.toNat - 'A'.toNat + 10)
  else none

def unitValue? (a b c d : Char) : Option Nat := do
  let a ← hexValue? a
  let b ← hexValue? b
  let c ← hexValue? c
  let d ← hexValue? d
  return ((a * 16 + b) * 16 + c) * 16 + d

def shortEscape? (c : Char) : Option Char :=
  match c with
  | '\x22' => some '\x22'
  | '\x5c' => some '\x5c'
  | '/' => some '/'
  | 'b' => some '\x08'
  | 'f' => some '\x0c'
  | 'n' => some '\n'
  | 'r' => some '\r'
  | 't' => some '\t'
  | _ => none

def readGlyphs (done : List Glyph) : List Char → Option (List Glyph × List Char)
  | '\x22' :: rest => some (done.reverse, rest)
  | '\x5c' :: 'u' :: a :: b :: c :: d :: rest =>
      match unitValue? a b c d with
      | some code => readGlyphs (.unit code :: done) rest
      | none => none
  | '\x5c' :: c :: rest =>
      match shortEscape? c with
      | some meant => readGlyphs (.plain meant :: done) rest
      | none => none
  | c :: rest => if c.toNat < 32 || c = '\x5c' then none else readGlyphs (.plain c :: done) rest
  | [] => none

theorem readGlyphs_shorter (done : List Glyph) (chars : List Char) (glyphs : List Glyph) (rest : List Char)
    (read : readGlyphs done chars = some (glyphs, rest)) : rest.length < chars.length := by
  fun_induction readGlyphs done chars with
  | case1 => grind
  | case2 done a b c d tail code found ih =>
      have := ih read
      simp only [List.length_cons]
      omega
  | case3 => simp at read
  | case4 done c tail notUnit meant found ih => grind
  | case5 => simp at read
  | case6 => simp at read
  | case7 done c tail notQuote notUnit notEscape printable ih => grind
  | case8 => simp at read

end Stencil.Json
