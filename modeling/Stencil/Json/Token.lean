import Stencil.Json.Numeral
import Stencil.Json.Text

set_option autoImplicit false

namespace Stencil.Json

inductive Token where
  | openArray
  | closeArray
  | openObject
  | closeObject
  | comma
  | colon
  | null
  | bool (value : Bool)
  | number (value : Numeral)
  | text (glyphs : List Glyph)
deriving DecidableEq, Repr

def isBlank (c : Char) : Bool := c = ' ' || c = '\n' || c = '\t' || c = '\r'

def readDigits (chars : List Char) : List Char × List Char :=
  (chars.takeWhile Char.isDigit, chars.dropWhile Char.isDigit)

def readWhole? (chars : List Char) : Option (List Char × List Char) :=
  match readDigits chars with
  | ([], _) => none
  | (first :: more, rest) => if first = '0' && !more.isEmpty then none else some (first :: more, rest)

def readFraction? : List Char → Option (Option (List Char) × List Char)
  | '.' :: chars =>
      match readDigits chars with
      | ([], _) => none
      | (digits, rest) => some (some digits, rest)
  | chars => some (none, chars)

def readExponentDigits? (negative : Bool) (chars : List Char) : Option (Option Exponent × List Char) :=
  match readDigits chars with
  | ([], _) => none
  | (digits, rest) => some (some ⟨negative, digits⟩, rest)

def readSigned? : List Char → Option (Option Exponent × List Char)
  | '+' :: chars => readExponentDigits? false chars
  | '-' :: chars => readExponentDigits? true chars
  | chars => readExponentDigits? false chars

def readExponent? : List Char → Option (Option Exponent × List Char)
  | 'e' :: chars => readSigned? chars
  | 'E' :: chars => readSigned? chars
  | chars => some (none, chars)

def readUnsigned? (negative : Bool) (chars : List Char) : Option (Numeral × List Char) := do
  let (whole, chars) ← readWhole? chars
  let (fraction, chars) ← readFraction? chars
  let (exponent, chars) ← readExponent? chars
  return (⟨negative, whole, fraction, exponent⟩, chars)

def readToken? : List Char → Option (Token × List Char)
  | '[' :: rest => some (.openArray, rest)
  | ']' :: rest => some (.closeArray, rest)
  | '\x7b' :: rest => some (.openObject, rest)
  | '\x7d' :: rest => some (.closeObject, rest)
  | ',' :: rest => some (.comma, rest)
  | ':' :: rest => some (.colon, rest)
  | 'n' :: 'u' :: 'l' :: 'l' :: rest => some (.null, rest)
  | 't' :: 'r' :: 'u' :: 'e' :: rest => some (.bool true, rest)
  | 'f' :: 'a' :: 'l' :: 's' :: 'e' :: rest => some (.bool false, rest)
  | '\x22' :: rest => (readGlyphs [] rest).map fun read => (.text read.1, read.2)
  | '-' :: rest => (readUnsigned? true rest).map fun read => (.number read.1, read.2)
  | chars => (readUnsigned? false chars).map fun read => (.number read.1, read.2)

theorem readDigits_length (chars : List Char) :
    (readDigits chars).1.length + (readDigits chars).2.length = chars.length := by
  rw [← List.length_append]
  simp [readDigits]

theorem readWhole_shorter (chars whole rest : List Char) (read : readWhole? chars = some (whole, rest)) :
    rest.length < chars.length := by
  have total := readDigits_length chars
  unfold readWhole? at read
  grind

theorem readFraction_no_longer (chars : List Char) (fraction : Option (List Char)) (rest : List Char)
    (read : readFraction? chars = some (fraction, rest)) : rest.length ≤ chars.length := by
  unfold readFraction? at read
  split at read
  · rename_i tail
    have total := readDigits_length tail
    grind
  · grind

theorem readExponentDigits_no_longer (negative : Bool) (chars : List Char) (exponent : Option Exponent)
    (rest : List Char) (read : readExponentDigits? negative chars = some (exponent, rest)) :
    rest.length ≤ chars.length := by
  have total := readDigits_length chars
  unfold readExponentDigits? at read
  grind

theorem readSigned_no_longer (chars : List Char) (exponent : Option Exponent) (rest : List Char)
    (read : readSigned? chars = some (exponent, rest)) : rest.length ≤ chars.length := by
  unfold readSigned? at read
  split at read
  · have bound := readExponentDigits_no_longer _ _ _ _ read
    simp only [List.length_cons]
    omega
  · have bound := readExponentDigits_no_longer _ _ _ _ read
    simp only [List.length_cons]
    omega
  · exact readExponentDigits_no_longer _ _ _ _ read

theorem readExponent_no_longer (chars : List Char) (exponent : Option Exponent) (rest : List Char)
    (read : readExponent? chars = some (exponent, rest)) : rest.length ≤ chars.length := by
  unfold readExponent? at read
  split at read
  · have bound := readSigned_no_longer _ _ _ read
    simp only [List.length_cons]
    omega
  · have bound := readSigned_no_longer _ _ _ read
    simp only [List.length_cons]
    omega
  · grind

theorem readUnsigned_shorter (negative : Bool) (chars : List Char) (n : Numeral) (rest : List Char)
    (read : readUnsigned? negative chars = some (n, rest)) : rest.length < chars.length := by
  simp only [readUnsigned?, Option.bind_eq_bind, Option.bind_eq_some_iff, Prod.exists] at read
  obtain ⟨whole, rest₁, first, fraction, rest₂, second, exponent, rest₃, third, last⟩ := read
  have one := readWhole_shorter _ _ _ first
  have two := readFraction_no_longer _ _ _ second
  have three := readExponent_no_longer _ _ _ third
  have same : rest₃ = rest := (Prod.mk.inj (Option.some.inj last)).2
  rw [← same]
  omega

theorem readToken_shorter (chars : List Char) (token : Token) (rest : List Char)
    (read : readToken? chars = some (token, rest)) : rest.length < chars.length := by
  unfold readToken? at read
  split at read
  all_goals try
    simp only [Option.some.injEq, Prod.mk.injEq] at read
    simp only [← read.2, List.length_cons]
    omega
  all_goals
    simp only [Option.map_eq_some_iff, Prod.mk.injEq, Prod.exists] at read
    obtain ⟨inner, rest', found, -, rfl⟩ := read
  · have bound := readGlyphs_shorter _ _ _ _ found
    simp only [List.length_cons]
    omega
  · have bound := readUnsigned_shorter _ _ _ _ found
    simp only [List.length_cons]
    omega
  · exact readUnsigned_shorter _ _ _ _ found

theorem dropBlank_length (chars : List Char) : (chars.dropWhile isBlank).length ≤ chars.length := by
  simpa using (List.dropWhile_sublist isBlank (l := chars)).length_le

def tokens? (chars : List Char) : Option (List Token) :=
  match _start : chars.dropWhile isBlank with
  | [] => some []
  | c :: more =>
      match _read : readToken? (c :: more) with
      | none => none
      | some (token, rest) => (tokens? rest).map (token :: ·)
termination_by chars.length
decreasing_by
  have shorter := readToken_shorter _ _ _ _read
  have bound := dropBlank_length chars
  rw [_start] at bound
  omega

end Stencil.Json
