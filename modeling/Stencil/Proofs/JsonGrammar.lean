import Stencil.Json.Reader

set_option autoImplicit false

namespace Stencil.Json

def Blank (chars : List Char) : Prop := ∀ c ∈ chars, c ∈ [' ', '\t', '\n', '\r']

instance (chars : List Char) : Decidable (Blank chars) := List.decidableBAll _ chars

def HexDigit (c : Char) (value : Nat) : Prop :=
  "0123456789abcdef".toList[value]? = some c ∨ "0123456789ABCDEF".toList[value]? = some c

def letterEscapes : List (Char × Char) :=
  [('\x22', '\x22'), ('\x5c', '\x5c'), ('/', '/'), ('b', '\x08'), ('f', '\x0c'), ('n', '\n'), ('r', '\r'), ('t', '\t')]

-- The inside of a quoted text. Control characters have to be escaped, and so do quotes and backslashes.
inductive SpellsText : List Glyph → List Char → Prop where
  | nil : SpellsText [] []
  | plain (c : Char) (glyphs : List Glyph) (chars : List Char) : 32 ≤ c.toNat → c ≠ '\x22' → c ≠ '\x5c' →
      SpellsText glyphs chars → SpellsText (.plain c :: glyphs) (c :: chars)
  | letter (escape meant : Char) (glyphs : List Glyph) (chars : List Char) : (escape, meant) ∈ letterEscapes →
      SpellsText glyphs chars → SpellsText (.plain meant :: glyphs) ('\x5c' :: escape :: chars)
  | unit (a b c d : Char) (w x y z : Nat) (glyphs : List Glyph) (chars : List Char) : HexDigit a w → HexDigit b x →
      HexDigit c y → HexDigit d z → SpellsText glyphs chars →
        SpellsText (.unit (((w * 16 + x) * 16 + y) * 16 + z) :: glyphs) ('\x5c' :: 'u' :: a :: b :: c :: d :: chars)

-- The characters that a text stands for after unescaping. A text in which half of a surrogate pair stands alone means
-- nothing.
inductive Means : List Glyph → List Char → Prop where
  | nil : Means [] []
  | plain (c : Char) (glyphs : List Glyph) (chars : List Char) :
      Means glyphs chars → Means (.plain c :: glyphs) (c :: chars)
  | unit (code : Nat) (glyphs : List Glyph) (chars : List Char) : code < 0xD800 ∨ 0xE000 ≤ code →
      Means glyphs chars → Means (.unit code :: glyphs) (Char.ofNat code :: chars)
  | pair (high low : Nat) (glyphs : List Glyph) (chars : List Char) : 0xD800 ≤ high → high < 0xDC00 → 0xDC00 ≤ low →
      low < 0xE000 → Means glyphs chars →
        Means (.unit high :: .unit low :: glyphs)
          (Char.ofNat (0x10000 + (high - 0xD800) * 0x400 + (low - 0xDC00)) :: chars)

def DigitRun (chars : List Char) : Prop := chars ≠ [] ∧ ∀ c ∈ chars, c.isDigit = true

instance (chars : List Char) : Decidable (DigitRun chars) := @instDecidableAnd _ _ _ (List.decidableBAll _ chars)

inductive SpellsFraction : Option (List Char) → List Char → Prop where
  | none : SpellsFraction none []
  | some (digits : List Char) : DigitRun digits → SpellsFraction (some digits) ('.' :: digits)

inductive SpellsExponent : Option Exponent → List Char → Prop where
  | none : SpellsExponent none []
  | some (mark : Char) (sign digits : List Char) (negative : Bool) : mark ∈ ['e', 'E'] →
      (sign, negative) ∈ [([], false), (['+'], false), (['-'], true)] → DigitRun digits →
        SpellsExponent (some ⟨negative, digits⟩) (mark :: (sign ++ digits))

inductive SpellsNumeral : Numeral → List Char → Prop where
  | intro (negative : Bool) (whole : List Char) (fraction : Option (List Char)) (exponent : Option Exponent)
      (point power : List Char) : DigitRun whole → (whole.head? = some '0' → whole = ['0']) →
      SpellsFraction fraction point → SpellsExponent exponent power →
        SpellsNumeral ⟨negative, whole, fraction, exponent⟩
          ((if negative then ['-'] else []) ++ (whole ++ (point ++ power)))

mutual
inductive Spells : Json → List Char → Prop where
  | null : Spells .null ['n', 'u', 'l', 'l']
  | yes : Spells (.bool true) ['t', 'r', 'u', 'e']
  | no : Spells (.bool false) ['f', 'a', 'l', 's', 'e']
  | number (n : Numeral) (chars : List Char) : SpellsNumeral n chars → Spells (.number n) chars
  | text (glyphs : List Glyph) (chars : List Char) :
      SpellsText glyphs chars → Spells (.text glyphs) ('\x22' :: (chars ++ ['\x22']))
  | array (items : List Json) (chars : List Char) :
      SpellsItems items chars → Spells (.array items) ('[' :: (chars ++ [']']))
  | object (members : List (List Glyph × Json)) (chars : List Char) :
      SpellsMembers members chars → Spells (.object members) ('\x7b' :: (chars ++ ['\x7d']))

inductive SpellsItems : List Json → List Char → Prop where
  | none (blanks : List Char) : Blank blanks → SpellsItems [] blanks
  | last (item : Json) (before chars after : List Char) : Blank before → Spells item chars → Blank after →
      SpellsItems [item] (before ++ (chars ++ after))
  | more (item next : Json) (rest : List Json) (before chars after later : List Char) : Blank before →
      Spells item chars → Blank after → SpellsItems (next :: rest) later →
        SpellsItems (item :: next :: rest) (before ++ (chars ++ (after ++ ',' :: later)))

inductive SpellsMembers : List (List Glyph × Json) → List Char → Prop where
  | none (blanks : List Char) : Blank blanks → SpellsMembers [] blanks
  | last (member : List Glyph × Json) (before chars after : List Char) : Blank before → SpellsMember member chars →
      Blank after → SpellsMembers [member] (before ++ (chars ++ after))
  | more (member next : List Glyph × Json) (rest : List (List Glyph × Json)) (before chars after later : List Char) :
      Blank before → SpellsMember member chars → Blank after → SpellsMembers (next :: rest) later →
        SpellsMembers (member :: next :: rest) (before ++ (chars ++ (after ++ ',' :: later)))

inductive SpellsMember : List Glyph × Json → List Char → Prop where
  | intro (key : List Glyph) (value : Json) (quoted before after chars : List Char) : SpellsText key quoted →
      Blank before → Blank after → Spells value chars →
        SpellsMember (key, value) ('\x22' :: (quoted ++ '\x22' :: (before ++ ':' :: (after ++ chars))))
end

inductive Written (document : Json) : List Char → Prop where
  | intro (before chars after : List Char) : Blank before → Spells document chars → Blank after →
      Written document (before ++ (chars ++ after))

def Bare (chars : List Char) : Prop := ∀ c ∈ chars, 32 ≤ c.toNat ∧ c ≠ '\x22' ∧ c ≠ '\x5c'

instance (chars : List Char) : Decidable (Bare chars) := List.decidableBAll _ chars

theorem spells_bare (chars : List Char) (bare : Bare chars) : SpellsText (chars.map .plain) chars := by
  induction chars with
  | nil => exact .nil
  | cons c rest ih =>
      obtain ⟨printable, quote, escape⟩ := bare c List.mem_cons_self
      exact .plain c _ rest printable quote escape (ih fun other member => bare other (List.mem_cons_of_mem c member))

theorem means_plain (chars : List Char) : Means (chars.map .plain) chars := by
  induction chars with
  | nil => exact .nil
  | cons c rest ih => exact .plain c _ rest ih

theorem blank_nil : Blank [] := nofun

theorem member_tight (name chars : List Char) (value : Json) (bare : Bare name) (spelled : Spells value chars) :
    SpellsMember (name.map .plain, value) ('\x22' :: (name ++ '\x22' :: ':' :: chars)) :=
  .intro _ value name [] [] chars (spells_bare name bare) blank_nil blank_nil spelled

theorem items_one (item : Json) (chars : List Char) (spelled : Spells item chars) : SpellsItems [item] chars := by
  have one := SpellsItems.last item [] chars [] blank_nil spelled blank_nil
  rw [List.append_nil] at one
  exact one

theorem items_next (item next : Json) (rest : List Json) (chars later : List Char) (spelled : Spells item chars)
    (listed : SpellsItems (next :: rest) later) : SpellsItems (item :: next :: rest) (chars ++ ',' :: later) :=
  .more item next rest [] chars [] later blank_nil spelled blank_nil listed

theorem members_one (member : List Glyph × Json) (chars : List Char) (spelled : SpellsMember member chars) :
    SpellsMembers [member] chars := by
  have one := SpellsMembers.last member [] chars [] blank_nil spelled blank_nil
  rw [List.append_nil] at one
  exact one

theorem members_next (member next : List Glyph × Json) (rest : List (List Glyph × Json)) (chars later : List Char)
    (spelled : SpellsMember member chars) (listed : SpellsMembers (next :: rest) later) :
    SpellsMembers (member :: next :: rest) (chars ++ ',' :: later) :=
  .more member next rest [] chars [] later blank_nil spelled blank_nil listed

theorem written_alone (document : Json) (chars : List Char) (spelled : Spells document chars) :
    Written document chars := by
  have whole := Written.intro [] chars [] blank_nil spelled blank_nil
  rw [List.append_nil] at whole
  exact whole

theorem isHighHalf_iff (code : Nat) : isHighHalf code = true ↔ 0xD800 ≤ code ∧ code < 0xDC00 := by
  simp [isHighHalf]

theorem isLowHalf_iff (code : Nat) : isLowHalf code = true ↔ 0xDC00 ≤ code ∧ code < 0xE000 := by
  simp [isLowHalf]

theorem decodeGlyphs_unit (code : Nat) (glyphs : List Glyph) (high : ¬ isHighHalf code = true)
    (low : ¬ isLowHalf code = true) :
    decodeGlyphs (.unit code :: glyphs) = (decodeGlyphs glyphs).map (Char.ofNat code :: ·) := by
  cases glyphs with
  | nil => simp [decodeGlyphs, high, low]
  | cons next rest => cases next <;> simp [decodeGlyphs, high, low]

theorem decodeGlyphs_pair (high low : Nat) (glyphs : List Glyph) (isHigh : isHighHalf high = true)
    (isLow : isLowHalf low = true) :
    decodeGlyphs (.unit high :: .unit low :: glyphs) = (decodeGlyphs glyphs).map (joinHalves high low :: ·) := by
  rw [decodeGlyphs, if_pos isHigh, if_pos isLow]

theorem means_decoded (glyphs : List Glyph) (chars : List Char) (means : Means glyphs chars) :
    decodeGlyphs glyphs = some chars := by
  induction means with
  | nil => rfl
  | plain c glyphs chars _ ih => rw [decodeGlyphs, ih, Option.map_some]
  | unit code glyphs chars apart _ ih =>
      have high : ¬ isHighHalf code = true := by rw [isHighHalf_iff]; omega
      have low : ¬ isLowHalf code = true := by rw [isLowHalf_iff]; omega
      rw [decodeGlyphs_unit code glyphs high low, ih, Option.map_some]
  | pair high low glyphs chars highStart highEnd lowStart lowEnd _ ih =>
      rw [decodeGlyphs_pair high low glyphs ((isHighHalf_iff high).mpr ⟨highStart, highEnd⟩)
        ((isLowHalf_iff low).mpr ⟨lowStart, lowEnd⟩), ih]
      rfl

theorem decoded_means (glyphs : List Glyph) (chars : List Char) (decoded : decodeGlyphs glyphs = some chars) :
    Means glyphs chars := by
  fun_induction decodeGlyphs glyphs generalizing chars with
  | case1 =>
      cases decoded
      exact .nil
  | case2 c rest ih =>
      obtain ⟨tail, found, rfl⟩ := Option.map_eq_some_iff.mp decoded
      exact .plain c rest tail (ih tail found)
  | case3 high low rest isHigh isLow ih =>
      obtain ⟨tail, found, rfl⟩ := Option.map_eq_some_iff.mp decoded
      obtain ⟨highStart, highEnd⟩ := (isHighHalf_iff high).mp isHigh
      obtain ⟨lowStart, lowEnd⟩ := (isLowHalf_iff low).mp isLow
      exact .pair high low rest tail highStart highEnd lowStart lowEnd (ih tail found)
  | case4 => cases decoded
  | case5 => cases decoded
  | case6 code low rest notHigh notLow ih =>
      obtain ⟨tail, found, rfl⟩ := Option.map_eq_some_iff.mp decoded
      rw [isHighHalf_iff] at notHigh
      rw [isLowHalf_iff] at notLow
      exact .unit code _ tail (by omega) (ih tail found)
  | case7 => cases decoded
  | case8 code rest alone notHalf ih =>
      obtain ⟨tail, found, rfl⟩ := Option.map_eq_some_iff.mp decoded
      rw [Bool.or_eq_true, isHighHalf_iff, isLowHalf_iff] at notHalf
      exact .unit code rest tail (by omega) (ih tail found)

end Stencil.Json
