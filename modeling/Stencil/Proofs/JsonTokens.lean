import Stencil.Proofs.JsonGrammar

set_option autoImplicit false

namespace Stencil.Json

def Apart (rest : List Char) : Prop := ∀ c ∈ rest.head?, c.isDigit = false ∧ c ∉ ['.', 'e', 'E']

theorem apart_nil : Apart [] := nofun

theorem apart_cons (c : Char) (rest : List Char) (digit : c.isDigit = false) (mark : c ∉ ['.', 'e', 'E']) :
    Apart (c :: rest) := by
  intro first atHead
  cases atHead
  exact ⟨digit, mark⟩

theorem blank_char (c : Char) (listed : c ∈ [' ', '\t', '\n', '\r']) :
    isBlank c = true ∧ c.isDigit = false ∧ c ∉ ['.', 'e', 'E'] := by
  simp only [List.mem_cons, List.not_mem_nil, or_false] at listed
  rcases listed with rfl | rfl | rfl | rfl <;> exact ⟨rfl, rfl, by decide⟩

theorem apart_blank (blanks rest : List Char) (blank : Blank blanks) (apart : Apart rest) : Apart (blanks ++ rest) := by
  cases blanks with
  | nil => exact apart
  | cons c more =>
      obtain ⟨-, digit, mark⟩ := blank_char c (blank c List.mem_cons_self)
      exact apart_cons c (more ++ rest) digit mark

theorem hexValue_digit (c : Char) (value : Nat) (digit : HexDigit c value) : hexValue? c = some value := by
  have lower : ∀ n : Fin 16, hexValue? "0123456789abcdef".toList[n] = some n.val := by decide
  have upper : ∀ n : Fin 16, hexValue? "0123456789ABCDEF".toList[n] = some n.val := by decide
  rcases digit with found | found
  · obtain ⟨small, rfl⟩ := List.getElem?_eq_some_iff.mp found
    exact lower ⟨value, small⟩
  · obtain ⟨small, rfl⟩ := List.getElem?_eq_some_iff.mp found
    exact upper ⟨value, small⟩

theorem letterEscapes_known (entry : Char × Char) (listed : entry ∈ letterEscapes) :
    shortEscape? entry.1 = some entry.2 ∧ entry.1 ≠ 'u' := by
  simp only [letterEscapes, List.mem_cons, List.not_mem_nil, or_false] at listed
  rcases listed with rfl | rfl | rfl | rfl | rfl | rfl | rfl | rfl <;> exact ⟨rfl, by decide⟩

theorem readGlyphs_spelled (glyphs done : List Glyph) (chars rest : List Char) (spelled : SpellsText glyphs chars) :
    readGlyphs done (chars ++ '\x22' :: rest) = some (done.reverse ++ glyphs, rest) := by
  induction spelled generalizing done with
  | nil => rw [List.nil_append, readGlyphs, List.append_nil]
  | plain c glyphs chars printable notQuote notEscape _ ih =>
      have step : readGlyphs done (c :: (chars ++ '\x22' :: rest)) =
          readGlyphs (.plain c :: done) (chars ++ '\x22' :: rest) := by
        rw [readGlyphs]
        · rw [if_neg]
          simp [notEscape, printable]
        all_goals simp_all
      rw [List.cons_append, step, ih, List.reverse_cons, List.append_assoc, List.singleton_append]
  | letter escape meant glyphs chars listed _ ih =>
      obtain ⟨short, notUnit⟩ := letterEscapes_known (escape, meant) listed
      have step : readGlyphs done ('\x5c' :: escape :: (chars ++ '\x22' :: rest)) =
          readGlyphs (.plain meant :: done) (chars ++ '\x22' :: rest) := by
        rw [readGlyphs, short]
        simp_all
      rw [List.cons_append, List.cons_append, step, ih, List.reverse_cons, List.append_assoc, List.singleton_append]
  | unit a b c d w x y z glyphs chars first second third fourth _ ih =>
      have code : unitValue? a b c d = some (((w * 16 + x) * 16 + y) * 16 + z) := by
        rw [unitValue?, hexValue_digit a w first, hexValue_digit b x second, hexValue_digit c y third,
          hexValue_digit d z fourth]
        rfl
      simp only [List.cons_append]
      rw [readGlyphs, code]
      simp only []
      rw [ih, List.reverse_cons, List.append_assoc, List.singleton_append]

theorem readDigits_run (digits rest : List Char) (run : ∀ c ∈ digits, c.isDigit = true)
    (ends : ∀ c ∈ rest.head?, c.isDigit = false) : readDigits (digits ++ rest) = (digits, rest) := by
  have past : rest.takeWhile Char.isDigit = [] ∧ rest.dropWhile Char.isDigit = rest := by
    cases rest with
    | nil => exact ⟨rfl, rfl⟩
    | cons c more =>
        have stop := ends c rfl
        exact ⟨List.takeWhile_cons_of_neg (by simp [stop]), List.dropWhile_cons_of_neg (by simp [stop])⟩
  rw [readDigits, List.takeWhile_append_of_pos run, List.dropWhile_append_of_pos run, past.1, past.2, List.append_nil]

theorem readWhole_spelled (whole rest : List Char) (run : DigitRun whole)
    (lead : whole.head? = some '0' → whole = ['0']) (ends : ∀ c ∈ rest.head?, c.isDigit = false) :
    readWhole? (whole ++ rest) = some (whole, rest) := by
  rw [readWhole?, readDigits_run whole rest run.2 ends]
  cases whole with
  | nil => exact absurd rfl run.1
  | cons first more =>
      have lone : ¬ (decide (first = '0') && !more.isEmpty) = true := by
        intro leading
        simp only [Bool.and_eq_true, decide_eq_true_eq] at leading
        obtain ⟨rfl, more'⟩ := leading
        have same := lead rfl
        cases same
        cases more'
      simp only [if_neg lone]

theorem readFraction_spelled (fraction : Option (List Char)) (point rest : List Char)
    (spelled : SpellsFraction fraction point) (ends : ∀ c ∈ rest.head?, c.isDigit = false ∧ c ≠ '.') :
    readFraction? (point ++ rest) = some (fraction, rest) := by
  cases spelled with
  | none =>
      rw [List.nil_append]
      unfold readFraction?
      split
      · exact absurd rfl (ends '.' rfl).2
      · rfl
  | some digits run =>
      rw [List.cons_append, readFraction?, readDigits_run digits rest run.2 fun c atHead => (ends c atHead).1]
      cases digits with
      | nil => exact absurd rfl run.1
      | cons first more => rfl

theorem readExponentDigits_run (negative : Bool) (digits rest : List Char) (run : DigitRun digits)
    (ends : ∀ c ∈ rest.head?, c.isDigit = false) :
    readExponentDigits? negative (digits ++ rest) = some (some ⟨negative, digits⟩, rest) := by
  rw [readExponentDigits?, readDigits_run digits rest run.2 ends]
  cases digits with
  | nil => exact absurd rfl run.1
  | cons first more => rfl

theorem readSigned_spelled (sign digits rest : List Char) (negative : Bool)
    (signed : (sign, negative) ∈ [([], false), (['+'], false), (['-'], true)]) (run : DigitRun digits)
    (ends : ∀ c ∈ rest.head?, c.isDigit = false) :
    readSigned? (sign ++ (digits ++ rest)) = some (some ⟨negative, digits⟩, rest) := by
  simp only [List.mem_cons, List.not_mem_nil, or_false, Prod.mk.injEq] at signed
  rcases signed with ⟨rfl, rfl⟩ | ⟨rfl, rfl⟩ | ⟨rfl, rfl⟩
  · rw [List.nil_append]
    obtain ⟨first, more, rfl⟩ := List.exists_cons_of_ne_nil run.1
    have digit := run.2 first List.mem_cons_self
    rw [List.cons_append, readSigned?]
    · exact readExponentDigits_run false (first :: more) rest run ends
    · rintro tail ⟨⟩
      cases digit
    · rintro tail ⟨⟩
      cases digit
  · exact readExponentDigits_run false digits rest run ends
  · exact readExponentDigits_run true digits rest run ends

theorem readExponent_spelled (exponent : Option Exponent) (power rest : List Char)
    (spelled : SpellsExponent exponent power) (apart : Apart rest) :
    readExponent? (power ++ rest) = some (exponent, rest) := by
  cases spelled with
  | none =>
      rw [List.nil_append, readExponent?]
      · rintro tail rfl
        exact (apart 'e' rfl).2 (by decide)
      · rintro tail rfl
        exact (apart 'E' rfl).2 (by decide)
  | some mark sign digits negative marked signed run =>
      have signRead := readSigned_spelled sign digits rest negative signed run fun c atHead => (apart c atHead).1
      rw [List.cons_append, List.append_assoc]
      simp only [List.mem_cons, List.not_mem_nil, or_false] at marked
      rcases marked with rfl | rfl
      · rw [readExponent?, signRead]
      · rw [readExponent?, signRead]

theorem power_apart (exponent : Option Exponent) (power rest : List Char) (spelled : SpellsExponent exponent power)
    (apart : Apart rest) : ∀ c ∈ (power ++ rest).head?, c.isDigit = false ∧ c ≠ '.' := by
  intro c atHead
  cases spelled with
  | none =>
      obtain ⟨digit, mark⟩ := apart c atHead
      exact ⟨digit, fun same => mark (by rw [same]; decide)⟩
  | some mark sign digits negative marked signed run =>
      simp only [List.mem_cons, List.not_mem_nil, or_false] at marked
      cases atHead
      rcases marked with rfl | rfl <;> exact ⟨rfl, by decide⟩

theorem point_apart (fraction : Option (List Char)) (point rest : List Char) (spelled : SpellsFraction fraction point)
    (ends : ∀ c ∈ rest.head?, c.isDigit = false) : ∀ c ∈ (point ++ rest).head?, c.isDigit = false := by
  intro c atHead
  cases spelled with
  | none => exact ends c atHead
  | some digits run =>
      cases atHead
      rfl

theorem readUnsigned_spelled (negative : Bool) (whole : List Char) (fraction : Option (List Char))
    (exponent : Option Exponent) (point power rest : List Char) (run : DigitRun whole)
    (lead : whole.head? = some '0' → whole = ['0']) (fractional : SpellsFraction fraction point)
    (exponential : SpellsExponent exponent power) (apart : Apart rest) :
    readUnsigned? negative (whole ++ (point ++ (power ++ rest))) =
      some (⟨negative, whole, fraction, exponent⟩, rest) := by
  have afterPoint := power_apart exponent power rest exponential apart
  have afterWhole := point_apart fraction point (power ++ rest) fractional fun c atHead => (afterPoint c atHead).1
  simp only [readUnsigned?, Option.bind_eq_bind, readWhole_spelled whole _ run lead afterWhole,
    readFraction_spelled fraction point _ fractional afterPoint,
    readExponent_spelled exponent power rest exponential apart, Option.bind_some, Option.pure_def]

theorem readToken_digit (first : Char) (rest : List Char) (digit : first.isDigit = true) :
    readToken? (first :: rest) = (readUnsigned? false (first :: rest)).map fun read => (.number read.1, read.2) := by
  unfold readToken?
  split
  all_goals first
    | rfl
    | (rename_i same; cases same; cases digit)

theorem readToken_number (n : Numeral) (chars rest : List Char) (spelled : SpellsNumeral n chars) (apart : Apart rest) :
    readToken? (chars ++ rest) = some (.number n, rest) := by
  cases spelled with
  | intro negative whole fraction exponent point power run lead fractional exponential =>
      have unsigned := readUnsigned_spelled negative whole fraction exponent point power rest run lead fractional
        exponential apart
      simp only [List.append_assoc]
      cases negative with
      | true =>
          show readToken? ('-' :: (whole ++ (point ++ (power ++ rest)))) = _
          rw [readToken?, unsigned]
          rfl
      | false =>
          obtain ⟨first, more, rfl⟩ := List.exists_cons_of_ne_nil run.1
          show readToken? (first :: (more ++ (point ++ (power ++ rest)))) = _
          rw [readToken_digit first _ (run.2 first List.mem_cons_self), ← List.cons_append, unsigned]
          rfl

theorem tokens_eq (chars : List Char) : tokens? chars =
    match chars.dropWhile isBlank with
    | [] => some []
    | c :: more => (readToken? (c :: more)).bind fun read => (tokens? read.2).map (read.1 :: ·) := by
  rw [tokens?]
  split
  · rename_i start
    rw [start]
  · rename_i c more start
    rw [start]
    dsimp only
    cases read : readToken? (c :: more) with
    | none => rfl
    | some found => rfl

theorem tokens_blank (blanks rest : List Char) (blank : Blank blanks) : tokens? (blanks ++ rest) = tokens? rest := by
  have known : ∀ c ∈ blanks, isBlank c = true := fun c member => (blank_char c (blank c member)).1
  rw [tokens_eq (blanks ++ rest), tokens_eq rest, List.dropWhile_append_of_pos known]

theorem readToken_solid (first : Char) (rest : List Char) (found : Token × List Char)
    (read : readToken? (first :: rest) = some found) : isBlank first = false := by
  refine Bool.eq_false_iff.mpr fun blank => ?_
  simp only [isBlank, Bool.or_eq_true, decide_eq_true_eq] at blank
  have refused : readToken? (first :: rest) = none := by
    rcases blank with ((rfl | rfl) | rfl) | rfl <;> rfl
  rw [refused] at read
  cases read

theorem tokens_word (chars rest : List Char) (token : Token) (read : readToken? chars = some (token, rest)) :
    tokens? chars = (tokens? rest).map (token :: ·) := by
  cases chars with
  | nil => cases read
  | cons first more =>
      have solid := readToken_solid first more _ read
      rw [tokens_eq, List.dropWhile_cons_of_neg (by simp [solid])]
      simp only [read, Option.bind_some]

mutual
def tokens : Json → List Token
  | .null => [.null]
  | .bool value => [.bool value]
  | .number n => [.number n]
  | .text glyphs => [.text glyphs]
  | .array items => .openArray :: (itemTokens items ++ [.closeArray])
  | .object members => .openObject :: (memberTokens members ++ [.closeObject])

def itemTokens : List Json → List Token
  | [] => []
  | [item] => tokens item
  | item :: next :: rest => tokens item ++ .comma :: itemTokens (next :: rest)

def memberTokens : List (List Glyph × Json) → List Token
  | [] => []
  | [member] => oneTokens member
  | member :: next :: rest => oneTokens member ++ .comma :: memberTokens (next :: rest)

def oneTokens : List Glyph × Json → List Token
  | (key, value) => .text key :: .colon :: tokens value
end

def Leading (front : List Token) (chars rest : List Char) : Prop :=
  tokens? (chars ++ rest) = (tokens? rest).map (front ++ ·)

theorem leading_word (token : Token) (chars rest : List Char) (read : readToken? (chars ++ rest) = some (token, rest)) :
    Leading [token] chars rest := tokens_word (chars ++ rest) rest token read

theorem leading_blank (blanks rest : List Char) (blank : Blank blanks) : Leading [] blanks rest := by
  rw [Leading, tokens_blank blanks rest blank]
  cases tokens? rest <;> rfl

theorem leading_append (first second : List Token) (chars later rest : List Char)
    (front : Leading first chars (later ++ rest)) (back : Leading second later rest) :
    Leading (first ++ second) (chars ++ later) rest := by
  rw [Leading, List.append_assoc, front, back, Option.map_map]
  exact congrArg (Option.map · (tokens? rest)) (funext fun tail => (List.append_assoc first second tail).symm)

theorem leading_text (glyphs : List Glyph) (chars rest : List Char) (spelled : SpellsText glyphs chars) :
    Leading [.text glyphs] ('\x22' :: (chars ++ ['\x22'])) rest := by
  refine leading_word _ _ _ ?_
  rw [List.cons_append, List.append_assoc, List.singleton_append, readToken?,
    readGlyphs_spelled glyphs [] chars rest spelled]
  rfl

theorem leading_padded (words : List Token) (before chars after rest : List Char) (front : Blank before)
    (inner : Leading words chars (after ++ rest)) (back : Blank after) :
    Leading words (before ++ (chars ++ after)) rest := by
  have ended := leading_append words [] chars after rest inner (leading_blank after rest back)
  rw [List.append_nil] at ended
  exact leading_append [] words before (chars ++ after) rest (leading_blank before _ front) ended

theorem leading_listed (words others : List Token) (before chars after later rest : List Char) (front : Blank before)
    (inner : Leading words chars (after ++ ',' :: (later ++ rest))) (back : Blank after)
    (listed : Leading others later rest) :
    Leading (words ++ .comma :: others) (before ++ (chars ++ (after ++ ',' :: later))) rest := by
  have first := leading_padded words before chars after (',' :: (later ++ rest)) front inner back
  have comma := leading_append [.comma] others [','] later rest (leading_word _ _ _ rfl) listed
  have whole := leading_append words (.comma :: others) _ (',' :: later) rest first comma
  simpa only [List.append_assoc] using whole

theorem apart_closing (mark : Char) (rest : List Char) (closing : mark ∈ [',', ']', '\x7d']) :
    Apart (mark :: rest) := by
  simp only [List.mem_cons, List.not_mem_nil, or_false] at closing
  rcases closing with rfl | rfl | rfl <;> exact apart_cons _ rest rfl (by decide)

mutual
theorem tokens_spelled (value : Json) (chars : List Char) (spelled : Spells value chars) (rest : List Char)
    (apart : Apart rest) : Leading (tokens value) chars rest := by
  cases spelled with
  | null => exact leading_word _ _ _ rfl
  | yes => exact leading_word _ _ _ rfl
  | no => exact leading_word _ _ _ rfl
  | number n _ numeral => exact leading_word _ _ _ (readToken_number n chars rest numeral apart)
  | text glyphs quoted text => exact leading_text glyphs quoted rest text
  | array items inner listed =>
      have closed := apart_closing ']' rest (by decide)
      exact leading_append [.openArray] _ ['['] _ rest (leading_word _ _ _ rfl)
        (leading_append (itemTokens items) [.closeArray] inner [']'] rest (items_spelled items inner listed _ closed)
          (leading_word _ _ _ rfl))
  | object members inner listed =>
      have closed := apart_closing '\x7d' rest (by decide)
      exact leading_append [.openObject] _ ['\x7b'] _ rest (leading_word _ _ _ rfl)
        (leading_append (memberTokens members) [.closeObject] inner ['\x7d'] rest
          (members_spelled members inner listed _ closed) (leading_word _ _ _ rfl))

theorem items_spelled (items : List Json) (chars : List Char) (spelled : SpellsItems items chars) (rest : List Char)
    (apart : Apart rest) : Leading (itemTokens items) chars rest := by
  cases spelled with
  | none _ blank => exact leading_blank chars rest blank
  | last item before inner after front value back =>
      have followed := apart_blank after rest back apart
      exact leading_padded (tokens item) before inner after rest front
        (tokens_spelled item inner value _ followed) back
  | more item next others before inner after later front value back listed =>
      have followed := apart_blank after _ back (apart_closing ',' (later ++ rest) (by decide))
      exact leading_listed (tokens item) (itemTokens (next :: others)) before inner after later rest front
        (tokens_spelled item inner value _ followed) back (items_spelled _ later listed rest apart)

theorem members_spelled (members : List (List Glyph × Json)) (chars : List Char) (spelled : SpellsMembers members chars)
    (rest : List Char) (apart : Apart rest) : Leading (memberTokens members) chars rest := by
  cases spelled with
  | none _ blank => exact leading_blank chars rest blank
  | last member before inner after front one back =>
      have followed := apart_blank after rest back apart
      exact leading_padded (oneTokens member) before inner after rest front
        (one_spelled member inner one _ followed) back
  | more member next others before inner after later front one back listed =>
      have followed := apart_blank after _ back (apart_closing ',' (later ++ rest) (by decide))
      exact leading_listed (oneTokens member) (memberTokens (next :: others)) before inner after later rest front
        (one_spelled member inner one _ followed) back (members_spelled _ later listed rest apart)

theorem one_spelled (member : List Glyph × Json) (chars : List Char) (spelled : SpellsMember member chars)
    (rest : List Char) (apart : Apart rest) : Leading (oneTokens member) chars rest := by
  cases spelled with
  | intro key value quoted before after inner text front back spelled =>
      have named := leading_text key quoted (before ++ ([':'] ++ after) ++ inner ++ rest) text
      have colon := leading_padded [.colon] before [':'] after (inner ++ rest) front (leading_word _ _ _ rfl) back
      have valued := leading_append [.colon] (tokens value) _ inner rest colon
        (tokens_spelled value inner spelled rest apart)
      have whole := leading_append [.text key] _ _ _ rest named valued
      simpa only [oneTokens, List.append_assoc, List.cons_append, List.nil_append] using whole
end

theorem tokens_written (document : Json) (chars : List Char) (written : Written document chars) :
    tokens? chars = some (tokens document) := by
  cases written with
  | intro before inner after front spelled back =>
      have followed := apart_blank after [] back apart_nil
      have whole := leading_padded (tokens document) before inner after [] front
        (tokens_spelled document inner spelled (after ++ []) followed) back
      rw [Leading, List.append_nil] at whole
      rw [whole, tokens_eq]
      simp

end Stencil.Json
