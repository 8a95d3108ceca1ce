import Mathlib.Data.List.Basic
import Stencil.Proofs.Escaping

set_option autoImplicit false

namespace Stencil

def entities : List (Char × List Char) :=
  [('&', ['&', 'a', 'm', 'p', ';']), ('<', ['&', 'l', 't', ';']), ('>', ['&', 'g', 't', ';']),
    ('\x22', ['&', 'q', 'u', 'o', 't', ';']), ('\x27', ['&', '#', '3', '9', ';'])]

def written (char : Char) : List Char := (entities.lookup char).getD [char]

def escaped (text : String) : String := String.ofList (text.toList.flatMap written)

theorem utf8_ofList (chars : List Char) : utf8 (String.ofList chars) = encode chars := by
  rw [utf8, String.toList_ofList]

theorem utf8_toByteArray (text : String) : (utf8 text).toByteArray = text.toByteArray :=
  String.utf8Encode_toList

theorem utf8_injective : Function.Injective utf8 := by
  intro text other same
  rw [← String.toByteArray_inj, ← utf8_toByteArray, same, utf8_toByteArray]

theorem high_byte (value bound base : Nat) (high : 128 ≤ base) (fits : base + bound ≤ 256) (some_bits : 0 < bound) :
    128 ≤ (UInt8.ofNat (value % bound + base)).toNat := by
  have low := Nat.mod_lt value some_bits
  rw [UInt8.toNat_ofNat', Nat.mod_eq_of_lt (by omega)]
  omega

-- In the encoding of a character a byte below 128 stands for itself.
theorem encoded_byte (char : Char) (byte : UInt8) (member : byte ∈ String.utf8EncodeChar char) :
    byte.toNat = char.toNat ∨ 128 ≤ byte.toNat := by
  rw [String.utf8EncodeChar] at member
  simp only [apply_ite (byte ∈ ·), List.mem_cons, List.not_mem_nil, or_false] at member
  split at member
  · rename_i low
    have known : char.toNat = char.val.toNat := rfl
    rw [member, known, UInt8.toNat_ofNat', Nat.mod_eq_of_lt (by omega)]
    exact Or.inl rfl
  · right
    split at member
    · rcases member with rfl | rfl
      · exact high_byte _ 32 192 (by decide) (by decide) (by decide)
      · exact high_byte _ 64 128 (by decide) (by decide) (by decide)
    · split at member
      · rcases member with rfl | rfl | rfl
        · exact high_byte _ 16 224 (by decide) (by decide) (by decide)
        · exact high_byte _ 64 128 (by decide) (by decide) (by decide)
        · exact high_byte _ 64 128 (by decide) (by decide) (by decide)
      · rcases member with rfl | rfl | rfl | rfl
        · exact high_byte _ 8 240 (by decide) (by decide) (by decide)
        · exact high_byte _ 64 128 (by decide) (by decide) (by decide)
        · exact high_byte _ 64 128 (by decide) (by decide) (by decide)
        · exact high_byte _ 64 128 (by decide) (by decide) (by decide)

theorem written_other (char : Char) (other : ∀ entry ∈ entities, char ≠ entry.1) : written char = [char] := by
  rw [written, List.lookup_eq_none_iff.mpr, Option.getD_none]
  exact fun entry member => bne_iff_ne.mpr (other entry member)

theorem marked_entity (byte : UInt8) (marked : isMarked byte = true) :
    ∃ entry ∈ entities, byte.toNat = entry.1.toNat ∧ encode [entry.1] = [byte] ∧ replacement byte = encode entry.2 := by
  simp only [isMarked, isBracket, isQuote, Bool.or_eq_true, beq_iff_eq] at marked
  rcases marked with ((rfl | rfl) | rfl) | (rfl | rfl) <;> decide

theorem entity_low (entry : Char × List Char) (member : entry ∈ entities) : entry.1.toNat < 128 := by
  have low : ∀ entry ∈ entities, entry.1.toNat < 128 := by decide
  exact low entry member

theorem replaced_entity (entry : Char × List Char) (member : entry ∈ entities) :
    (String.utf8EncodeChar entry.1).flatMap replacement = encode (written entry.1) := by
  have each : ∀ entry ∈ entities, (String.utf8EncodeChar entry.1).flatMap replacement = encode (written entry.1) := by
    decide
  exact each entry member

theorem replaced_other (char : Char) (other : ∀ entry ∈ entities, char ≠ entry.1) :
    (String.utf8EncodeChar char).flatMap replacement = encode (written char) := by
  have kept : ∀ byte ∈ String.utf8EncodeChar char, replacement byte = [byte] := by
    intro byte member
    refine replacement_unmarked byte fun marked => ?_
    obtain ⟨entry, listed, same, _⟩ := marked_entity byte marked
    rcases encoded_byte char byte member with alone | high
    · exact other entry listed (Char.toNat_inj.mp (alone.symm.trans same))
    · have low := entity_low entry listed
      omega
  rw [written_other char other, List.flatMap_congr kept, List.flatMap_singleton']
  exact (List.append_nil _).symm

theorem replaced_char (char : Char) : (String.utf8EncodeChar char).flatMap replacement = encode (written char) := by
  by_cases named : ∃ entry ∈ entities, char = entry.1
  · obtain ⟨entry, listed, rfl⟩ := named
    exact replaced_entity entry listed
  · exact replaced_other char fun entry listed same => named ⟨entry, listed, same⟩

theorem replaced_encode (chars : List Char) : (encode chars).flatMap replacement = encode (chars.flatMap written) := by
  induction chars with
  | nil => rfl
  | cons char rest ih => rw [encode_cons, List.flatMap_append, ih, replaced_char, List.flatMap_cons, encode_append]

theorem replaced_utf8 (text : String) : (utf8 text).flatMap replacement = utf8 (escaped text) := by
  rw [escaped, utf8_ofList]
  exact replaced_encode text.toList

end Stencil
