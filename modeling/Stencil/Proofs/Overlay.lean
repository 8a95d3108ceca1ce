import Stencil.Config.Basic
import Stencil.Proofs.PlainObjects

set_option autoImplicit false

namespace Stencil.Config

structure Schema (κ α : Type) where
  name : κ → String
  field? : List Char → Option κ
  get : α → κ → UInt32
  found : ∀ chars field, field? chars = some field ↔ chars = (name field).toList
  ext : ∀ a b, (∀ field, get a field = get b field) → a = b

inductive Word : Json → UInt32 → Prop where
  | digits (digits : List Char) (word : UInt32) : Decimal.value digits = word.toNat →
      Word (.number ⟨false, digits, none, none⟩) word

theorem word_unique (value : Json) (a b : UInt32) (first : Word value a) (second : Word value b) : a = b := by
  cases first with
  | digits digits _ same =>
      cases second with
      | digits _ _ same' => exact UInt32.toNat_inj.mp (same.symm.trans same')

theorem numeral_word (n : Json.Numeral) (word : UInt32) : n.word? = some word ↔ Word (.number n) word := by
  obtain ⟨negative, whole, fraction, exponent⟩ := n
  constructor
  · intro read
    unfold Json.Numeral.word? at read
    split at read
    · cases read
    · rename_i integer
      simp only [Bool.or_eq_true, Option.isSome_iff_ne_none, not_or, Decidable.not_not] at integer
      obtain ⟨⟨unsigned, rfl⟩, rfl⟩ := integer
      rw [Bool.not_eq_true] at unsigned
      cases unsigned
      split at read
      · rename_i small
        cases read
        exact .digits whole _ (UInt32.toNat_ofNat_of_lt' small).symm
      · cases read
  · rintro ⟨_, _, same⟩
    unfold Json.Numeral.word?
    rw [if_neg (by simp), if_pos (by rw [same]; exact word.toNat_lt), same, UInt32.ofNat_toNat]

theorem word_iff (value : Json) (word : UInt32) : value.word? = some word ↔ Word value word := by
  cases value with
  | number n => exact numeral_word n word
  | null | bool | text | array | object =>
      constructor
      · nofun
      · nofun

variable {κ α : Type} (schema : Schema κ α)

def Names (field : κ) (member : List Json.Glyph × Json) : Prop := Json.Means member.1 (schema.name field).toList

structure Fits (members : List (List Json.Glyph × Json)) : Prop where
  once : ∀ field, members.Pairwise fun a b => ¬ (Names schema field a ∧ Names schema field b)
  words : ∀ member ∈ members, ∀ field, Names schema field member → ∃ word, Word member.2 word

structure Laid (base config : α) (members : List (List Json.Glyph × Json)) : Prop where
  given : ∀ member ∈ members, ∀ field, Names schema field member → Word member.2 (schema.get config field)
  absent : ∀ field, (∀ member ∈ members, ¬ Names schema field member) → schema.get config field = schema.get base field

theorem names_field (member : List Json.Glyph × Json) (key : List Char) (field : κ) (means : Json.Means member.1 key)
    (names : Names schema field member) : schema.field? key = some field := by
  have decoded := Json.means_decoded _ _ names
  rw [Json.means_decoded _ _ means, Option.some.injEq] at decoded
  exact (schema.found key field).mpr decoded

theorem names_unique (member : List Json.Glyph × Json) (a b : κ) (first : Names schema a member)
    (second : Names schema b member) : a = b := by
  have found := names_field schema member _ b first second
  rw [(schema.found _ a).mpr rfl] at found
  exact Option.some.inj found

theorem laid_unique (base a b : α) (members : List (List Json.Glyph × Json)) (first : Laid schema base a members)
    (second : Laid schema base b members) : a = b := by
  refine schema.ext a b fun field => ?_
  by_cases named : ∃ member ∈ members, Names schema field member
  · obtain ⟨member, listed, names⟩ := named
    exact word_unique member.2 _ _ (first.given member listed field names) (second.given member listed field names)
  · have absent : ∀ member ∈ members, ¬ Names schema field member := fun member listed names =>
      named ⟨member, listed, names⟩
    rw [first.absent field absent, second.absent field absent]

theorem fits_cons (member : List Json.Glyph × Json) (members : List (List Json.Glyph × Json)) :
    Fits schema (member :: members) ↔ Fits schema members ∧ ∀ field, Names schema field member →
      (∀ other ∈ members, ¬ Names schema field other) ∧ ∃ word, Word member.2 word := by
  constructor
  · rintro ⟨once, words⟩
    refine ⟨⟨fun field => (List.pairwise_cons.mp (once field)).2, fun other listed => ?_⟩, fun field names => ⟨?_, ?_⟩⟩
    · exact words other (List.mem_cons_of_mem member listed)
    · exact fun other listed again => (List.pairwise_cons.mp (once field)).1 other listed ⟨names, again⟩
    · exact words member List.mem_cons_self field names
  · rintro ⟨⟨once, words⟩, first⟩
    refine ⟨fun field => List.pairwise_cons.mpr ⟨fun other listed both => ?_, once field⟩, ?_⟩
    · exact (first field both.1).1 other listed both.2
    · intro other listed field names
      rcases List.mem_cons.mp listed with rfl | later
      · exact (first field names).2
      · exact words other later field names

-- A reading of members: it succeeds if they fit, and its result is then the one configuration that they leave.
structure Overlays (base : α) (members : List (List Json.Glyph × Json)) (reading : Option α) : Prop where
  succeeds : (∃ config, reading = some config) ↔ Fits schema members
  result : ∀ config, reading = some config ↔ Fits schema members ∧ Laid schema base config members

theorem overlays_of (base : α) (members : List (List Json.Glyph × Json)) (reading : Option α)
    (sound : ∀ config, reading = some config → Fits schema members ∧ Laid schema base config members)
    (total : Fits schema members → ∃ config, reading = some config) : Overlays schema base members reading := by
  refine ⟨⟨?_, total⟩, fun config => ⟨sound config, ?_⟩⟩
  · rintro ⟨config, read⟩
    exact (sound config read).1
  · rintro ⟨fits, laid⟩
    obtain ⟨other, read⟩ := total fits
    rw [read, laid_unique schema base other config members (sound other read).2 laid]

theorem names_append (field : κ) (members extra : List (List Json.Glyph × Json))
    (unknown : ∀ member ∈ extra, ∀ field, ¬ Names schema field member) (member : List Json.Glyph × Json) :
    (member ∈ members ++ extra ∧ Names schema field member) ↔ (member ∈ members ∧ Names schema field member) := by
  rw [List.mem_append]
  constructor
  · rintro ⟨listed | added, names⟩
    · exact ⟨listed, names⟩
    · exact absurd names (unknown member added field)
  · rintro ⟨listed, names⟩
    exact ⟨.inl listed, names⟩

theorem fits_moved (members extra moved : List (List Json.Glyph × Json)) (permuted : moved.Perm (members ++ extra))
    (unknown : ∀ member ∈ extra, ∀ field, ¬ Names schema field member) : Fits schema moved ↔ Fits schema members := by
  have pairs : ∀ field, moved.Pairwise (fun a b => ¬ (Names schema field a ∧ Names schema field b)) ↔
      members.Pairwise fun a b => ¬ (Names schema field a ∧ Names schema field b) := by
    intro field
    rw [permuted.pairwise_iff fun both swapped => both swapped.symm, List.pairwise_append]
    refine ⟨fun parts => parts.1, fun front => ⟨front, ?_, ?_⟩⟩
    · exact List.pairwise_of_forall_mem_list fun a added b _ both => unknown a added field both.1
    · exact fun a _ b added both => unknown b added field both.2
  have named := fun field member => names_append schema field members extra unknown member
  constructor
  · rintro ⟨once, words⟩
    refine ⟨fun field => (pairs field).mp (once field), fun member listed field names => ?_⟩
    exact words member (permuted.mem_iff.mpr (List.mem_append_left extra listed)) field names
  · rintro ⟨once, words⟩
    refine ⟨fun field => (pairs field).mpr (once field), fun member listed field names => ?_⟩
    exact words member ((named field member).mp ⟨permuted.mem_iff.mp listed, names⟩).1 field names

theorem laid_moved (base config : α) (members extra moved : List (List Json.Glyph × Json))
    (permuted : moved.Perm (members ++ extra)) (unknown : ∀ member ∈ extra, ∀ field, ¬ Names schema field member) :
    Laid schema base config moved ↔ Laid schema base config members := by
  have named := fun field member => names_append schema field members extra unknown member
  constructor
  · rintro ⟨given, absent⟩
    refine ⟨fun member listed => given member (permuted.mem_iff.mpr (List.mem_append_left extra listed)), ?_⟩
    intro field missing
    refine absent field fun member listed names => ?_
    exact missing member ((named field member).mp ⟨permuted.mem_iff.mp listed, names⟩).1 names
  · rintro ⟨given, absent⟩
    refine ⟨fun member listed field names => ?_, fun field missing => absent field fun member listed => ?_⟩
    · exact given member ((named field member).mp ⟨permuted.mem_iff.mp listed, names⟩).1 field names
    · exact missing member (permuted.mem_iff.mpr (List.mem_append_left extra listed))

theorem overlays_spread (base : α) (members extra moved : List (List Json.Glyph × Json)) (reading : Option α)
    (permuted : moved.Perm (members ++ extra)) (unknown : ∀ member ∈ extra, ∀ field, ¬ Names schema field member)
    (overlays : Overlays schema base members reading) : Overlays schema base moved reading where
  succeeds := overlays.succeeds.trans (fits_moved schema members extra moved permuted unknown).symm
  result config := (overlays.result config).trans (and_congr (fits_moved schema members extra moved permuted unknown)
    (laid_moved schema base config members extra moved permuted unknown)).symm

theorem overlays_moved (base : α) (members extra moved : List (List Json.Glyph × Json)) (first second : Option α)
    (permuted : moved.Perm (members ++ extra)) (unknown : ∀ member ∈ extra, ∀ field, ¬ Names schema field member)
    (before : Overlays schema base members first) (after : Overlays schema base moved second) : second = first := by
  have spread := overlays_spread schema base members extra moved first permuted unknown before
  exact Option.ext fun config => (after.result config).trans (spread.result config).symm

end Stencil.Config
