import Stencil.Config.Text
import Stencil.Proofs.Flattened
import Stencil.Proofs.JsonReading
import Stencil.Proofs.Magnitude

set_option autoImplicit false

namespace Stencil.Config

variable {ν β ς τ κ : Type}

def Keyed (members : List (List Json.Glyph × Json)) : Prop := ∀ member ∈ members, ∃ key, Json.Means member.1 key

-- Documented behaviour of a JSON reader: keys are unescaped, a word is a whole number of 32 bits, any value can be
-- skipped, and one can be set aside that is not deep, means something and has its numbers in range.
structure Library.Shows (library : Library ν β) (member : List Json.Glyph × Json) (entry : List Char × ν) : Prop where
  key : Json.Means member.1 entry.1
  word : ∀ given, library.word entry.2 = some given ↔ Word member.2 given
  skipped : library.skip entry.2 = true
  kept : Json.Legible Json.Numeral.Safe member.2 → member.2.depth ≤ 100 → Kept library entry.2

def plainMember (entry : String × UInt32) : List Json.Glyph × Json :=
  (entry.1.toList.map .plain, .number ⟨false, Decimal.digits entry.2.toNat, none, none⟩)

structure Library.Lawful (library : Library ν β) : Prop where
  opens : ∀ members text, Json.Written (.object members) text.toList → Keyed members →
    ∃ entries, library.open? text = some (.object entries) ∧ List.Forall₂ library.Shows members entries
  writes : ∀ entries, (∀ entry ∈ entries, Json.Bare entry.1.toList) →
    Json.Written (.object (entries.map plainMember)) (library.compact entries).toList

-- Documented behaviour of derived code: fields are written in their order, those of a flattened record among them, and
-- are read as `Collects`, `Fills` and `Flattens` say.
structure Derived.Lawful (derived : Derived ν β ς τ) (library : Library ν β)
    (held : ς → SizerConfig.Field → Option UInt32) (own : τ → Unit → Option UInt32) (left : τ → List (List Char × β)) :
    Prop where
  sizer_collects : Collects SizerConfig.schema.field? library.word (library.skip · = true) derived.sizer held
  sizer_fills : Fills SizerConfig.schema .standard derived.sizer held
  inner_collects : Collects SizerConfig.schema.field? library.again (fun _ => True) derived.inner held
  inner_fills : Fills SizerConfig.schema .standard derived.inner held
  flattens : Flattens library derived.inner derived.compiler own left
  sizer_entries : ∀ config, derived.sizerEntries config =
    SizerConfig.Field.all.map fun field => (field.name, config.get field)
  compiler_entries : ∀ config, derived.compilerEntries config =
    (CompilerConfig.Field.updateThreshold.name, config.updateThreshold) :: derived.sizerEntries config.sizer

theorem digits_filled (n : Nat) : Decimal.digits n ≠ [] := by
  rw [Decimal.digits]
  split
  · exact List.cons_ne_nil _ _
  · exact List.append_ne_nil_of_right_ne_nil _ (List.cons_ne_nil _ _)

theorem digits_lead (n : Nat) (zero : (Decimal.digits n).head? = some '0') : Decimal.digits n = ['0'] := by
  induction n using Nat.strongRecOn with
  | ind n ih =>
      by_cases small : n < 10
      · rw [Decimal.digits, if_pos small] at zero ⊢
        rw [Option.some.inj zero]
      · obtain ⟨first, more, split⟩ := List.exists_cons_of_ne_nil (digits_filled (n / 10))
        rw [Decimal.digits, if_neg small, split, List.cons_append, List.head?_cons, ← List.head?_cons, ← split] at zero
        have front := congrArg Decimal.value (ih (n / 10) (by omega) zero)
        rw [Decimal.value_digits] at front
        have least : 1 ≤ n / 10 := by omega
        rw [front] at least
        exact absurd least (by decide)

theorem word_spelled (word : UInt32) :
    Json.SpellsNumeral ⟨false, Decimal.digits word.toNat, none, none⟩ (Decimal.digits word.toNat) := by
  have spelled := Json.SpellsNumeral.intro false (Decimal.digits word.toNat) none none [] []
    ⟨digits_filled _, Decimal.digits_all_isDigit _⟩ (digits_lead _) .none .none
  simpa using spelled

theorem members_spelled (entries : List (String × UInt32)) (bare : ∀ entry ∈ entries, Json.Bare entry.1.toList) :
    Json.SpellsMembers (entries.map plainMember)
      (joinMembers (entries.map fun entry => memberChars entry.1 entry.2)) := by
  induction entries with
  | nil => exact .none [] Json.blank_nil
  | cons entry rest ih =>
      obtain ⟨plain, later⟩ := List.forall_mem_cons.mp bare
      have first := Json.member_tight entry.1.toList _ _ plain (.number _ _ (word_spelled entry.2))
      cases rest with
      | nil => exact Json.members_one _ _ first
      | cons next more => exact Json.members_next _ _ _ _ _ first (ih later)

theorem json_shows (member : List Json.Glyph × Json) (key : List Char) (means : Json.Means member.1 key)
    (chars : List Char) (spelled : Json.Spells member.2 chars) : json.Shows member (key, member.2) where
  key := means
  word := word_iff member.2
  skipped := rfl
  kept legible shallow := by
    have finite : Json.Legible (Json.Numeral.finite · = true) member.2 := by
      refine Json.legible_weaken _ _ member.2 legible fun n inside safe => ?_
      obtain ⟨own, number⟩ := Json.spells_inside _ _ inside chars spelled
      cases number with
      | number _ _ written => exact Json.Numeral.finite_spelled n own written safe
    have under : member.2.depth + 1 < Json.depthLimit := by
      rw [Json.depthLimit]
      omega
    have keepable : member.2.keepable = true := by
      rw [Json.keepable, Json.readable_legible _ member.2 finite, decide_eq_true under, Bool.and_self]
    exact ⟨member.2, if_pos keepable, rfl⟩

theorem json_opened (members : List (List Json.Glyph × Json)) (keyed : Keyed members)
    (spelled : ∀ member ∈ members, ∃ chars, Json.Spells member.2 chars) :
    ∃ entries, opened? (.object members) = some (.object entries) ∧ List.Forall₂ json.Shows members entries := by
  suffices ∃ entries, (members.mapM fun member => (Json.decodeGlyphs member.1).map (·, member.2)) = some entries ∧
      List.Forall₂ json.Shows members entries by
    obtain ⟨entries, decoded, shown⟩ := this
    exact ⟨entries, by rw [opened?, decoded, Option.map_some], shown⟩
  induction members with
  | nil => exact ⟨[], rfl, .nil⟩
  | cons member rest ih =>
      obtain ⟨⟨key, means⟩, keys⟩ := List.forall_mem_cons.mp keyed
      obtain ⟨⟨chars, first⟩, others⟩ := List.forall_mem_cons.mp spelled
      obtain ⟨entries, decoded, shown⟩ := ih keys others
      refine ⟨(key, member.2) :: entries, ?_, .cons (json_shows member key means chars first) shown⟩
      rw [List.mapM_cons, Json.means_decoded _ _ means, decoded]
      rfl

theorem json_opens (members : List (List Json.Glyph × Json)) (text : String)
    (written : Json.Written (.object members) text.toList) : json.open? text = opened? (.object members) := by
  simp only [json, Json.ofChars_written _ _ written, Option.bind_some]

theorem json_lawful : json.Lawful where
  opens members text written keyed := by
    rw [json_opens members text written]
    exact json_opened members keyed (Json.written_members members _ written)
  writes entries bare := by
    rw [json, String.toList_ofList]
    exact Json.written_alone _ _ (.object _ _ (members_spelled entries bare))

theorem recordVisitor_collects [DecidableEq κ] {α : Type} (field? : List Char → Option κ) (word : ν → Option UInt32)
    (skip : ν → Bool) (finish : (κ → Option UInt32) → α) :
    Collects field? word (skip · = true) (recordVisitor field? word skip finish) id where
  starts _ := rfl
  passes key value state unknown skipped := ⟨state, by simp only [recordVisitor, unknown, skipped, if_true], rfl⟩
  takes key field value given state known vacant read := by
    refine ⟨fun other => if other = field then some given else state other, ?_, if_pos rfl,
      fun other different => if_neg different⟩
    simp only [recordVisitor, known, id] at vacant ⊢
    simp only [vacant, read]
  repeated key field value state known full := by
    obtain ⟨given, stored⟩ := Option.ne_none_iff_exists'.mp full
    simp only [recordVisitor, known, id] at stored ⊢
    simp only [stored]
  refused key field value state known unread := by
    simp only [recordVisitor, known, unread]
    split
    · contradiction
    · rfl

theorem sizerVisitor_fills (word : ν → Option UInt32) (skip : ν → Bool) :
    Fills SizerConfig.schema .standard (sizerVisitor word skip) id where
  ends _ := ⟨_, rfl⟩
  filled state config finished field := by
    cases finished
    cases field <;> rfl

theorem sizerVisitor_collects (word : ν → Option UInt32) (skip : ν → Bool) :
    Collects SizerConfig.schema.field? word (skip · = true) (sizerVisitor word skip) id :=
  recordVisitor_collects _ _ _ _

section Compiler

variable (library : Library ν β) (inner : Visitor ς β SizerConfig)
variable {key : List Char} {value : ν} {state : Option UInt32 × List (List Char × β)}

theorem compilerVisitor_own (known : threshold.field? key = some ()) :
    (compilerVisitor library inner).visit key value state =
      match state.1, library.word value with
      | none, some given => some (some given, state.2)
      | _, _ => none := if_pos ((threshold.found key ()).mp known)

theorem compilerVisitor_other (unknown : threshold.field? key = none) :
    (compilerVisitor library inner).visit key value state =
      (library.aside value).map fun kept => (state.1, state.2 ++ [(key, kept)]) := by
  refine if_neg fun same => ?_
  rw [(threshold.found key ()).mpr same] at unknown
  cases unknown

theorem compilerVisitor_collects :
    Collects threshold.field? library.word (fun value => (library.aside value).isSome = true)
      (compilerVisitor library inner) fun state _ => state.1 where
  starts _ := rfl
  passes key value state unknown kept := by
    obtain ⟨kept, aside⟩ := Option.isSome_iff_exists.mp kept
    refine ⟨(state.1, state.2 ++ [(key, kept)]), ?_, rfl⟩
    rw [compilerVisitor_other library inner unknown, aside, Option.map_some]
  takes key field value given state known vacant read := by
    refine ⟨(some given, state.2), ?_, rfl, fun _ different => absurd rfl different⟩
    rw [compilerVisitor_own library inner known, vacant, read]
  repeated key field value state known full := by
    obtain ⟨given, stored⟩ := Option.ne_none_iff_exists'.mp full
    rw [compilerVisitor_own library inner known, stored]
  refused key field value state known unread := by
    rw [compilerVisitor_own library inner known, unread]
    cases state.1 <;> rfl

theorem compilerVisitor_flattens :
    Flattens library inner (compilerVisitor library inner) (fun state _ => state.1) Prod.snd where
  collects := compilerVisitor_collects library inner
  empty := rfl
  known key value state next known visited := by
    rw [compilerVisitor_own library inner known] at visited
    split at visited
    · cases visited
      rfl
    · cases visited
  unknown key value kept state next unknown aside visited := by
    rw [compilerVisitor_other library inner unknown, aside, Option.map_some, Option.some.injEq] at visited
    rw [← visited]
  finished _ := rfl

end Compiler

theorem derived_lawful : derived.Lawful json id (fun state _ => state.1) Prod.snd where
  sizer_collects := sizerVisitor_collects _ _
  sizer_fills := sizerVisitor_fills _ _
  inner_collects := by
    have collects := sizerVisitor_collects json.again fun _ => true
    simp only at collects
    exact collects
  inner_fills := sizerVisitor_fills _ _
  flattens := compilerVisitor_flattens _ _
  sizer_entries _ := rfl
  compiler_entries _ := rfl

end Stencil.Config
