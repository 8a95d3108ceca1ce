import Mathlib.Data.List.Forall2
import Stencil.Config.Library
import Stencil.Proofs.Overlay

set_option autoImplicit false

namespace Stencil.Config

variable {ν ς κ α δ : Type}

structure Shown (word : ν → Option UInt32) (Passed : ν → Prop) (member : List Json.Glyph × Json)
    (entry : List Char × ν) : Prop where
  key : Json.Means member.1 entry.1
  word : ∀ given, word entry.2 = some given ↔ Word member.2 given
  passed : Passed entry.2

-- Documented behaviour: an entry of an unknown key is passed by, one of a known key must be its first and hold a word.
structure Collects (field? : List Char → Option κ) (word : ν → Option UInt32) (Passed : ν → Prop)
    (visitor : Visitor ς ν α) (held : ς → κ → Option UInt32) : Prop where
  starts : ∀ field, held visitor.start field = none
  passes : ∀ key value state, field? key = none → Passed value →
    ∃ next, visitor.visit key value state = some next ∧ held next = held state
  takes : ∀ key field value given state, field? key = some field → held state field = none → word value = some given →
    ∃ next, visitor.visit key value state = some next ∧ held next field = some given ∧
      ∀ other, other ≠ field → held next other = held state other
  repeated : ∀ key field value state, field? key = some field → held state field ≠ none →
    visitor.visit key value state = none
  refused : ∀ key field value state, field? key = some field → word value = none → visitor.visit key value state = none

-- Documented behaviour of a default for the whole record: it fills the fields that are missing.
structure Fills (schema : Schema κ α) (base : α) (visitor : Visitor ς ν α) (held : ς → κ → Option UInt32) : Prop where
  ends : ∀ state, ∃ config, visitor.finish state = some config
  filled : ∀ state config, visitor.finish state = some config →
    ∀ field, schema.get config field = (held state field).getD (schema.get base field)

structure Collected (schema : Schema κ α) (members : List (List Json.Glyph × Json)) (before after : κ → Option UInt32) :
    Prop where
  given : ∀ member ∈ members, ∀ field, Names schema field member → ∃ word, after field = some word ∧ Word member.2 word
  absent : ∀ field, (∀ member ∈ members, ¬ Names schema field member) → after field = before field

section Run

variable {schema : Schema κ α} {word : ν → Option UInt32} {Passed : ν → Prop} {visitor : Visitor ς ν δ}
variable {held : ς → κ → Option UInt32} {members : List (List Json.Glyph × Json)} {entries : List (List Char × ν)}

theorem shown_field {member : List Json.Glyph × Json} {entry : List Char × ν} (shown : Shown word Passed member entry)
    (field : κ) : Names schema field member ↔ schema.field? entry.1 = some field := by
  constructor
  · exact names_field schema member entry.1 field shown.key
  · intro found
    have key := shown.key
    rw [(schema.found entry.1 field).mp found] at key
    exact key

theorem visit_cases (collects : Collects schema.field? word Passed visitor held) {member : List Json.Glyph × Json}
    {entry : List Char × ν} (shown : Shown word Passed member entry) (state : ς) :
    ((∀ field, ¬ Names schema field member) ∧
      ∃ next, visitor.visit entry.1 entry.2 state = some next ∧ held next = held state) ∨
    (∃ field given, Names schema field member ∧ held state field = none ∧ Word member.2 given ∧
      ∃ next, visitor.visit entry.1 entry.2 state = some next ∧ held next field = some given ∧
        ∀ other, other ≠ field → held next other = held state other) ∨
    ∃ field, Names schema field member ∧ (held state field ≠ none ∨ ∀ given, ¬ Word member.2 given) ∧
      visitor.visit entry.1 entry.2 state = none := by
  cases found : schema.field? entry.1 with
  | none =>
      refine .inl ⟨fun field names => ?_, collects.passes entry.1 entry.2 state found shown.passed⟩
      rw [(shown_field shown field).mp names] at found
      cases found
  | some field =>
      have names := (shown_field shown field).mpr found
      by_cases again : held state field = none
      case neg =>
        exact .inr (.inr ⟨field, names, .inl again, collects.repeated _ field _ state found again⟩)
      case pos =>
        cases read : word entry.2 with
        | none =>
            refine .inr (.inr ⟨field, names, .inr fun given holds => ?_, collects.refused _ field _ state found read⟩)
            rw [(shown.word given).mpr holds] at read
            cases read
        | some given =>
            exact .inr (.inl ⟨field, given, names, again, (shown.word given).mp read,
              collects.takes _ field _ given state found again read⟩)

theorem run_sound (schema : Schema κ α) (collects : Collects schema.field? word Passed visitor held)
    (shown : List.Forall₂ (Shown word Passed) members entries) (state final : ς)
    (ran : visitor.run entries state = some final) :
    Fits schema members ∧ (∀ member ∈ members, ∀ field, held state field ≠ none → ¬ Names schema field member) ∧
      Collected schema members (held state) (held final) := by
  -- That the fields which hold something are not named again is what carries the induction.
  induction shown generalizing state with
  | nil =>
      cases ran
      exact ⟨⟨fun _ => .nil, nofun⟩, nofun, ⟨nofun, fun _ _ => rfl⟩⟩
  | @cons member entry members entries first others ih =>
      rw [Visitor.run] at ran
      rcases visit_cases collects first state with ⟨unknown, next, visited, same⟩ |
        ⟨field, given, names, vacant, holds, next, visited, stored, kept⟩ | ⟨_, _, _, stuck⟩
      · rw [visited, Option.bind_some] at ran
        obtain ⟨fits, fresh, collected⟩ := ih next ran
        rw [same] at fresh collected
        refine ⟨(fits_cons schema member members).mpr ⟨fits, fun field names => absurd names (unknown field)⟩, ?_, ?_, ?_⟩
        · exact List.forall_mem_cons.mpr ⟨fun field _ => unknown field, fresh⟩
        · exact List.forall_mem_cons.mpr ⟨fun field names => absurd names (unknown field), collected.given⟩
        · exact fun field absent => collected.absent field fun other listed =>
            absent other (List.mem_cons_of_mem member listed)
      · rw [visited, Option.bind_some] at ran
        obtain ⟨fits, fresh, collected⟩ := ih next ran
        have alone : ∀ other ∈ members, ¬ Names schema field other := fun other listed =>
          fresh other listed field (stored ▸ Option.some_ne_none given)
        refine ⟨(fits_cons schema member members).mpr ⟨fits, fun named names' => ?_⟩, ?_, ?_, ?_⟩
        · cases names_unique schema member named field names' names
          exact ⟨alone, given, holds⟩
        · refine List.forall_mem_cons.mpr ⟨fun named full names' => full ?_, fun other listed named full => ?_⟩
          · cases names_unique schema member named field names' names
            exact vacant
          · refine fresh other listed named ?_
            rw [kept named fun same => full (same ▸ vacant)]
            exact full
        · refine List.forall_mem_cons.mpr ⟨fun named names' => ?_, collected.given⟩
          cases names_unique schema member named field names' names
          exact ⟨given, (collected.absent field alone).trans stored, holds⟩
        · intro named absent
          have different : named ≠ field := fun same => absent member List.mem_cons_self (same ▸ names)
          rw [collected.absent named fun other listed => absent other (List.mem_cons_of_mem member listed)]
          exact kept named different
      · rw [stuck] at ran
        cases ran

theorem run_total (schema : Schema κ α) (collects : Collects schema.field? word Passed visitor held)
    (shown : List.Forall₂ (Shown word Passed) members entries) (state : ς) (fits : Fits schema members)
    (fresh : ∀ member ∈ members, ∀ field, held state field ≠ none → ¬ Names schema field member) :
    ∃ final, visitor.run entries state = some final := by
  induction shown generalizing state with
  | nil => exact ⟨state, rfl⟩
  | @cons member entry members entries first others ih =>
      obtain ⟨rest, now⟩ := (fits_cons schema member members).mp fits
      obtain ⟨clear, later⟩ := List.forall_mem_cons.mp fresh
      rcases visit_cases collects first state with ⟨_, next, visited, same⟩ |
        ⟨field, given, names, _, _, next, visited, stored, kept⟩ | ⟨field, names, cause, _⟩
      · rw [Visitor.run, visited, Option.bind_some]
        exact ih next rest (same.symm ▸ later)
      · rw [Visitor.run, visited, Option.bind_some]
        refine ih next rest fun other listed named full names' => ?_
        by_cases chosen : named = field
        · exact (now field names).1 other listed (chosen ▸ names')
        · rw [kept named chosen] at full
          exact later other listed named full names'
      · obtain ⟨_, given, holds⟩ := now field names
        rcases cause with full | refused
        · exact absurd names (clear field full)
        · exact absurd holds (refused given)

theorem fresh_start (schema : Schema κ α) (collects : Collects schema.field? word Passed visitor held) :
    ∀ member ∈ members, ∀ field, held visitor.start field ≠ none → ¬ Names schema field member :=
  fun _ _ field full => absurd (collects.starts field) full

theorem laid_collected (base config : α) (before after : κ → Option UInt32)
    (collected : Collected schema members before after) (nothing : ∀ field, before field = none)
    (filled : ∀ field, schema.get config field = (after field).getD (schema.get base field)) :
    Laid schema base config members where
  given member listed field names := by
    obtain ⟨word, stored, holds⟩ := collected.given member listed field names
    rw [filled, stored, Option.getD_some]
    exact holds
  absent field absent := by
    rw [filled, collected.absent field absent, nothing, Option.getD_none]

theorem read_overlays {visitor : Visitor ς ν α} (base : α) (collects : Collects schema.field? word Passed visitor held)
    (fills : Fills schema base visitor held) (shown : List.Forall₂ (Shown word Passed) members entries) :
    Overlays schema base members (visitor.read entries) := by
  refine overlays_of schema base members _ ?sound ?total
  case sound =>
    intro config read
    obtain ⟨final, ran, finished⟩ := Option.bind_eq_some_iff.mp read
    obtain ⟨fits, _, collected⟩ := run_sound schema collects shown visitor.start final ran
    exact ⟨fits, laid_collected base config _ _ collected collects.starts (fills.filled final config finished)⟩
  case total =>
    intro fits
    obtain ⟨final, ran⟩ := run_total schema collects shown visitor.start fits (fresh_start schema collects)
    obtain ⟨config, finished⟩ := fills.ends final
    exact ⟨config, Option.bind_eq_some_iff.mpr ⟨final, ran, finished⟩⟩

end Run

end Stencil.Config
