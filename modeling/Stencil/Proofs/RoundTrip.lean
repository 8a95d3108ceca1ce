import Stencil.Proofs.ConfigReading

set_option autoImplicit false

namespace Stencil.Config

variable {ν β ς τ κ κ' α α' : Type}

theorem word_safe (word : UInt32) : Json.Numeral.Safe ⟨false, Decimal.digits word.toNat, none, none⟩ := by
  refine ⟨?_, nofun⟩
  have room : 2 ^ 32 ≤ Json.Numeral.safe := by decide +kernel
  show Decimal.value (Decimal.digits word.toNat ++ []) * 1 ≤ Json.Numeral.safe * 1
  rw [List.append_nil, Decimal.value_digits, Nat.mul_one, Nat.mul_one]
  exact Nat.le_trans (Nat.le_of_lt word.toNat_lt) room

theorem plain_tame (entries : List (String × UInt32)) : Json.Tame Json.Numeral.Safe (entries.map plainMember) := by
  refine Json.tame_flat _ _ fun member listed => ?_
  obtain ⟨entry, -, rfl⟩ := List.mem_map.mp listed
  exact ⟨⟨_, Json.means_plain _⟩, _, rfl, word_safe entry.2⟩

theorem plain_word (entry : String × UInt32) : Word (plainMember entry).2 entry.2 :=
  .digits _ _ (Decimal.value_digits entry.2.toNat)

section

variable (schema : Schema κ α)

def entriesOf (fields : List κ) (config : α) : List (String × UInt32) :=
  fields.map fun field => (schema.name field, schema.get config field)

theorem name_injective (a b : κ) (same : schema.name a = schema.name b) : a = b := by
  have found := (schema.found _ a).mpr rfl
  rw [same, (schema.found _ b).mpr rfl] at found
  exact (Option.some.inj found).symm

theorem names_plain (field : κ) (entry : String × UInt32) :
    Names schema field (plainMember entry) ↔ schema.name field = entry.1 := by
  constructor
  · intro names
    have found := names_field schema (plainMember entry) _ field (Json.means_plain entry.1.toList) names
    exact String.toList_inj.mp ((schema.found _ field).mp found).symm
  · intro same
    rw [Names, same]
    exact Json.means_plain entry.1.toList

-- What one kind of configuration wrote, read as another kind: both agree where they share a name, and a field of a name
-- that was not written keeps the word of the base.
theorem entries_read (writer : Schema κ' α') (fields : List κ') (source : α') (base config : α) (reading : Option α)
    (overlays : Overlays schema base ((entriesOf writer fields source).map plainMember) reading)
    (distinct : (fields.map writer.name).Nodup)
    (shared : ∀ field known, schema.name field = writer.name known → schema.get config field = writer.get source known)
    (absent : ∀ field, schema.name field ∉ fields.map writer.name → schema.get config field = schema.get base field) :
    reading = some config := by
  rw [entriesOf, List.map_map] at overlays
  refine (overlays.result config).mpr ⟨⟨fun field => ?_, ?_⟩, ⟨?_, fun field missing => absent field ?_⟩⟩
  · refine List.pairwise_map.mpr ((List.pairwise_map.mp distinct).imp fun different both => different ?_)
    exact ((names_plain schema field _).mp both.1).symm.trans ((names_plain schema field _).mp both.2)
  · intro member listed field names
    obtain ⟨known, -, rfl⟩ := List.mem_map.mp listed
    exact ⟨_, plain_word _⟩
  · intro member listed field names
    obtain ⟨known, -, rfl⟩ := List.mem_map.mp listed
    rw [shared field known ((names_plain schema field _).mp names)]
    exact plain_word _
  · intro named
    obtain ⟨known, member, same⟩ := List.mem_map.mp named
    exact missing _ (List.mem_map_of_mem member) ((names_plain schema field _).mpr same.symm)

end

theorem bare_name (field : CompilerConfig.Field) : Json.Bare (CompilerConfig.schema.name field).toList := by
  cases field with
  | updateThreshold => decide
  | sizer field => cases field <;> decide

theorem sizer_listed (field : SizerConfig.Field) : field ∈ SizerConfig.Field.all := by
  cases field <;> decide

theorem compiler_listed (field : CompilerConfig.Field) : field ∈ CompilerConfig.Field.all := by
  cases field with
  | updateThreshold => exact List.mem_cons_self
  | sizer field => exact List.mem_cons_of_mem _ (List.mem_map_of_mem (sizer_listed field))

section

variable {library : Library ν β} {derived : Derived ν β ς τ}
variable {held : ς → SizerConfig.Field → Option UInt32} {own : τ → Unit → Option UInt32}
variable {left : τ → List (List Char × β)}
variable (lawful : library.Lawful) (sound : derived.Lawful library held own left)
include lawful sound

theorem sizer_written (s : SizerConfig) :
    Json.Written (.object ((entriesOf SizerConfig.schema SizerConfig.Field.all s).map plainMember))
      (s.write library derived).toList := by
  rw [SizerConfig.write, sound.sizer_entries]
  refine lawful.writes _ fun entry listed => ?_
  obtain ⟨field, -, rfl⟩ := List.mem_map.mp listed
  exact bare_name (.sizer field)

theorem compiler_written (c : CompilerConfig) :
    Json.Written (.object ((entriesOf CompilerConfig.schema CompilerConfig.Field.all c).map plainMember))
      (c.write library derived).toList := by
  rw [CompilerConfig.write, sound.compiler_entries, sound.sizer_entries]
  refine lawful.writes (entriesOf CompilerConfig.schema CompilerConfig.Field.all c) fun entry listed => ?_
  obtain ⟨field, -, rfl⟩ := List.mem_map.mp listed
  exact bare_name field

end

-- The text of a configuration is read back, as itself and as the other kind, which takes from it the fields it knows.
theorem texts_read_back (library : Library ν β) (lawful : library.Lawful) (derived : Derived ν β ς τ)
    (held : ς → SizerConfig.Field → Option UInt32) (own : τ → Unit → Option UInt32) (left : τ → List (List Char × β))
    (sound : derived.Lawful library held own left) (s : SizerConfig) (c : CompilerConfig) :
    SizerConfig.read library derived (s.write library derived) = some s ∧
      CompilerConfig.read library derived (c.write library derived) = some c ∧
      SizerConfig.read library derived (c.write library derived) = some c.sizer ∧
      CompilerConfig.read library derived (s.write library derived) =
        some { CompilerConfig.standard with sizer := s } := by
  have fromSizer := plain_tame (entriesOf SizerConfig.schema SizerConfig.Field.all s)
  have fromCompiler := plain_tame (entriesOf CompilerConfig.schema CompilerConfig.Field.all c)
  have sizerText := sizer_written lawful sound s
  have compilerText := compiler_written lawful sound c
  have sizerNames : (SizerConfig.Field.all.map SizerConfig.schema.name).Nodup := by decide
  have compilerNames : (CompilerConfig.Field.all.map CompilerConfig.schema.name).Nodup := by decide
  refine ⟨?_, ?_, ?_, ?_⟩
  · refine entries_read SizerConfig.schema SizerConfig.schema _ s .standard s _
      (sizer_overlays lawful sound _ _ sizerText (fromSizer.legible.keys _ .self)) sizerNames ?_ ?_
    · intro field known same
      rw [name_injective SizerConfig.schema field known same]
    · exact fun field missing => absurd (List.mem_map_of_mem (sizer_listed field)) missing
  · refine entries_read CompilerConfig.schema CompilerConfig.schema _ c .standard c _
      (compiler_overlays lawful sound _ _ compilerText fromCompiler) compilerNames ?_ ?_
    · intro field known same
      rw [name_injective CompilerConfig.schema field known same]
    · exact fun field missing => absurd (List.mem_map_of_mem (compiler_listed field)) missing
  · refine entries_read SizerConfig.schema CompilerConfig.schema _ c .standard c.sizer _
      (sizer_overlays lawful sound _ _ compilerText (fromCompiler.legible.keys _ .self)) compilerNames ?_ ?_
    · intro field known same
      rw [← name_injective CompilerConfig.schema (.sizer field) known same]
      rfl
    · exact fun field missing =>
        absurd (List.mem_map_of_mem (f := CompilerConfig.schema.name) (compiler_listed (.sizer field))) missing
  · refine entries_read CompilerConfig.schema SizerConfig.schema _ s .standard _ _
      (compiler_overlays lawful sound _ _ sizerText fromSizer) sizerNames ?_ ?_
    · intro field known same
      rw [name_injective CompilerConfig.schema field (.sizer known) same]
      rfl
    · intro field missing
      cases field with
      | updateThreshold => rfl
      | sizer field => exact absurd (List.mem_map_of_mem (f := SizerConfig.schema.name) (sizer_listed field)) missing

theorem extreme_texts_read_back :
    json.Lawful ∧ derived.Lawful json id (fun state _ => state.1) Prod.snd ∧
      CompilerConfig.text ⟨10, ⟨3, 0, 4294967295⟩⟩ =
        "\x7b\x22update_threshold_pct\x22:10,\x22max_samples\x22:3,\x22variance_threshold_pct\x22:0," ++
          "\x22growth_factor_pct\x22:4294967295\x7d" ∧
      SizerConfig.ofText? (CompilerConfig.text ⟨10, ⟨3, 0, 4294967295⟩⟩) = some ⟨3, 0, 4294967295⟩ ∧
      CompilerConfig.ofText? (SizerConfig.text ⟨7, 8, 9⟩) = some ⟨15, ⟨7, 8, 9⟩⟩ := by
  obtain ⟨_, _, inner, outer⟩ :=
    texts_read_back json json_lawful derived _ _ _ derived_lawful ⟨7, 8, 9⟩ ⟨10, ⟨3, 0, 4294967295⟩⟩
  exact ⟨json_lawful, derived_lawful, by decide +kernel, inner, outer⟩

end Stencil.Config
