import Stencil.Proofs.LibraryLaws

set_option autoImplicit false

namespace Stencil.Config

variable {ν β ς τ κ α : Type}

-- A reading of texts lays the members of admitted objects over a configuration, however they are written.
structure LaysOver (schema : Schema κ α) (base : α)
    (Admits : List (List Json.Glyph × Json) → Prop) (reading : String → Option α) : Prop where
  overlays : ∀ members text, Json.Written (.object members) text.toList → Admits members →
    Overlays schema base members (reading text)
  moved : ∀ members extra rearranged text other, Json.Written (.object members) text.toList → Admits members →
    Json.Written (.object rearranged) other.toList → Admits rearranged → rearranged.Perm (members ++ extra) →
    (∀ member ∈ extra, ∀ field, ¬ Names schema field member) → reading other = reading text

theorem lays_over (schema : Schema κ α) (base : α)
    (Admits : List (List Json.Glyph × Json) → Prop) (reading : String → Option α)
    (overlays : ∀ members text, Json.Written (.object members) text.toList → Admits members →
      Overlays schema base members (reading text)) : LaysOver schema base Admits reading where
  overlays := overlays
  moved members extra rearranged text other written admitted written' admitted' permuted unknown :=
    overlays_moved schema base members extra rearranged _ _ permuted unknown (overlays members text written admitted)
      (overlays rearranged other written' admitted')

section

variable {library : Library ν β} {derived : Derived ν β ς τ}
variable {held : ς → SizerConfig.Field → Option UInt32} {own : τ → Unit → Option UInt32}
variable {left : τ → List (List Char × β)}
variable (lawful : library.Lawful) (sound : derived.Lawful library held own left)
include lawful sound

theorem sizer_overlays (members : List (List Json.Glyph × Json)) (text : String)
    (written : Json.Written (.object members) text.toList) (keyed : Keyed members) :
    Overlays SizerConfig.schema .standard members (SizerConfig.read library derived text) := by
  obtain ⟨entries, opened, shows⟩ := lawful.opens members text written keyed
  have shown : List.Forall₂ (Shown library.word (library.skip · = true)) members entries :=
    shows.imp fun _ _ shows => ⟨shows.key, shows.word, shows.skipped⟩
  have same : SizerConfig.read library derived text = derived.sizer.read entries := by rw [SizerConfig.read, opened]
  rw [same]
  exact read_overlays .standard sound.sizer_collects sound.sizer_fills shown

theorem compiler_overlays (members : List (List Json.Glyph × Json)) (text : String)
    (written : Json.Written (.object members) text.toList) (tame : Json.Tame Json.Numeral.Safe members) :
    Overlays CompilerConfig.schema .standard members (CompilerConfig.read library derived text) := by
  obtain ⟨entries, opened, shows⟩ := lawful.opens members text written (tame.legible.keys members .self)
  have mild : ∀ member ∈ members, Json.Legible Json.Numeral.Safe member.2 ∧ member.2.depth ≤ 100 :=
    fun member listed => ⟨Json.legible_value _ members tame.legible member listed, tame.shallow member listed⟩
  have shown : List.Forall₂ (Shown library.word (Kept library)) members entries :=
    ((List.forall₂_and_left members entries).mpr ⟨mild, shows⟩).imp fun _ _ each =>
      ⟨each.2.key, each.2.word, each.2.kept each.1.1 each.1.2⟩
  have same : CompilerConfig.read library derived text = derived.compiler.read entries := by
    rw [CompilerConfig.read, opened]
  rw [same]
  exact flattened_overlays sound.flattens sound.inner_collects sound.inner_fills shown

end

theorem objects_lay_over (library : Library ν β) (lawful : library.Lawful) (derived : Derived ν β ς τ)
    (held : ς → SizerConfig.Field → Option UInt32) (own : τ → Unit → Option UInt32) (left : τ → List (List Char × β))
    (sound : derived.Lawful library held own left) :
    LaysOver SizerConfig.schema .standard Keyed (SizerConfig.read library derived) ∧
      LaysOver CompilerConfig.schema .standard (Json.Tame Json.Numeral.Safe) (CompilerConfig.read library derived) ∧
      ∀ field, CompilerConfig.schema.name field ≠ "sizer" := by
  refine ⟨lays_over _ _ _ _ (sizer_overlays lawful sound), lays_over _ _ _ _ (compiler_overlays lawful sound), ?_⟩
  intro field
  cases field with
  | updateThreshold => decide
  | sizer field => cases field <;> decide

def aside : List Json.Glyph × Json :=
  (['x'].map .plain, .array [.number ⟨true, ['0'], some ['5'], some ⟨true, ['3']⟩⟩, .object []])

def escaped : List Json.Glyph × Json :=
  (.plain 'm' :: .unit 97 :: "x_samples".toList.map .plain, .number ⟨false, ['7'], none, none⟩)

def nested : List Json.Glyph × Json :=
  ("sizer".toList.map .plain, .object [("growth_factor_pct".toList.map .plain, .null)])

def asideText : String := "\x22x\x22:[-0.5E-3,\x7b\x7d]"

theorem aside_spelled : Json.SpellsMember aside asideText.toList := by
  have small : Json.SpellsNumeral ⟨true, ['0'], some ['5'], some ⟨true, ['3']⟩⟩ "-0.5E-3".toList :=
    .intro true ['0'] _ _ _ _ (by decide) (fun _ => rfl) (.some ['5'] (by decide))
      (.some 'E' ['-'] ['3'] true (by decide) (by decide) (by decide))
  have none := Json.items_one _ _ (.object [] [] (.none [] Json.blank_nil))
  exact Json.member_tight ['x'] _ _ (by decide) (.array _ _ (Json.items_next _ _ [] _ _ (.number _ _ small) none))

def escapedText : String := "\x22m\x5cu0061x_samples\x22 :7"

theorem escaped_spelled : Json.SpellsMember escaped escapedText.toList := by
  have seven : Json.SpellsNumeral ⟨false, ['7'], none, none⟩ ['7'] :=
    .intro false ['7'] none none [] [] (by decide) nofun .none .none
  have rest := Json.spells_bare "x_samples".toList (by decide)
  have unit := Json.SpellsText.unit '0' '0' '6' '1' 0 0 6 1 _ _ (.inl rfl) (.inl rfl) (.inl rfl) (.inl rfl) rest
  have key := Json.SpellsText.plain 'm' _ _ (by decide) nofun nofun unit
  exact .intro _ _ _ [' '] [] _ key (by decide) Json.blank_nil (.number _ _ seven)

def nestedText : String := "\x22sizer\x22:\x7b\x22growth_factor_pct\x22:null\x7d"

theorem nested_spelled : Json.SpellsMember nested nestedText.toList := by
  have inner := Json.member_tight "growth_factor_pct".toList _ _ (by decide) .null
  exact Json.member_tight "sizer".toList _ _ (by decide) (.object _ _ (Json.members_one _ _ inner))

def spaced : String := "\x7b" ++ asideText ++ ",\n" ++ escapedText ++ "\x7d "

theorem spaced_written : Json.Written (.object [aside, escaped]) spaced.toList :=
  .intro [] _ [' '] Json.blank_nil (.object _ _ (Json.members_next _ _ [] _ _ aside_spelled
    (.last _ ['\n'] _ [] (by decide) escaped_spelled Json.blank_nil))) (by decide)

def rearranged : String := "\x7b" ++ escapedText ++ "," ++ nestedText ++ "," ++ asideText ++ "\x7d"

theorem rearranged_written : Json.Written (.object [escaped, nested, aside]) rearranged.toList := by
  have tail := Json.members_next _ _ [] _ _ nested_spelled (Json.members_one _ _ aside_spelled)
  exact Json.written_alone _ _ (.object _ _ (Json.members_next _ _ [aside] _ _ escaped_spelled tail))

theorem tame_of_readable (members : List (List Json.Glyph × Json))
    (readable : (Json.object members).readable (fun n => decide n.Safe) = true)
    (shallow : ∀ member ∈ members, member.2.depth ≤ 100) : Json.Tame Json.Numeral.Safe members :=
  ⟨Json.legible_weaken _ _ _ ((Json.legible_iff _ (.object members)).mpr readable) fun _ _ => of_decide_eq_true, shallow⟩

theorem nested_unknown (member : List Json.Glyph × Json) (listed : member ∈ [nested]) (field : CompilerConfig.Field) :
    ¬ Names CompilerConfig.schema field member := by
  intro names
  cases List.mem_singleton.mp listed
  cases names_field CompilerConfig.schema nested _ field (Json.means_plain "sizer".toList) names

theorem rearranged_lays_over :
    json.Lawful ∧ derived.Lawful json id (fun state _ => state.1) Prod.snd ∧
      Json.Written (.object [aside, escaped]) spaced.toList ∧ Json.Tame Json.Numeral.Safe [aside, escaped] ∧
      Overlays SizerConfig.schema .standard [aside, escaped] (SizerConfig.ofText? spaced) ∧
      SizerConfig.ofText? spaced = some ⟨7, 20, 115⟩ ∧
      Overlays CompilerConfig.schema .standard [aside, escaped] (CompilerConfig.ofText? spaced) ∧
      Json.Written (.object [escaped, nested, aside]) rearranged.toList ∧
      Json.Tame Json.Numeral.Safe [escaped, nested, aside] ∧
      CompilerConfig.ofText? rearranged = CompilerConfig.ofText? spaced ∧
      CompilerConfig.ofText? spaced = some ⟨15, ⟨7, 20, 115⟩⟩ := by
  have first : Json.Tame Json.Numeral.Safe [aside, escaped] :=
    tame_of_readable _ (by decide +kernel) (by decide +kernel)
  have second : Json.Tame Json.Numeral.Safe [escaped, nested, aside] :=
    tame_of_readable _ (by decide +kernel) (by decide +kernel)
  have permuted : ([escaped, nested] ++ [aside]).Perm ([aside] ++ [escaped, nested]) := List.perm_append_comm
  obtain ⟨sizer, compiler, -⟩ := objects_lay_over json json_lawful derived _ _ _ derived_lawful
  refine ⟨json_lawful, derived_lawful, spaced_written, first,
    sizer.overlays _ spaced spaced_written (first.legible.keys _ .self), ?_,
    compiler.overlays _ spaced spaced_written first, rearranged_written, second, ?_, ?_⟩
  · rw [SizerConfig.ofText?, SizerConfig.read, json_opens _ _ spaced_written]
    decide +kernel
  · exact compiler.moved _ [nested] _ spaced rearranged spaced_written first rearranged_written second permuted
      nested_unknown
  · rw [CompilerConfig.ofText?, CompilerConfig.read, json_opens _ _ spaced_written]
    decide +kernel

-- Below the largest double, but with digits that are rounded up before they are scaled.
def brink : Json.Numeral := ⟨false, ['1'], some "797693134862315708".toList, some ⟨false, ['3', '0', '8']⟩⟩

def brinkMembers : List (List Json.Glyph × Json) := [(['x'].map .plain, .number brink)]

def brinkText : String := "\x7b\x22x\x22:1.797693134862315708e308\x7d"

theorem brink_spelled : Json.SpellsNumeral brink "1.797693134862315708e308".toList :=
  .intro false ['1'] _ _ _ _ (by decide) nofun (.some "797693134862315708".toList (by decide))
    (.some 'e' [] ['3', '0', '8'] false (by decide) (by decide) (by decide))

theorem brink_written : Json.Written (.object brinkMembers) brinkText.toList := by
  have member := Json.member_tight ['x'] _ _ (by decide) (.number _ _ brink_spelled)
  exact Json.written_alone _ _ (.object _ _ (Json.members_one _ _ member))

-- The bounds of doubles themselves are not enough: here is a number within them that is not finite to the reader.
theorem brink_refused :
    json.Lawful ∧ derived.Lawful json id (fun state _ => state.1) Prod.snd ∧
      Json.Written (.object brinkMembers) brinkText.toList ∧
      Json.Tame (fun n => n.AtMost Json.Numeral.largest) brinkMembers ∧
      Fits CompilerConfig.schema brinkMembers ∧ CompilerConfig.ofText? brinkText = none ∧
      ¬ LaysOver CompilerConfig.schema .standard (Json.Tame fun n => n.AtMost Json.Numeral.largest)
        (CompilerConfig.read json derived) := by
  have unknown : ∀ member ∈ brinkMembers, ∀ field, ¬ Names CompilerConfig.schema field member := by
    intro member listed field names
    cases List.mem_singleton.mp listed
    cases names_field CompilerConfig.schema _ _ field (Json.means_plain ['x']) names
  have tame : Json.Tame (fun n => n.AtMost Json.Numeral.largest) brinkMembers := by
    refine Json.tame_flat _ brinkMembers fun member listed => ?_
    cases List.mem_singleton.mp listed
    exact ⟨⟨['x'], Json.means_plain ['x']⟩, brink, rfl, by decide +kernel⟩
  have fits : Fits CompilerConfig.schema brinkMembers :=
    ⟨fun _ => List.pairwise_singleton _ _, fun member listed field names => absurd names (unknown member listed field)⟩
  have refused : CompilerConfig.ofText? brinkText = none := by
    rw [CompilerConfig.ofText?, CompilerConfig.read, json_opens _ _ brink_written]
    decide +kernel
  refine ⟨json_lawful, derived_lawful, brink_written, tame, fits, refused, fun lays => ?_⟩
  obtain ⟨config, read⟩ := (lays.overlays brinkMembers brinkText brink_written tame).succeeds.mpr fits
  rw [CompilerConfig.ofText?] at refused
  rw [refused] at read
  cases read

end Stencil.Config
