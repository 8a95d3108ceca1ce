import Stencil.Proofs.Visiting

set_option autoImplicit false

namespace Stencil

theorem Config.found_iff {κ : Type} (name : κ → String) (all : List κ)
    (each : ∀ field, (all.find? fun other => (name other).toList == (name field).toList) = some field)
    (chars : List Char) (field : κ) :
    (all.find? fun other => (name other).toList == chars) = some field ↔ chars = (name field).toList := by
  constructor
  · intro found
    have same := List.find?_some found
    exact (beq_iff_eq.mp same).symm
  · rintro rfl
    exact each field

def SizerConfig.schema : Config.Schema SizerConfig.Field SizerConfig where
  name := SizerConfig.Field.name
  field? := SizerConfig.Field.ofChars?
  get := SizerConfig.get
  found := Config.found_iff SizerConfig.Field.name SizerConfig.Field.all fun field => by cases field <;> rfl
  ext a b same := by
    obtain ⟨samples, variance, growth⟩ := a
    obtain ⟨samples', variance', growth'⟩ := b
    cases same .maxSamples
    cases same .variance
    cases same .growth
    rfl

def CompilerConfig.schema : Config.Schema CompilerConfig.Field CompilerConfig where
  name := CompilerConfig.Field.name
  field? chars := CompilerConfig.Field.all.find? fun field => field.name.toList == chars
  get := CompilerConfig.get
  found := Config.found_iff CompilerConfig.Field.name CompilerConfig.Field.all fun field => by
    cases field with
    | updateThreshold => rfl
    | sizer field => cases field <;> rfl
  ext a b same := by
    obtain ⟨threshold, sizer⟩ := a
    obtain ⟨threshold', sizer'⟩ := b
    cases same .updateThreshold
    cases SizerConfig.schema.ext sizer sizer' fun field => same (.sizer field)
    rfl

namespace Config

variable {ν β ς τ : Type}

def threshold : Schema Unit UInt32 where
  name _ := CompilerConfig.Field.updateThreshold.name
  field? chars := if chars = CompilerConfig.Field.updateThreshold.name.toList then some () else none
  get word _ := word
  found chars field := by
    rw [ite_eq_left_iff]
    simp
  ext _ _ same := same ()

-- Documented behaviour of a flattened record: it is read from the entries that its owner does not know, which are set
-- aside in their order.
structure Flattens (library : Library ν β) (inner : Visitor ς β SizerConfig) (visitor : Visitor τ ν CompilerConfig)
    (held : τ → Unit → Option UInt32) (left : τ → List (List Char × β)) : Prop where
  collects : Collects threshold.field? library.word (fun value => (library.aside value).isSome) visitor held
  empty : left visitor.start = []
  known : ∀ key value state next, threshold.field? key = some () → visitor.visit key value state = some next →
    left next = left state
  unknown : ∀ key value kept state next, threshold.field? key = none → library.aside value = some kept →
    visitor.visit key value state = some next → left next = left state ++ [(key, kept)]
  finished : ∀ state, visitor.finish state =
    (inner.read (left state)).map fun sizer => ⟨(held state ()).getD CompilerConfig.standard.updateThreshold, sizer⟩

theorem fits_split (members : List (List Json.Glyph × Json)) :
    Fits CompilerConfig.schema members ↔ Fits threshold members ∧ Fits SizerConfig.schema members := by
  constructor
  · rintro ⟨once, words⟩
    exact ⟨⟨fun _ => once .updateThreshold, fun member listed _ names => words member listed .updateThreshold names⟩,
      ⟨fun field => once (.sizer field), fun member listed field names => words member listed (.sizer field) names⟩⟩
  · rintro ⟨own, inner⟩
    refine ⟨fun field => ?_, fun member listed field names => ?_⟩
    · cases field with
      | updateThreshold => exact own.once ()
      | sizer field => exact inner.once field
    · cases field with
      | updateThreshold => exact own.words member listed () names
      | sizer field => exact inner.words member listed field names

theorem laid_joined (base config : CompilerConfig) (members : List (List Json.Glyph × Json))
    (own : Laid threshold base.updateThreshold config.updateThreshold members)
    (inner : Laid SizerConfig.schema base.sizer config.sizer members) :
    Laid CompilerConfig.schema base config members where
  given member listed field names := by
    cases field with
    | updateThreshold => exact own.given member listed () names
    | sizer field => exact inner.given member listed field names
  absent field absent := by
    cases field with
    | updateThreshold => exact own.absent () absent
    | sizer field => exact inner.absent field absent

theorem own_unknown (member : List Json.Glyph × Json) (own : Names threshold () member) (field : SizerConfig.Field) :
    ¬ Names SizerConfig.schema field member := by
  intro names
  cases names_unique CompilerConfig.schema member .updateThreshold (.sizer field) own names

section Run

variable {library : Library ν β} {inner : Visitor ς β SizerConfig} {visitor : Visitor τ ν CompilerConfig}
variable {held : τ → Unit → Option UInt32} {left : τ → List (List Char × β)}
variable {members : List (List Json.Glyph × Json)} {entries : List (List Char × ν)}

def Kept (library : Library ν β) (value : ν) : Prop :=
  ∃ kept, library.aside value = some kept ∧ library.again kept = library.word value

theorem shown_kept {member : List Json.Glyph × Json} {entry : List Char × ν}
    (shown : Shown library.word (Kept library) member entry) :
    Shown library.word (fun value => (library.aside value).isSome) member entry := by
  obtain ⟨kept, aside, _⟩ := shown.passed
  exact ⟨shown.key, shown.word, by rw [aside, Option.isSome_some]⟩

theorem run_spares (flattens : Flattens library inner visitor held left)
    (shown : List.Forall₂ (Shown library.word (Kept library)) members entries) (state final : τ)
    (ran : visitor.run entries state = some final) :
    ∃ spared owned more, left final = left state ++ more ∧ members.Perm (spared ++ owned) ∧
      (∀ member ∈ owned, Names threshold () member) ∧
      List.Forall₂ (Shown library.again fun _ => True) spared more := by
  induction shown generalizing state with
  | nil =>
      cases ran
      exact ⟨[], [], [], (List.append_nil _).symm, .nil, nofun, .nil⟩
  | @cons member entry members entries first others ih =>
      rw [Visitor.run] at ran
      obtain ⟨next, visited, later⟩ := Option.bind_eq_some_iff.mp ran
      obtain ⟨spared, owned, more, ended, permuted, taken, showing⟩ := ih next later
      cases found : threshold.field? entry.1 with
      | some _ =>
          rw [flattens.known entry.1 entry.2 state next found visited] at ended
          refine ⟨spared, member :: owned, more, ended, (permuted.cons member).trans List.perm_middle.symm, ?_, showing⟩
          exact List.forall_mem_cons.mpr ⟨(shown_field first ()).mpr found, taken⟩
      | none =>
          obtain ⟨kept, aside, again⟩ := first.passed
          rw [flattens.unknown entry.1 entry.2 kept state next found aside visited, List.append_assoc] at ended
          refine ⟨member :: spared, owned, (entry.1, kept) :: more, ended, permuted.cons member, taken,
            .cons ⟨first.key, fun given => ?_, trivial⟩ showing⟩
          rw [again]
          exact first.word given

theorem flattened_overlays (flattens : Flattens library inner visitor held left)
    {innerHeld : ς → SizerConfig.Field → Option UInt32}
    (collects : Collects SizerConfig.schema.field? library.again (fun _ => True) inner innerHeld)
    (fills : Fills SizerConfig.schema .standard inner innerHeld)
    (shown : List.Forall₂ (Shown library.word (Kept library)) members entries) :
    Overlays CompilerConfig.schema .standard members (visitor.read entries) := by
  have asides := shown.imp fun _ _ => shown_kept
  have rest : ∀ final, visitor.run entries visitor.start = some final →
      Overlays SizerConfig.schema .standard members (inner.read (left final)) := by
    intro final ran
    obtain ⟨spared, owned, more, ended, permuted, taken, showing⟩ := run_spares flattens shown visitor.start final ran
    rw [flattens.empty, List.nil_append] at ended
    rw [ended]
    exact overlays_spread SizerConfig.schema .standard spared owned members _ permuted
      (fun member listed => own_unknown member (taken member listed)) (read_overlays .standard collects fills showing)
  refine overlays_of CompilerConfig.schema .standard members _ ?sound ?total
  case sound =>
    intro config read
    obtain ⟨final, ran, finished⟩ := Option.bind_eq_some_iff.mp read
    rw [flattens.finished] at finished
    obtain ⟨sizer, inside, rfl⟩ := Option.map_eq_some_iff.mp finished
    obtain ⟨fits, _, collected⟩ := run_sound threshold flattens.collects asides visitor.start final ran
    obtain ⟨innerFits, innerLaid⟩ := ((rest final ran).result sizer).mp inside
    have own := laid_collected CompilerConfig.standard.updateThreshold
      ((held final ()).getD CompilerConfig.standard.updateThreshold) _ _ collected flattens.collects.starts fun _ => rfl
    exact ⟨(fits_split members).mpr ⟨fits, innerFits⟩, laid_joined .standard _ members own innerLaid⟩
  case total =>
    intro fits
    obtain ⟨own, innerFits⟩ := (fits_split members).mp fits
    obtain ⟨final, ran⟩ := run_total threshold flattens.collects asides visitor.start own
      (fresh_start threshold flattens.collects)
    obtain ⟨sizer, inside⟩ := (rest final ran).succeeds.mpr innerFits
    refine ⟨⟨(held final ()).getD CompilerConfig.standard.updateThreshold, sizer⟩, ?_⟩
    rw [Visitor.read, ran, Option.bind_some, flattens.finished, inside, Option.map_some]

end Run

end Config

end Stencil
