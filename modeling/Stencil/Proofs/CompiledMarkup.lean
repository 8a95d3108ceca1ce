import Stencil.Batch
import Stencil.Proofs.CompilerTurn
import Stencil.Proofs.Markup

set_option autoImplicit false

namespace Stencil

variable {σ τ : Type} {related : σ → τ → Prop}

section Trees

variable {first : Node σ} {second : Node τ}

theorem same_isDynamic (same : SameMarkup related first second) : first.isDynamic = second.isDynamic := by
  cases same with
  | text leaf other texts => simp only [Node.isDynamic, Text.isDynamic, texts.1]
  | element | fragment | func | funcs | choice => rfl

theorem same_children (same : SameMarkup related first second) :
    List.Forall₂ (SameMarkup related) first.children second.children := by
  cases same with
  | element tag left right dynamic children others names each => exact each
  | fragment children others each => exact each
  | text | func | funcs | choice => exact .nil

theorem same_live (same : SameMarkup related first second) : first.Live ↔ second.Live := by
  induction first using Node.by_children generalizing second with
  | step first ih =>
      rw [Node.live_iff_children, Node.live_iff_children, same_isDynamic same]
      refine or_congr Iff.rfl (exists_live_iff _ _ ?_)
      exact forall₂_strengthen _ _ (same_children same) fun child member other alike => ih child member alike

theorem same_tags (same : SameMarkup related first second) :
    Option.Rel (fun tags others => Effect.Alike related tags.openTag others.openTag ∧
      Effect.Alike related tags.closeTag others.closeTag) first.tags? second.tags? := by
  cases same with
  | element tag left right dynamic children others names each =>
      refine .some ⟨write_alike _ _ (openTag_markup tag left right names), write_alike _ _ ?_⟩
      rw [childless_eq children others each]
  | text | fragment | func | funcs | choice => exact .none

end Trees

inductive Piece.SameMarkup : Piece → Piece → Prop where
  | static (left right : Bytes) : markup left = markup right → SameMarkup (.static left) (.static right)
  | dynamic (path : Path) : SameMarkup (.dynamic path) (.dynamic path)

structure Segments.Alike (related : σ → τ → Prop) (first : Segments σ) (second : Segments τ) : Prop where
  pieces : List.Forall₂ Piece.SameMarkup first.pieces second.pieces
  world : related first.world second.world
  calm : first.fault = none
  otherCalm : second.fault = none

namespace Segmenter

def Alike (related : σ → τ → Prop) (first : Segmenter σ) (second : Segmenter τ) : Prop :=
  ∀ world other, related world other → Segments.Alike related (first world) (second other)

theorem steady_alike (pieces others : List Piece) (same : List.Forall₂ Piece.SameMarkup pieces others) :
    Alike related (steady pieces) (steady others) := fun _ _ start => ⟨same, start, rfl, rfl⟩

theorem freeze_alike (first : Effect σ) (second : Effect τ) (alike : Effect.Alike related first second) :
    Alike related (freeze first) (freeze second) := by
  intro world other start
  obtain ⟨same, left, calm, otherCalm⟩ := alike world other start
  exact ⟨.cons (.static _ _ same) .nil, left, calm, otherCalm⟩

theorem andThen_alike (first next : Segmenter σ) (second onward : Segmenter τ) (heads : Alike related first second)
    (tails : Alike related next onward) : Alike related (first.andThen next) (second.andThen onward) := by
  intro world other start
  have head := heads world other start
  have tail := tails _ _ head.world
  simp only [andThen, head.calm, head.otherCalm]
  exact ⟨List.rel_append head.pieces tail.pieces, tail.world, tail.calm, tail.otherCalm⟩

end Segmenter

theorem segmentAll_alike (nodes : List (Node σ)) (others : List (Node τ)) (path : Path) (index : Nat)
    (each : List.Forall₂ (fun node other => ∀ path, Segmenter.Alike related (segment path node) (segment path other))
      nodes others) :
    Segmenter.Alike related (segmentAll path index nodes) (segmentAll path index others) := by
  induction each generalizing index with
  | nil => exact Segmenter.steady_alike [] [] .nil
  | cons head _ ih => exact Segmenter.andThen_alike _ _ _ _ (head (path ++ [index])) (ih (index + 1))

theorem segment_alike (first : Node σ) (second : Node τ) (path : Path) (same : SameMarkup related first second) :
    Segmenter.Alike related (segment path first) (segment path second) := by
  induction first using Node.by_children generalizing second path with
  | step first ih =>
      by_cases dynamic : first.isDynamic = true
      · rw [dynamic_segments first path dynamic,
          dynamic_segments second path ((same_isDynamic same).symm.trans dynamic)]
        exact Segmenter.steady_alike _ _ (.cons (.dynamic path) .nil)
      · by_cases live : first.Live
        · have inside := segmentAll_alike first.children second.children path 0
            (forall₂_strengthen _ _ (same_children same) fun child member other alike path =>
              ih child member other path alike)
          rw [walked_segments first path dynamic live,
            walked_segments second path (same_isDynamic same ▸ dynamic) ((same_live same).mp live)]
          have tags := same_tags same
          generalize first.tags? = left at tags
          generalize second.tags? = right at tags
          cases tags with
          | none => exact inside
          | some both =>
              have opening := Segmenter.freeze_alike _ _ both.1
              have closing := Segmenter.freeze_alike _ _ both.2
              exact Segmenter.andThen_alike _ _ _ _ opening (Segmenter.andThen_alike _ _ _ _ inside closing)
        · rw [static_segments first path live, static_segments second path (mt (same_live same).mpr live)]
          exact Segmenter.freeze_alike _ _ (render_alike first second same)

theorem forall₂_getElem? {α β : Type} {holds : α → β → Prop} (left : List α) (right : List β)
    (each : List.Forall₂ holds left right) (index : Nat) : Option.Rel holds left[index]? right[index]? := by
  induction each generalizing index with
  | nil => exact .none
  | cons head _ ih =>
      cases index with
      | zero => exact .some head
      | succ index => exact ih index

inductive FoundAlike (related : σ → τ → Prop) : Except Miss (Node σ) → Except Miss (Node τ) → Prop where
  | ok (node : Node σ) (other : Node τ) : SameMarkup related node other → FoundAlike related (.ok node) (.ok other)
  | error (miss other : Miss) : FoundAlike related (.error miss) (.error other)

theorem resolve_alike (root : Node σ) (second : Node τ) (path : Path) (same : SameMarkup related root second) :
    FoundAlike related (root.resolve path) (second.resolve path) := by
  induction path generalizing root second with
  | nil => exact .ok root second same
  | cons index path ih =>
      have child := forall₂_getElem? _ _ (same_children same) index
      rw [Node.resolve_cons, Node.resolve_cons]
      generalize root.children[index]? = left at child
      generalize second.children[index]? = right at child
      cases child with
      | none => exact .error _ _
      | @some child other alike =>
          have below := ih child other alike
          simp only
          generalize child.resolve path = left at below
          generalize other.resolve path = right at below
          cases below with
          | ok node other found => exact .ok node other found
          | error miss other => exact .error _ _

theorem rendition_alike (root : Node σ) (second : Node τ) (same : SameMarkup related root second)
    (pieces others : List Piece) (each : List.Forall₂ Piece.SameMarkup pieces others) :
    Effect.Alike related (rendition root pieces) (rendition second others) := by
  induction each with
  | nil => exact write_alike [] [] rfl
  | cons head _ ih =>
      refine andThen_alike _ _ _ _ ?_ ih
      cases head with
      | static left right bytes => exact write_alike left right bytes
      | dynamic path =>
          have found := resolve_alike root second path same
          simp only [Piece.rendition]
          generalize root.resolve path = left at found
          generalize second.resolve path = right at found
          cases found with
          | ok node other alike => exact render_alike node other alike
          | error miss other => exact write_alike [] [] rfl

-- Both come from pieces of which the static ones have the same markup, one by one. Bytes without markup may be missing
-- on one side, so this does not hold of the plans' own pieces.
def Plan.SameMarkup (first second : Plan) : Prop :=
  ∃ pieces others, first.pieces = condense pieces ∧ second.pieces = condense others ∧
    List.Forall₂ Piece.SameMarkup pieces others

theorem plan_alike (first second : Plan) (plans : first.SameMarkup second) (root : Node σ) (other : Node τ)
    (same : SameMarkup related root other) :
    Effect.Alike related (rendition root first.pieces) (rendition other second.pieces) := by
  obtain ⟨pieces, others, left, right, each⟩ := plans
  rw [left, right, rendition_condense, rendition_condense]
  exact rendition_alike root other same pieces others each

theorem built_alike (root : Node σ) (second : Node τ) (same : SameMarkup related root second) (world : σ) (other : τ)
    (start : related world other) :
    ∃ plan others, (Plan.build root world).plan = .ok plan ∧ (Plan.build second other).plan = .ok others ∧
      plan.SameMarkup others ∧ related (Plan.build root world).world (Plan.build second other).world := by
  obtain ⟨pieces, left, calm, otherCalm⟩ := segment_alike root second [] same world other start
  refine ⟨⟨condense (segment [] root world).pieces⟩, ⟨condense (segment [] second other).pieces⟩, ?_, ?_, ?_, ?_⟩
  · rw [build_plan, Segments.plan, calm]
  · rw [build_plan, Segments.plan, otherCalm]
  · exact ⟨_, _, rfl, rfl, pieces⟩
  · rw [build_world, build_world]
    exact left

namespace Compiler

structure Rehearsal.Alike (related : σ → τ → Prop) (first : Rehearsal σ) (second : Rehearsal τ) : Prop where
  plans : ∃ plan other, first.result = .ok plan ∧ second.result = .ok other ∧ plan.SameMarkup other
  world : related first.world second.world

theorem rehearse_calm (root : Node σ) (world : σ) (plan : Plan) (built : (Plan.build root world).plan = .ok plan)
    (calm : (rendition root plan.pieces (Plan.build root world).world).fault = none) :
    rehearse none root world = ⟨.ok plan, (rendition root plan.pieces (Plan.build root world).world).world⟩ := by
  rw [← execute_outcome] at calm ⊢
  have unharmed : (plan.execute root (Plan.build root world).world).fault = none := calm
  simp only [rehearse, built, unharmed]
  rfl

theorem rehearse_alike (held otherHeld : Option Plan) (plans : Option.Rel Plan.SameMarkup held otherHeld)
    (root : Node σ) (second : Node τ) (same : SameMarkup related root second) (world : σ) (other : τ)
    (start : related world other) :
    Rehearsal.Alike related (rehearse held root world) (rehearse otherHeld second other) := by
  cases plans with
  | some alike => exact ⟨⟨_, _, rfl, rfl, alike⟩, start⟩
  | none =>
      obtain ⟨plan, others, built, otherBuilt, alike, left⟩ := built_alike root second same world other start
      have seed := plan_alike plan others alike root second same _ _ left
      rw [rehearse_calm root world plan built seed.calm, rehearse_calm second other others otherBuilt seed.otherCalm]
      exact ⟨⟨plan, others, rfl, rfl, alike⟩, seed.world⟩

structure RenderAlike (related : σ → τ → Prop) (first : Reply Compiler σ Bytes) (second : Reply Compiler τ Bytes) :
    Prop where
  outputs : ∃ bytes other, first.result = .ok bytes ∧ second.result = .ok other ∧ markup bytes = markup other
  world : related first.world second.world
  plans : Option.Rel Plan.SameMarkup first.self.plan second.self.plan

theorem render_alike (compiler others : Compiler) (plans : Option.Rel Plan.SameMarkup compiler.plan others.plan)
    (pool otherPool : Pool) (root : Node σ) (second : Node τ) (same : SameMarkup related root second) (world : σ)
    (other : τ) (start : related world other) :
    RenderAlike related (compiler.render pool root world) (others.render otherPool second other) := by
  obtain ⟨result, left, kept⟩ := render_content compiler pool root world
  obtain ⟨otherResult, otherLeft, otherKept⟩ := render_content others otherPool second other
  obtain ⟨⟨plan, otherPlan, found, otherFound, alike⟩, between⟩ :=
    rehearse_alike compiler.plan others.plan plans root second same world other start
  have live := plan_alike plan otherPlan alike root second same _ _ between
  simp only [Rehearsal.perform, Rehearsal.kept, found] at result left kept
  simp only [Rehearsal.perform, Rehearsal.kept, otherFound] at otherResult otherLeft otherKept
  refine ⟨⟨_, _, ?_, ?_, live.markup⟩, ?_, ?_⟩
  · exact result.trans (by simp [live.calm])
  · exact otherResult.trans (by simp [live.otherCalm])
  · rw [left, otherLeft]
    exact live.world
  · rw [kept, otherKept]
    exact .some alike

end Compiler

theorem renderEach_alike (roots : List (Node σ)) (others : List (Node τ))
    (each : List.Forall₂ (SameMarkup related) roots others) (first second : Compiler)
    (plans : Option.Rel Plan.SameMarkup first.plan second.plan) (pool otherPool : Pool) (world : σ) (other : τ)
    (start : related world other) :
    ∃ outputs otherOutputs, (Batch.renderEach first pool roots world).result = .ok outputs ∧
      (Batch.renderEach second otherPool others other).result = .ok otherOutputs ∧
      List.Forall₂ (fun bytes other => markup bytes = markup other) outputs otherOutputs := by
  induction each generalizing first second pool otherPool world other with
  | nil => exact ⟨[], [], rfl, rfl, .nil⟩
  | @cons root otherRoot _ _ head _ ih =>
      obtain ⟨⟨bytes, otherBytes, rendered, otherRendered, same⟩, left, kept⟩ :=
        Compiler.render_alike first second plans pool otherPool root otherRoot head world other start
      obtain ⟨outputs, otherOutputs, later, otherLater, alike⟩ := ih _ _ kept (first.render pool root world).pool
        (second.render otherPool otherRoot other).pool _ _ left
      refine ⟨bytes :: outputs, otherBytes :: otherOutputs, ?_, ?_, .cons same alike⟩
      · simp only [Batch.renderEach, rendered, later, Except.map]
      · simp only [Batch.renderEach, otherRendered, otherLater, Except.map]

-- Compilers without a plan make theirs from the first trees that they render, and may go on to others.
theorem text_forges_no_markup (first : Node σ) (second : Node τ) (same : SameMarkup related first second) (world : σ)
    (other : τ) (start : related world other) :
    (∃ bytes otherBytes, (first.render world).result = .ok bytes ∧ (second.render other).result = .ok otherBytes ∧
        markup bytes = markup otherBytes) ∧
      ∀ (compiler otherCompiler : Compiler) (pool otherPool : Pool) later otherLater, compiler.plan = none →
        otherCompiler.plan = none → List.Forall₂ (SameMarkup related) later otherLater →
          ∃ outputs otherOutputs, (Batch.renderEach compiler pool (first :: later) world).result = .ok outputs ∧
            (Batch.renderEach otherCompiler otherPool (second :: otherLater) other).result = .ok otherOutputs ∧
            List.Forall₂ (fun bytes other => markup bytes = markup other) outputs otherOutputs := by
  constructor
  · obtain ⟨bytes, _, calm, otherCalm⟩ := Stencil.render_alike first second same world other start
    refine ⟨_, _, ?_, ?_, bytes⟩
    · simp [calm]
    · simp [otherCalm]
  · intro compiler otherCompiler pool otherPool later otherLater absent otherAbsent each
    refine renderEach_alike _ _ (.cons same each) compiler otherCompiler ?_ pool otherPool world other start
    rw [absent, otherAbsent]
    exact .none

def link (address label : String) : Node Nat :=
  .element "a" [("href", address)] false
    [.text (.plain label), .func (fun count => .text (.live (label ++ toString count))) (· + 1),
      .choice true (.text (.live label)) none]

theorem link_same (address label other otherLabel : String) :
    SameMarkup Eq (link address label) (link other otherLabel) := by
  have text (first second : String) : SameMarkup Eq (Node.text (.live first) : Node Nat) (.text (.live second)) :=
    .text _ _ ⟨rfl, nofun⟩
  refine .element _ _ _ _ _ _ rfl (.cons (.text _ _ ⟨rfl, nofun⟩) (.cons ?_ (.cons ?_ .nil)))
  · refine .func _ _ _ _ (fun _ _ _ => text _ _) fun _ _ same => congrArg (· + 1) same
  · exact .choice _ _ _ _ _ (text _ _) .none

theorem link_forges_no_markup :
    SameMarkup Eq (link "/?a='b'" "<b>") (link "/" "plain") ∧
      ∃ outputs others,
        (Batch.renderEach (.ofConfig .standard) .empty [link "/?a='b'" "<b>", link "/" "\">"] 0).result = .ok outputs ∧
          (Batch.renderEach (.ofConfig .standard) .empty [link "/" "plain", link "/?x" "text"] 0).result = .ok others ∧
          List.Forall₂ (fun bytes other => markup bytes = markup other) outputs others := by
  have same := link_same "/?a='b'" "<b>" "/" "plain"
  refine ⟨same, ?_⟩
  obtain ⟨_, compiled⟩ := text_forges_no_markup _ _ same 0 0 rfl
  exact compiled (.ofConfig .standard) (.ofConfig .standard) .empty .empty _ _ rfl rfl
    (.cons (link_same "/" "\">" "/?x" "text") .nil)

end Stencil
