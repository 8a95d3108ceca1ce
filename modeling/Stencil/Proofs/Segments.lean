import Stencil.Plan.Build
import Stencil.Proofs.Condensed
import Stencil.Proofs.Tree

set_option autoImplicit false

namespace Stencil

structure Segments (σ : Type) where
  pieces : List Piece
  world : σ
  fault : Option String

def Segments.plan {σ : Type} (segments : Segments σ) : Except String Plan :=
  match segments.fault with
  | some message => .error message
  | none => .ok ⟨condense segments.pieces⟩

abbrev Segmenter (σ : Type) := σ → Segments σ

namespace Segmenter

variable {σ : Type}

def steady (pieces : List Piece) : Segmenter σ := fun world => ⟨pieces, world, none⟩

def freeze (effect : Effect σ) : Segmenter σ := fun world =>
  let outcome := effect world
  ⟨[.static outcome.out], outcome.world, outcome.fault⟩

def andThen (first second : Segmenter σ) : Segmenter σ := fun world =>
  let before := first world
  match before.fault with
  | some _ => before
  | none =>
      let after := second before.world
      ⟨before.pieces ++ after.pieces, after.world, after.fault⟩

theorem andThen_calm (first second : Segmenter σ) (world : σ) (calm : (first.andThen second world).fault = none) :
    (first world).fault = none ∧ (second (first world).world).fault = none ∧
      (first.andThen second world).pieces = (first world).pieces ++ (second (first world).world).pieces := by
  simp only [andThen] at calm ⊢
  cases middle : (first world).fault with
  | some message =>
      rw [middle] at calm
      exact absurd (middle.symm.trans calm) (by simp)
  | none =>
      rw [middle] at calm
      exact ⟨rfl, calm, rfl⟩

def around (path : Path) (node : Node σ) (inside : Segmenter σ) : Segmenter σ :=
  if node.isDynamic then steady [.dynamic path]
  else if ∃ child ∈ node.children, child.Live then
    match node.tags? with
    | some tags => (freeze tags.openTag).andThen (inside.andThen (freeze tags.closeTag))
    | none => inside
  else freeze node.render

end Segmenter

open Segmenter

variable {σ : Type}

mutual
def segment (path : Path) : Node σ → Segmenter σ
  | .element tag attributes dynamic children =>
      around path (.element tag attributes dynamic children) (segmentAll path 0 children)
  | .fragment children => around path (.fragment children) (segmentAll path 0 children)
  | .custom dynamic tags body children => around path (.custom dynamic tags body children) (segmentAll path 0 children)
  | leaf => around path leaf (steady [])

def segmentAll (path : Path) (index : Nat) : List (Node σ) → Segmenter σ
  | [] => steady []
  | node :: rest => (segment (path ++ [index]) node).andThen (segmentAll path (index + 1) rest)
end

theorem segment_eq (path : Path) (node : Node σ) :
    segment path node = around path node (segmentAll path 0 node.children) := by
  cases node <;> rfl

theorem dynamic_segments (node : Node σ) (path : Path) (dynamic : node.isDynamic = true) :
    segment path node = steady [.dynamic path] := by
  rw [segment_eq, around, if_pos dynamic]

theorem walked_segments (node : Node σ) (path : Path) (dynamic : ¬ node.isDynamic = true) (live : node.Live) :
    segment path node =
      match node.tags? with
      | some tags => (freeze tags.openTag).andThen ((segmentAll path 0 node.children).andThen (freeze tags.closeTag))
      | none => segmentAll path 0 node.children := by
  have below := ((Node.live_iff_children node).mp live).resolve_left dynamic
  rw [segment_eq, around, if_neg dynamic, if_pos below]

theorem static_segments (node : Node σ) (path : Path) (still : ¬ node.Live) :
    segment path node = freeze node.render := by
  obtain ⟨dynamic, below⟩ := not_or.mp (mt (Node.live_iff_children node).mpr still)
  rw [segment_eq, around, if_neg dynamic, if_neg below]

namespace Draft

def symbols (draft : Draft σ) : List (UInt8 ⊕ Path) := Stencil.symbols draft.pieces.reverse ++ draft.frozen.map .inl

-- Between two steps of the walk the newest finished piece is a path, so that the pending bytes can still
-- grow: they are cut off only when a path follows or the walk is over.
structure Tidy (draft : Draft σ) : Prop where
  condensed : Condensed draft.pieces
  live : StartsLive draft.pieces

theorem start_tidy (world : σ) : (start world).Tidy := ⟨condensed_nil, fun _ member => by cases member⟩

theorem cut_pieces (draft : Draft σ) :
    draft.cut.pieces = if draft.frozen = [] then draft.pieces else .static draft.frozen :: draft.pieces := by
  by_cases empty : draft.frozen = [] <;> simp [cut, empty]

theorem cut_pending (draft : Draft σ) : draft.cut.pending = [] := by
  by_cases empty : draft.frozen = [] <;> simp [cut, empty]

theorem cut_world (draft : Draft σ) : draft.cut.world = draft.world := by
  by_cases empty : draft.frozen = [] <;> simp [cut, empty]

theorem cut_fault (draft : Draft σ) : draft.cut.fault = draft.fault := by
  by_cases empty : draft.frozen = [] <;> simp [cut, empty]

theorem cut_symbols (draft : Draft σ) : Stencil.symbols draft.cut.pieces.reverse = draft.symbols := by
  rw [cut_pieces, symbols]
  by_cases empty : draft.frozen = []
  · rw [if_pos empty, empty, List.map_nil, List.append_nil]
  · rw [if_neg empty, List.reverse_cons, symbols_append]
    simp [Stencil.symbols, Piece.symbols]

theorem cut_condensed (draft : Draft σ) (tidy : draft.Tidy) : Condensed draft.cut.pieces := by
  rw [cut_pieces]
  by_cases empty : draft.frozen = []
  · rw [if_pos empty]
    exact tidy.condensed
  · rw [if_neg empty]
    exact (condensed_static_cons draft.frozen draft.pieces).mpr ⟨empty, tidy.live, tidy.condensed⟩

theorem plan_condensed (draft : Draft σ) (tidy : draft.Tidy) : Condensed draft.plan.pieces :=
  (condensed_reverse draft.cut.pieces).mpr (cut_condensed draft tidy)

-- A step of the walk against a segmenter: after a fault the step changes nothing that can be seen; before
-- one it leaves the world and the fault of the segmenter, and adds the symbols of its segments.
structure Simulates (step : Draft σ → Draft σ) (reference : Segmenter σ) : Prop where
  stopped : ∀ draft message, draft.fault = some message →
    (step draft).fault = some message ∧ (step draft).world = draft.world
  moved : ∀ draft, draft.fault = none →
    (step draft).fault = (reference draft.world).fault ∧ (step draft).world = (reference draft.world).world
  added : ∀ draft, draft.fault = none → (reference draft.world).fault = none → draft.Tidy →
    (step draft).Tidy ∧ (step draft).symbols = draft.symbols ++ Stencil.symbols (reference draft.world).pieces

theorem simulates_nothing : Simulates (fun draft : Draft σ => draft) (steady []) where
  stopped _ _ faulted := ⟨faulted, rfl⟩
  moved _ calm := ⟨calm, rfl⟩
  added draft _ _ tidy := ⟨tidy, (List.append_nil draft.symbols).symm⟩

theorem simulates_leave (reversed : Path) :
    Simulates (leavePath reversed : Draft σ → Draft σ) (steady [.dynamic reversed.reverse]) where
  stopped draft _ faulted := ⟨(cut_fault draft).trans faulted, cut_world draft⟩
  moved draft calm := ⟨(cut_fault draft).trans calm, cut_world draft⟩
  added draft _ _ tidy := by
    refine ⟨⟨(condensed_dynamic_cons _ _).mpr (cut_condensed draft tidy), ?_⟩, ?_⟩
    · intro piece atHead
      cases atHead
      rfl
    · simp only [symbols, leavePath, frozen, cut_pending, List.reverse_cons, symbols_append, cut_symbols]
      exact List.append_nil _

theorem absorb_pieces (effect : Effect σ) (draft : Draft σ) : (draft.absorb effect).pieces = draft.pieces := by
  cases faulted : draft.fault <;> simp [absorb, faulted]

theorem absorb_frozen (effect : Effect σ) (draft : Draft σ) (calm : draft.fault = none) :
    (draft.absorb effect).frozen = draft.frozen ++ (effect draft.world).out := by
  simp [absorb, calm, frozen]

theorem simulates_freeze (effect : Effect σ) : Simulates (absorb effect) (freeze effect) where
  stopped draft message faulted := by simp [absorb, faulted]
  moved draft calm := by simp [absorb, calm, freeze]
  added draft calm _ tidy := by
    refine ⟨⟨?_, ?_⟩, ?_⟩
    · rw [absorb_pieces]
      exact tidy.condensed
    · rw [absorb_pieces]
      exact tidy.live
    · rw [symbols, absorb_pieces, absorb_frozen effect draft calm, List.map_append, ← List.append_assoc]
      simp [symbols, freeze, Stencil.symbols, Piece.symbols]

theorem simulates_andThen (first second : Draft σ → Draft σ) (before after : Segmenter σ)
    (firstSimulates : Simulates first before) (secondSimulates : Simulates second after) :
    Simulates (fun draft => second (first draft)) (before.andThen after) where
  stopped draft message faulted := by
    obtain ⟨fault, world⟩ := firstSimulates.stopped draft message faulted
    obtain ⟨laterFault, laterWorld⟩ := secondSimulates.stopped (first draft) message fault
    exact ⟨laterFault, laterWorld.trans world⟩
  moved draft calm := by
    obtain ⟨fault, world⟩ := firstSimulates.moved draft calm
    simp only [andThen]
    cases middle : (before draft.world).fault with
    | some message =>
        obtain ⟨laterFault, laterWorld⟩ := secondSimulates.stopped (first draft) message (fault.trans middle)
        exact ⟨laterFault.trans middle.symm, laterWorld.trans world⟩
    | none =>
        rw [← world]
        exact secondSimulates.moved (first draft) (fault.trans middle)
  added draft calm still tidy := by
    obtain ⟨fault, world⟩ := firstSimulates.moved draft calm
    simp only [andThen] at still ⊢
    cases middle : (before draft.world).fault with
    | some message =>
        rw [middle] at still
        exact absurd (middle.symm.trans still) (by simp)
    | none =>
        simp only [middle] at still ⊢
        obtain ⟨middleTidy, middleSymbols⟩ := firstSimulates.added draft calm middle tidy
        rw [← world] at still ⊢
        obtain ⟨lastTidy, lastSymbols⟩ := secondSimulates.added (first draft) (fault.trans middle) still middleTidy
        refine ⟨lastTidy, ?_⟩
        rw [lastSymbols, middleSymbols, symbols_append, List.append_assoc]

theorem simulates_visit (reversed : Path) (node : Node σ) (inside : Draft σ → Draft σ) (reference : Segmenter σ)
    (insideSimulates : Simulates inside reference) :
    Simulates (visit reversed node inside) (around reversed.reverse node reference) := by
  unfold visit around
  by_cases dynamic : node.isDynamic = true
  · simp only [dynamic, if_true]
    exact simulates_leave reversed
  · simp only [Node.any_containsDynamic_iff, dynamic]
    by_cases below : ∃ child ∈ node.children, child.Live
    · simp only [if_pos below]
      cases node.tags? with
      | none => exact insideSimulates
      | some tags =>
          exact simulates_andThen _ _ _ _ (simulates_freeze tags.openTag)
            (simulates_andThen _ _ _ _ insideSimulates (simulates_freeze tags.closeTag))
    · simp only [if_neg below]
      exact simulates_freeze node.render

theorem walk_eq (reversed : Path) (node : Node σ) :
    walk reversed node = visit reversed node (walkAll reversed 0 node.children) := by
  funext draft
  cases node <;> rfl

theorem simulates_walkAll (nodes : List (Node σ)) (reversed : Path) (index : Nat)
    (each : ∀ node ∈ nodes, ∀ reversed, Simulates (walk reversed node) (segment reversed.reverse node)) :
    Simulates (walkAll reversed index nodes) (segmentAll reversed.reverse index nodes) := by
  induction nodes generalizing index with
  | nil => exact simulates_nothing
  | cons node rest ih =>
      have first := each node List.mem_cons_self (index :: reversed)
      rw [List.reverse_cons] at first
      have later := ih (index + 1) fun other member => each other (List.mem_cons_of_mem node member)
      exact simulates_andThen (walk (index :: reversed) node) (walkAll reversed (index + 1) rest) _ _ first later

theorem simulates_walk (node : Node σ) (reversed : Path) :
    Simulates (walk reversed node) (segment reversed.reverse node) := by
  induction node using Node.by_children generalizing reversed with
  | step node ih =>
      rw [walk_eq, segment_eq]
      exact simulates_visit reversed node _ _ (simulates_walkAll node.children reversed 0 ih)

end Draft

theorem build_plan (root : Node σ) (world : σ) : (Plan.build root world).plan = (segment [] root world).plan := by
  have walk := Draft.simulates_walk root []
  obtain ⟨fault, _⟩ := walk.moved (Draft.start world) rfl
  change _ = (segment [] root world).fault at fault
  simp only [Plan.build, Segments.plan, fault]
  cases calm : (segment [] root world).fault with
  | some message => rfl
  | none =>
      obtain ⟨tidy, symbols⟩ := walk.added (Draft.start world) rfl calm (Draft.start_tidy world)
      have condensed := Draft.plan_condensed _ tidy
      have pieces := eq_condense _ (segment [] root world).pieces condensed ((Draft.cut_symbols _).trans symbols)
      exact congrArg (fun pieces => Except.ok (Plan.mk pieces)) pieces

theorem build_world (root : Node σ) (world : σ) : (Plan.build root world).world = (segment [] root world).world := by
  obtain ⟨_, moved⟩ := (Draft.simulates_walk root []).moved (Draft.start world) rfl
  change _ = (segment [] root world).world at moved
  rw [← moved, Plan.build]
  cases ((Draft.start world).walk [] root).fault <;> rfl

theorem build_events (root : Node σ) (world : σ) :
    (Plan.build root world).events =
      match (Plan.build root world).plan with
      | .ok plan => [.planBuilt plan.length plan.staticLength plan.paths.length]
      | .error _ => [] := by
  simp only [Plan.build]
  cases ((Draft.start world).walk [] root).fault <;> rfl

theorem build_ext (first second : Node σ) (world : σ)
    (plan : (Plan.build first world).plan = (Plan.build second world).plan)
    (left : (Plan.build first world).world = (Plan.build second world).world) :
    Plan.build first world = Plan.build second world := by
  have events : (Plan.build first world).events = (Plan.build second world).events := by
    rw [build_events, build_events, plan]
  have parts : Plan.build first world =
      ⟨(Plan.build first world).plan, (Plan.build first world).world, (Plan.build first world).events⟩ := rfl
  rw [parts, plan, left, events]

theorem condense_static_length (bytes : Bytes) : (condense [.static bytes]).length ≤ 1 := by
  by_cases empty : bytes = [] <;> simp [condense, prepend, empty]

theorem segments_plan_calm (segments : Segments σ) (plan : Plan) (built : segments.plan = .ok plan) :
    segments.fault = none := by
  cases calm : segments.fault with
  | some message => simp [Segments.plan, calm] at built
  | none => rfl

theorem segments_plan_condensed (segments : Segments σ) (plan : Plan) (built : segments.plan = .ok plan) :
    plan.pieces = condense segments.pieces := by
  simp only [Segments.plan, segments_plan_calm segments plan built] at built
  cases built
  rfl

theorem build_condenses_segments (root : Node σ) (world : σ) :
    (Plan.build root world).plan = (segment [] root world).plan ∧
      (Plan.build root world).world = (segment [] root world).world ∧
      ∀ plan, (Plan.build root world).plan = .ok plan →
        Condensed plan.pieces ∧ (¬ root.Live → plan.length ≤ 1) := by
  refine ⟨build_plan root world, build_world root world, ?_⟩
  intro plan built
  rw [build_plan root world] at built
  have pieces := segments_plan_condensed (segment [] root world) plan built
  constructor
  · rw [pieces]
    exact condense_condensed _
  · intro still
    rw [Plan.length, pieces, static_segments root [] still]
    exact condense_static_length _

def specimen : Node Nat :=
  .custom false (some ⟨.write [60], .write [62]⟩) .skip
    [.custom true none (.write [7]) [], .fragment [.custom false none (.write [1]) [], .fragment []],
      .custom false none (.write [2]) []]

theorem specimen_condenses :
    (Plan.build specimen 0).plan = .ok ⟨[.static [60], .dynamic [0], .static [1, 2, 62]]⟩ ∧
      Condensed [.static [60], .dynamic [0], .static [1, 2, 62]] ∧
      ¬ (Node.fragment [] : Node Nat).Live ∧ Plan.length ⟨[]⟩ ≤ 1 := by
  have built : (Plan.build specimen 0).plan = .ok ⟨[.static [60], .dynamic [0], .static [1, 2, 62]]⟩ := rfl
  have empty : (Plan.build (.fragment [] : Node Nat) 0).plan = .ok ⟨[]⟩ := rfl
  have still : ¬ (Node.fragment [] : Node Nat).Live := by decide
  obtain ⟨_, _, condensed⟩ := build_condenses_segments specimen 0
  obtain ⟨_, _, short⟩ := build_condenses_segments (.fragment [] : Node Nat) 0
  exact ⟨built, (condensed _ built).1, still, (short _ empty).2 still⟩

end Stencil
