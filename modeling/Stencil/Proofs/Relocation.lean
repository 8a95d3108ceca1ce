import Stencil.Proofs.Segments

set_option autoImplicit false

namespace Stencil

variable {σ : Type}

def Piece.mapPath (turn : Path → Path) : Piece → Piece
  | .static bytes => .static bytes
  | .dynamic path => .dynamic (turn path)

def Plan.mapPaths (turn : Path → Path) (plan : Plan) : Plan := ⟨plan.pieces.map (Piece.mapPath turn)⟩

def Build.mapPaths (turn : Path → Path) (build : Build σ) : Build σ :=
  { build with plan := build.plan.map (Plan.mapPaths turn) }

namespace Segmenter

theorem nothing_andThen (next : Segmenter σ) : (steady []).andThen next = next := rfl

theorem andThen_nothing (first : Segmenter σ) : first.andThen (steady []) = first := by
  funext world
  simp only [andThen, steady]
  rcases first world with ⟨pieces, after, fault⟩
  cases fault <;> simp

theorem andThen_assoc (first second third : Segmenter σ) :
    (first.andThen second).andThen third = first.andThen (second.andThen third) := by
  funext world
  simp only [andThen]
  rcases first world with ⟨pieces, after, fault⟩
  cases fault with
  | some message => rfl
  | none =>
      simp only
      rcases second after with ⟨morePieces, later, laterFault⟩
      cases laterFault <;> simp

-- Both ask the world for the same, and in the absence of faults they freeze the same bytes between paths that differ
-- as `turn` says. Where the bytes are cut is left open.
structure Recut (turn : Path → Path) (before after : Segmenter σ) : Prop where
  world : ∀ world, (after world).world = (before world).world
  fault : ∀ world, (after world).fault = (before world).fault
  symbols : ∀ world, (before world).fault = none →
    Stencil.symbols (after world).pieces = (Stencil.symbols (before world).pieces).map (Sum.map id turn)

variable (turn : Path → Path)

theorem recut_nothing : Recut turn (steady [] : Segmenter σ) (steady []) where
  world _ := rfl
  fault _ := rfl
  symbols _ _ := rfl

theorem recut_leave (path : Path) : Recut turn (steady [.dynamic path] : Segmenter σ) (steady [.dynamic (turn path)]) where
  world _ := rfl
  fault _ := rfl
  symbols _ _ := rfl

theorem frozen_symbols (bytes : Bytes) :
    (Stencil.symbols [.static bytes]).map (Sum.map id turn) = Stencil.symbols [.static bytes] := by
  simp [Stencil.symbols, Piece.symbols]

theorem recut_freeze (effect : Effect σ) : Recut turn (freeze effect) (freeze effect) where
  world _ := rfl
  fault _ := rfl
  symbols _ _ := (frozen_symbols turn _).symm

theorem recut_andThen (first second before after : Segmenter σ) (heads : Recut turn first before)
    (tails : Recut turn second after) : Recut turn (first.andThen second) (before.andThen after) where
  world world := by
    simp only [andThen, heads.fault]
    cases (first world).fault with
    | some message => exact heads.world world
    | none =>
        simp only [heads.world]
        exact tails.world _
  fault world := by
    simp only [andThen, heads.fault]
    cases stopped : (first world).fault with
    | some message => exact heads.fault world
    | none =>
        simp only [heads.world]
        exact tails.fault _
  symbols world calm := by
    obtain ⟨first, later, pieces⟩ := andThen_calm _ _ world calm
    have still : (before.andThen after world).fault = none := by
      simp only [andThen, heads.fault, first, heads.world, tails.fault]
      exact later
    obtain ⟨_, _, parts⟩ := andThen_calm _ _ world still
    rw [parts, pieces, symbols_append, symbols_append, List.map_append, heads.world, heads.symbols world first,
      tails.symbols _ later]

theorem recut_frozen (first next : Effect σ) (later : Segmenter σ) (rest : Recut turn later (freeze next)) :
    Recut turn ((freeze first).andThen later) (freeze (first.andThen next)) where
  world world := by
    have after := rest.world (first world).world
    simp only [freeze, andThen, Effect.andThen] at after ⊢
    cases (first world).fault with
    | some message => rfl
    | none => exact after
  fault world := by
    have after := rest.fault (first world).world
    simp only [freeze, andThen, Effect.andThen] at after ⊢
    cases stopped : (first world).fault with
    | some message => exact stopped
    | none => exact after
  symbols world calm := by
    obtain ⟨quiet, still, pieces⟩ := andThen_calm _ _ world calm
    have after := rest.symbols _ still
    change (first world).fault = none at quiet
    rw [pieces, symbols_append, List.map_append, ← after]
    simp [freeze, Effect.andThen, quiet, Stencil.symbols, Piece.symbols]

theorem recut_around (path : Path) (first second : Node σ) (inside inner : Segmenter σ)
    (dynamic : second.isDynamic = first.isDynamic) (tags : second.tags? = first.tags?)
    (render : second.render = first.render)
    (live : (∃ child ∈ second.children, child.Live) ↔ ∃ child ∈ first.children, child.Live)
    (recut : Recut turn inside inner) : Recut turn (around path first inside) (around (turn path) second inner) := by
  unfold around
  rw [dynamic, tags, render]
  simp only [live]
  split
  · exact recut_leave turn path
  · split
    · cases first.tags? with
      | none => exact recut
      | some tags =>
          exact recut_andThen turn _ _ _ _ (recut_freeze turn tags.openTag)
            (recut_andThen turn _ _ _ _ recut (recut_freeze turn tags.closeTag))
    · exact recut_freeze turn first.render

end Segmenter

open Segmenter

@[simp] theorem segmentAll_append (left right : List (Node σ)) (path : Path) (index : Nat) :
    segmentAll path index (left ++ right) =
      (segmentAll path index left).andThen (segmentAll path (index + left.length) right) := by
  induction left generalizing index with
  | nil => exact (nothing_andThen _).symm
  | cons node rest ih =>
      rw [List.cons_append, segmentAll, segmentAll, ih (index + 1), andThen_assoc, List.length_cons, Nat.add_assoc,
        Nat.add_comm 1]

def Carries (turn : Path → Path) (path place : Path) : Prop := ∀ rest, turn (path ++ rest) = place ++ rest

variable (turn : Path → Path)

theorem recut_carriedAll (nodes : List (Node σ)) (path place : Path) (index start : Nat)
    (each : ∀ node ∈ nodes, ∀ path place, Carries turn path place → Recut turn (segment path node) (segment place node))
    (carries : ∀ offset < nodes.length, Carries turn (path ++ [index + offset]) (place ++ [start + offset])) :
    Recut turn (segmentAll path index nodes) (segmentAll place start nodes) := by
  induction nodes generalizing index start with
  | nil => exact recut_nothing turn
  | cons node rest ih =>
      obtain ⟨head, tail⟩ := List.forall_mem_cons.mp each
      refine recut_andThen turn _ _ _ _ (head _ _ (carries 0 (Nat.zero_lt_succ _))) (ih (index + 1) (start + 1) tail ?_)
      intro offset within
      have next := carries (offset + 1) (Nat.succ_lt_succ within)
      rwa [Nat.add_comm offset 1, ← Nat.add_assoc, ← Nat.add_assoc] at next

theorem recut_carried (node : Node σ) (path place : Path) (carries : Carries turn path place) :
    Recut turn (segment path node) (segment place node) := by
  induction node using Node.by_children generalizing path place with
  | step node ih =>
      have here : turn path = place := by
        have whole := carries []
        rwa [List.append_nil, List.append_nil] at whole
      rw [segment_eq, segment_eq, ← here]
      refine recut_around turn path node node _ _ rfl rfl rfl Iff.rfl ?_
      apply recut_carriedAll turn node.children path (turn path) 0 0 ih
      intro offset _ rest
      rw [here, List.append_assoc, List.append_assoc]
      exact carries _

theorem recut_nodes (nodes : List (Node σ)) (path place : Path) (index start : Nat)
    (carries : ∀ offset < nodes.length, Carries turn (path ++ [index + offset]) (place ++ [start + offset])) :
    Recut turn (segmentAll path index nodes) (segmentAll place start nodes) :=
  recut_carriedAll turn nodes path place index start (fun node _ => recut_carried turn node) carries

theorem recut_still (nodes : List (Node σ)) (path : Path) (index : Nat) (still : ¬ ∃ node ∈ nodes, node.Live) :
    Recut turn (segmentAll path index nodes) (freeze (Node.renderAll nodes)) := by
  induction nodes generalizing index with
  | nil => exact ⟨fun _ => rfl, fun _ => rfl, fun _ _ => rfl⟩
  | cons node rest ih =>
      simp only [List.mem_cons, exists_eq_or_imp, not_or] at still
      rw [segmentAll, static_segments node _ still.1]
      exact recut_frozen turn node.render (Node.renderAll rest) _ (ih (index + 1) still.2)

theorem recut_fragment (group : List (Node σ)) (path place : Path) (index : Nat)
    (carries : ∀ offset < group.length, Carries turn (path ++ [index + offset]) (place ++ [0 + offset])) :
    Recut turn (segmentAll path index group) (segment place (.fragment group)) := by
  by_cases live : ∃ node ∈ group, node.Live
  · have walked := walked_segments (.fragment group) place Bool.false_ne_true
      ((Node.live_iff_children (.fragment group)).mpr (Or.inr live))
    rw [walked]
    exact recut_nodes turn group path place index 0 carries
  · have still : ¬ (Node.fragment group).Live := by
      rw [Node.live_iff_children]
      exact not_or.mpr ⟨Bool.false_ne_true, live⟩
    rw [static_segments _ place still]
    exact recut_still turn group path index live

theorem recut_dynamic (first second : Node σ) (path : Path) (fixed : turn path = path) (left : first.isDynamic = true)
    (right : second.isDynamic = true) : Recut turn (segment path first) (segment path second) := by
  have leaves : Recut turn (steady [.dynamic path] : Segmenter σ) (steady [.dynamic (turn path)]) := recut_leave turn path
  rw [fixed] at leaves
  rwa [dynamic_segments first path left, dynamic_segments second path right]

theorem symbols_mapPath (pieces : List Piece) :
    symbols (pieces.map (Piece.mapPath turn)) = (symbols pieces).map (Sum.map id turn) := by
  induction pieces with
  | nil => rfl
  | cons piece rest ih =>
      rw [List.map_cons, symbols_cons, symbols_cons, List.map_append, ih]
      cases piece with
      | static bytes => simp [Piece.mapPath, Piece.symbols]
      | dynamic path => rfl

theorem mapPath_isStatic (piece : Piece) : (piece.mapPath turn).isStatic = piece.isStatic := by
  cases piece <;> rfl

theorem condensed_mapPath (pieces : List Piece) (condensed : Condensed pieces) :
    Condensed (pieces.map (Piece.mapPath turn)) where
  filled := by
    intro member
    obtain ⟨piece, present, same⟩ := List.mem_map.mp member
    cases piece with
    | dynamic path => cases same
    | static bytes =>
        cases same
        exact condensed.filled present
  apart := by
    rw [List.isChain_map]
    simpa only [mapPath_isStatic] using condensed.apart

theorem mapPath_condense (before after : List Piece)
    (same : symbols after = (symbols before).map (Sum.map id turn)) :
    condense after = (condense before).map (Piece.mapPath turn) := by
  apply condensed_unique _ _ (condense_condensed after) (condensed_mapPath turn _ (condense_condensed before))
  rw [symbols_condense, symbols_mapPath, symbols_condense, same]

theorem mapPaths_staticLength (plan : Plan) : (plan.mapPaths turn).staticLength = plan.staticLength := by
  obtain ⟨pieces⟩ := plan
  simp only [Plan.staticLength, Plan.mapPaths, List.foldr_map]
  congr
  funext piece length
  cases piece <;> rfl

theorem mapPaths_paths (plan : Plan) : (plan.mapPaths turn).paths = plan.paths.map turn := by
  obtain ⟨pieces⟩ := plan
  simp only [Plan.paths, Plan.mapPaths, List.filterMap_map, List.map_filterMap]
  congr
  funext piece
  cases piece <;> rfl

theorem recut_build (first second : Node σ) (recut : Recut turn (segment [] first) (segment [] second)) (world : σ) :
    Plan.build second world = (Plan.build first world).mapPaths turn := by
  have plan : (Plan.build second world).plan = (Plan.build first world).plan.map (Plan.mapPaths turn) := by
    rw [build_plan, build_plan, Segments.plan, Segments.plan, recut.fault]
    cases calm : (segment [] first world).fault with
    | some message => rfl
    | none =>
        have pieces := mapPath_condense turn _ _ (recut.symbols world calm)
        exact congrArg (fun pieces => Except.ok (Plan.mk pieces)) pieces
  have left : (Plan.build second world).world = (Plan.build first world).world := by
    rw [build_world, build_world, recut.world]
  have events : (Plan.build second world).events = (Plan.build first world).events := by
    rw [build_events, build_events, plan]
    cases (Plan.build first world).plan with
    | error message => rfl
    | ok plan =>
        simp only [Except.map, mapPaths_staticLength, mapPaths_paths, List.length_map]
        simp only [Plan.length, Plan.mapPaths, List.length_map]
  have parts : Plan.build second world =
      ⟨(Plan.build second world).plan, (Plan.build second world).world, (Plan.build second world).events⟩ := rfl
  rw [parts, plan, left, events]
  rfl

end Stencil
