import Stencil.Proofs.Rendition

set_option autoImplicit false

namespace Stencil

variable {σ : Type}

def Node.unresolved (root : Node σ) (paths : List Path) : List (Path × Miss) :=
  paths.filterMap fun path =>
    match root.resolve path with
    | .ok _ => none
    | .error miss => some (path, miss)

def Piece.leadsSomewhere (root : Node σ) : Piece → Bool
  | .static _ => true
  | .dynamic path => (root.resolve path).isOk

def Plan.pruned (plan : Plan) (root : Node σ) : Plan := ⟨plan.pieces.filter (Piece.leadsSomewhere root)⟩

theorem unresolved_found (root : Node σ) (path : Path) (paths : List Path) (node : Node σ)
    (found : root.resolve path = .ok node) : root.unresolved (path :: paths) = root.unresolved paths := by
  rw [Node.unresolved, List.filterMap_cons, found]
  rfl

theorem unresolved_lost (root : Node σ) (path : Path) (paths : List Path) (miss : Miss)
    (lost : root.resolve path = .error miss) :
    root.unresolved (path :: paths) = (path, miss) :: root.unresolved paths := by
  rw [Node.unresolved, List.filterMap_cons, lost]
  rfl

def Event.ofUnresolved (lost : Path × Miss) : Event := .pathUnresolved lost.1 lost.2

theorem executePieces_reports (root : Node σ) (pieces : List Piece) (world : σ)
    (calm : (executePieces root pieces world).fault = none) :
    (executePieces root pieces world).events =
      (root.unresolved (pieces.filterMap Piece.path?)).map Event.ofUnresolved := by
  induction pieces generalizing world with
  | nil => rfl
  | cons piece rest ih =>
      cases piece with
      | static bytes => exact ih world calm
      | dynamic path =>
          have paths : (Piece.dynamic path :: rest).filterMap Piece.path? = path :: rest.filterMap Piece.path? := rfl
          rw [paths]
          simp only [executePieces] at calm ⊢
          cases resolved : root.resolve path with
          | error miss =>
              simp only [resolved] at calm ⊢
              rw [unresolved_lost root path _ miss resolved, List.map_cons, ih world calm]
              rfl
          | ok node =>
              rw [unresolved_found root path _ node resolved]
              simp only [resolved] at calm ⊢
              cases faulted : (node.render world).fault with
              | some message => simp [faulted] at calm
              | none =>
                  simp only [faulted] at calm ⊢
                  exact ih (node.render world).world calm

theorem validatePaths_first (root : Node σ) (paths : List Path) :
    validatePaths root paths =
      match root.unresolved paths with
      | [] => .ok ()
      | lost :: _ => .error (.structureMismatch lost.1 lost.2) := by
  induction paths with
  | nil => rfl
  | cons path rest ih =>
      rw [validatePaths]
      cases resolved : root.resolve path with
      | error miss => rw [unresolved_lost root path rest miss resolved]
      | ok node =>
          rw [unresolved_found root path rest node resolved]
          exact ih

theorem rendition_pruned (root : Node σ) (pieces : List Piece) :
    rendition root (pieces.filter (Piece.leadsSomewhere root)) = rendition root pieces := by
  induction pieces with
  | nil => rfl
  | cons piece rest ih =>
      cases leads : piece.leadsSomewhere root with
      | true => rw [List.filter_cons_of_pos leads, rendition, rendition, ih]
      | false =>
          rw [List.filter_cons_of_neg (Bool.eq_false_iff.mp leads), ih, rendition]
          cases piece with
          | static bytes => cases leads
          | dynamic path =>
              cases resolved : root.resolve path with
              | ok node => simp [Piece.leadsSomewhere, resolved, Except.isOk, Except.toBool] at leads
              | error miss =>
                  simp only [Piece.rendition, resolved]
                  exact (Effect.skip_andThen _).symm

theorem pruned_resolves (plan : Plan) (root : Node σ) (path : Path) (member : path ∈ (plan.pruned root).paths) :
    ∃ node, root.resolve path = .ok node := by
  obtain ⟨piece, kept, same⟩ := List.mem_filterMap.mp member
  have leads := (List.mem_filter.mp kept).2
  cases piece with
  | static bytes => cases same
  | dynamic other =>
      cases same
      cases resolved : root.resolve path with
      | ok node => exact ⟨node, rfl⟩
      | error miss => simp [Piece.leadsSomewhere, resolved, Except.isOk, Except.toBool] at leads

theorem hushed (quiet loud : Execution σ) (outcome : quiet.outcome = loud.outcome) (silent : quiet.events = []) :
    quiet = { loud with events := [] } := by
  cases quiet
  cases loud
  cases outcome
  cases silent
  rfl

theorem execute_pruned (plan : Plan) (root : Node σ) (world : σ) :
    (plan.pruned root).execute root world = { plan.execute root world with events := [] } := by
  have outcome : ((plan.pruned root).execute root world).outcome = (plan.execute root world).outcome := by
    rw [execute_outcome, execute_outcome]
    exact congrFun (rendition_pruned root plan.pieces) world
  have silent : ((plan.pruned root).execute root world).events = [] :=
    executePieces_silent root _ world (pruned_resolves plan root)
  exact hushed _ _ outcome silent

theorem executor_validator_agree (plan : Plan) (root : Node σ) (world : σ)
    (calm : (plan.execute root world).fault = none) :
    let played := plan.execute root world
    played.events = (root.unresolved plan.paths).map (fun lost => .pathUnresolved lost.1 lost.2) ∧
      (plan.validate root = .ok () ↔ played.events = []) ∧
      (∀ event later, played.events = event :: later →
        ∃ path miss, event = .pathUnresolved path miss ∧ plan.validate root = .error (.structureMismatch path miss)) ∧
      (plan.pruned root).execute root world = { played with events := [] } := by
  have reports : (plan.execute root world).events = (root.unresolved plan.paths).map Event.ofUnresolved :=
    executePieces_reports root plan.pieces world calm
  have verdict := validatePaths_first root plan.paths
  refine ⟨reports, ?valid, ?first, execute_pruned plan root world⟩
  case valid =>
    rw [Plan.validate, verdict, reports]
    cases root.unresolved plan.paths with
    | nil => simp
    | cons lost others => simp
  case first =>
    intro event later split
    rw [reports] at split
    rw [Plan.validate, verdict]
    cases unresolved : root.unresolved plan.paths with
    | nil => simp [unresolved] at split
    | cons lost others =>
        rw [unresolved, List.map_cons, List.cons.injEq] at split
        exact ⟨lost.1, lost.2, split.1.symm, rfl⟩

def drifted : Node Nat := .fragment [.text (.live "x"), .element "p" [] false [.custom true none (.write [7]) []]]

def strayPlan : Plan := ⟨[.dynamic [1, 0], .static [45], .dynamic [0, 2], .dynamic [1, 3], .dynamic [0], .dynamic [2]]⟩

theorem drifted_reports :
    (strayPlan.execute drifted 0).fault = none ∧
      (strayPlan.execute drifted 0).events =
        [.pathUnresolved [0, 2] ⟨1, 2, 0⟩, .pathUnresolved [1, 3] ⟨1, 3, 1⟩, .pathUnresolved [2] ⟨0, 2, 2⟩] ∧
      strayPlan.validate drifted = .error (.structureMismatch [0, 2] ⟨1, 2, 0⟩) ∧
      (Plan.execute ⟨[.dynamic [1, 0], .static [45], .dynamic [0]]⟩ drifted 0).out =
        (strayPlan.execute drifted 0).out := by
  have calm : (strayPlan.execute drifted 0).fault = none := by rfl
  obtain ⟨events, _, first, pruned⟩ := executor_validator_agree strayPlan drifted 0 calm
  obtain ⟨path, miss, same, mismatch⟩ := first _ _ events
  cases same
  have bytes := congrArg Execution.out pruned
  exact ⟨calm, events, mismatch, bytes⟩

end Stencil
