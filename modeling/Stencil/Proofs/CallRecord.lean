import Stencil.Proofs.Calls
import Stencil.Proofs.CompilerTurn

set_option autoImplicit false

namespace Stencil

variable {σ : Type}

structure Recorded (σ : Type) where
  world : σ
  calls : List (Nat × Call)

def Effect.noted (entry : Nat × Call) (effect : Effect σ) : Effect (Recorded σ) := fun before =>
  let outcome := effect before.world
  ⟨outcome.out, ⟨outcome.world, before.calls ++ [entry]⟩, outcome.fault⟩

namespace Node

def noting (name : Nat) (path : Path) (node : Node σ) (children : List (Node (Recorded σ))) : Node (Recorded σ) :=
  let tags := node.tags?.map fun tags =>
    Tags.mk (tags.openTag.noted (name, .openTag path)) (tags.closeTag.noted (name, .closeTag path))
  .custom node.isDynamic tags (node.render.noted (name, .render path)) children

mutual
def recorded (name : Nat) (path : Path) : Node σ → Node (Recorded σ)
  | .element tag attributes dynamic children =>
      noting name path (.element tag attributes dynamic children) (recordedAll name path 0 children)
  | .fragment children => noting name path (.fragment children) (recordedAll name path 0 children)
  | .custom dynamic tags body children =>
      noting name path (.custom dynamic tags body children) (recordedAll name path 0 children)
  | leaf => noting name path leaf []

def recordedAll (name : Nat) (path : Path) (index : Nat) : List (Node σ) → List (Node (Recorded σ))
  | [] => []
  | node :: rest => recorded name (path ++ [index]) node :: recordedAll name path (index + 1) rest
end

theorem recorded_eq (name : Nat) (path : Path) (node : Node σ) :
    node.recorded name path = noting name path node (recordedAll name path 0 node.children) := by
  cases node <;> rfl

theorem recorded_isDynamic (name : Nat) (path : Path) (node : Node σ) :
    (node.recorded name path).isDynamic = node.isDynamic := by
  rw [recorded_eq]
  rfl

theorem recorded_children (name : Nat) (path : Path) (node : Node σ) :
    (node.recorded name path).children = recordedAll name path 0 node.children := by
  rw [recorded_eq]
  rfl

theorem recorded_render (name : Nat) (path : Path) (node : Node σ) :
    (node.recorded name path).render = node.render.noted (name, .render path) := by
  rw [recorded_eq]
  rfl

theorem recorded_tags (name : Nat) (path : Path) (node : Node σ) :
    (node.recorded name path).tags? = node.tags?.map fun tags =>
      Tags.mk (tags.openTag.noted (name, .openTag path)) (tags.closeTag.noted (name, .closeTag path)) := by
  rw [recorded_eq]
  rfl

theorem recordedAll_get (name : Nat) (path : Path) (index offset : Nat) (nodes : List (Node σ)) :
    (recordedAll name path index nodes)[offset]? = nodes[offset]?.map (recorded name (path ++ [index + offset])) := by
  induction nodes generalizing index offset with
  | nil => rfl
  | cons node rest ih =>
      cases offset with
      | zero => rfl
      | succ offset =>
          rw [recordedAll, List.getElem?_cons_succ, List.getElem?_cons_succ, ih, Nat.add_right_comm, Nat.add_assoc]

theorem recordedAll_length (name : Nat) (path : Path) (index : Nat) (nodes : List (Node σ)) :
    (recordedAll name path index nodes).length = nodes.length := by
  induction nodes generalizing index with
  | nil => rfl
  | cons node rest ih => rw [recordedAll, List.length_cons, List.length_cons, ih]

theorem recorded_resolve (name : Nat) (front path : Path) (root : Node σ) :
    (root.recorded name front).resolve path = (root.resolve path).map (recorded name (front ++ path)) := by
  induction path generalizing root front with
  | nil => simp [resolve_nil, Except.map]
  | cons index path ih =>
      rw [resolve_cons, resolve_cons, recorded_children, recordedAll_get, recordedAll_length, Nat.zero_add]
      cases root.children[index]? with
      | none => rfl
      | some child =>
          simp only [Option.map_some, ih, List.append_assoc, List.singleton_append]
          cases child.resolve path <;> rfl

theorem recorded_live (name : Nat) (path : Path) (node : Node σ) : (node.recorded name path).Live ↔ node.Live := by
  constructor
  · rintro ⟨below, other, found, dynamic⟩
    rw [recorded_resolve] at found
    cases plain : node.resolve below with
    | error miss => simp [plain, Except.map] at found
    | ok inner =>
        simp only [plain, Except.map, Except.ok.injEq] at found
        rw [← found, recorded_isDynamic] at dynamic
        exact ⟨below, inner, plain, dynamic⟩
  · rintro ⟨below, other, found, dynamic⟩
    refine ⟨below, other.recorded name (path ++ below), ?_, (recorded_isDynamic name _ other).trans dynamic⟩
    rw [recorded_resolve, found]
    rfl

def played (root : Node σ) (paths : List Path) : List Call :=
  (paths.filter fun path => (root.resolve path).isOk).map .render

end Node

-- `recorded` does what `plain` does. It also notes the entries, unless a fault keeps it from some of them.
structure Segmenter.Notes (recorded : Segmenter (Recorded σ)) (plain : Segmenter σ) (entries : List (Nat × Call)) :
    Prop where
  pieces : ∀ before, (recorded before).pieces = (plain before.world).pieces
  fault : ∀ before, (recorded before).fault = (plain before.world).fault
  world : ∀ before, (recorded before).world.world = (plain before.world).world
  calls : ∀ before, (plain before.world).fault = none → (recorded before).world.calls = before.calls ++ entries

namespace Segmenter

theorem notes_steady (pieces : List Piece) : Notes (steady pieces) (steady pieces : Segmenter σ) [] where
  pieces _ := rfl
  fault _ := rfl
  world _ := rfl
  calls before _ := (List.append_nil before.calls).symm

theorem notes_freeze (entry : Nat × Call) (effect : Effect σ) :
    Notes (freeze (effect.noted entry)) (freeze effect) [entry] where
  pieces _ := rfl
  fault _ := rfl
  world _ := rfl
  calls _ _ := rfl

theorem notes_andThen (first second : Segmenter (Recorded σ)) (before after : Segmenter σ)
    (head tail : List (Nat × Call)) (firstNotes : Notes first before head) (secondNotes : Notes second after tail) :
    Notes (first.andThen second) (before.andThen after) (head ++ tail) := by
  refine ⟨?pieces, ?fault, ?world, ?calls⟩
  case pieces =>
    intro start
    simp only [andThen, firstNotes.fault]
    cases (before start.world).fault with
    | some message => exact firstNotes.pieces start
    | none => simp only [firstNotes.pieces, secondNotes.pieces, firstNotes.world]
  case fault =>
    intro start
    simp only [andThen, firstNotes.fault]
    cases middle : (before start.world).fault with
    | some message => simp only [firstNotes.fault, middle]
    | none => simp only [secondNotes.fault, firstNotes.world]
  case world =>
    intro start
    simp only [andThen, firstNotes.fault]
    cases (before start.world).fault with
    | some message => exact firstNotes.world start
    | none => simp only [secondNotes.world, firstNotes.world]
  case calls =>
    intro start calm
    obtain ⟨firstCalm, laterCalm, _⟩ := andThen_calm before after start.world calm
    rw [← firstNotes.world] at laterCalm
    have later := secondNotes.calls (first start).world laterCalm
    simp only [andThen, firstNotes.fault, firstCalm]
    rw [later, firstNotes.calls start firstCalm, List.append_assoc]

end Segmenter

def tagged (name : Nat) (path : Path) (calls : List Call) : List (Nat × Call) :=
  calls.map fun call => (name, call.beneath path)

theorem tagged_append (name : Nat) (path : Path) (left right : List Call) :
    tagged name path (left ++ right) = tagged name path left ++ tagged name path right := List.map_append

theorem tagged_root (name : Nat) (calls : List Call) : tagged name [] calls = calls.map fun call => (name, call) := by
  simp only [tagged, Call.beneath_nil]

theorem tagged_calls (name : Nat) (calls : List Call) : (tagged name [] calls).map Prod.snd = calls := by
  simp [tagged_root]

theorem tagged_under (name index : Nat) (path : Path) (calls : List Call) :
    tagged name path (calls.map (Call.beneath [index])) = tagged name (path ++ [index]) calls := by
  simp only [tagged, List.map_map, Function.comp_def, Call.beneath_beneath]

theorem notes_segmentAll (name : Nat) (nodes : List (Node σ)) (path : Path) (index : Nat)
    (each : ∀ node ∈ nodes, ∀ path,
      Segmenter.Notes (segment path (node.recorded name path)) (segment path node) (tagged name path node.calls)) :
    Segmenter.Notes (segmentAll path index (Node.recordedAll name path index nodes)) (segmentAll path index nodes)
      (tagged name path (Node.callsAll index nodes)) := by
  induction nodes generalizing index with
  | nil => exact Segmenter.notes_steady []
  | cons node rest ih =>
      have head := each node List.mem_cons_self (path ++ [index])
      have tail := ih (index + 1) fun other member => each other (List.mem_cons_of_mem node member)
      rw [← tagged_under] at head
      have both := Segmenter.notes_andThen _ _ _ _ _ _ head tail
      rw [← tagged_append] at both
      exact both

theorem notes_segment (name : Nat) (node : Node σ) (path : Path) :
    Segmenter.Notes (segment path (node.recorded name path)) (segment path node) (tagged name path node.calls) := by
  induction node using Node.by_children generalizing path with
  | step node ih =>
      have live := Node.recorded_live name path node
      by_cases dynamic : node.isDynamic = true
      · rw [dynamic_segments node path dynamic, Node.calls_dynamic node dynamic,
          dynamic_segments _ path ((Node.recorded_isDynamic name path node).trans dynamic)]
        exact Segmenter.notes_steady _
      · by_cases walked : node.Live
        · have inside := notes_segmentAll name node.children path 0 ih
          rw [walked_segments node path dynamic walked,
            Node.calls_walked node ⟨Bool.eq_false_iff.mpr dynamic, walked⟩,
            walked_segments _ path (by rw [Node.recorded_isDynamic]; exact dynamic) (live.mpr walked),
            Node.recorded_tags, Node.recorded_children]
          cases node.tags? with
          | none => exact inside
          | some tags =>
              have closing := Segmenter.notes_freeze (name, .closeTag path) tags.closeTag
              have opening := Segmenter.notes_freeze (name, .openTag path) tags.openTag
              have whole := Segmenter.notes_andThen _ _ _ _ _ _ opening
                (Segmenter.notes_andThen _ _ _ _ _ _ inside closing)
              simpa [tagged, Call.beneath] using whole
        · rw [static_segments node path walked, Node.calls_static node walked,
            static_segments _ path (mt live.mp walked), Node.recorded_render]
          have whole := Segmenter.notes_freeze (name, .render path) node.render
          simpa [tagged, Call.beneath] using whole

theorem notes_build (name : Nat) (root : Node σ) (before : Recorded σ) :
    (Plan.build (root.recorded name []) before).plan = (Plan.build root before.world).plan ∧
      (Plan.build (root.recorded name []) before).world.world = (Plan.build root before.world).world ∧
      ∀ plan, (Plan.build root before.world).plan = .ok plan →
        (Plan.build (root.recorded name []) before).world.calls = before.calls ++ tagged name [] root.calls := by
  have notes := notes_segment name root []
  simp only [build_plan, build_world, Segments.plan, notes.fault, notes.pieces, notes.world, true_and]
  intro plan built
  cases calm : (segment [] root before.world).fault with
  | some message => simp [calm] at built
  | none => exact notes.calls before calm

theorem played_cons (root : Node σ) (path : Path) (paths : List Path) :
    root.played (path :: paths) =
      match root.resolve path with
      | .ok _ => .render path :: root.played paths
      | .error _ => root.played paths := by
  rw [Node.played, List.filter_cons]
  cases root.resolve path <;> rfl

structure Outcome.Notes (recorded : Outcome (Recorded σ)) (plain : Outcome σ) (calls : List (Nat × Call)) : Prop where
  out : recorded.out = plain.out
  fault : recorded.fault = plain.fault
  world : recorded.world.world = plain.world
  calls : plain.fault = none → recorded.world.calls = calls

theorem notes_rendition (name : Nat) (root : Node σ) (pieces : List Piece) (before : Recorded σ) :
    Outcome.Notes (rendition (root.recorded name []) pieces before) (rendition root pieces before.world)
      (before.calls ++ tagged name [] (root.played (pieces.filterMap Piece.path?))) := by
  induction pieces generalizing before with
  | nil => exact ⟨rfl, rfl, rfl, fun _ => (List.append_nil before.calls).symm⟩
  | cons piece rest ih =>
      cases piece with
      | static bytes =>
          have later := ih before
          refine ⟨?_, later.fault, later.world, later.calls⟩
          exact congrArg (bytes ++ ·) later.out
      | dynamic path =>
          have paths : (Piece.dynamic path :: rest).filterMap Piece.path? = path :: rest.filterMap Piece.path? := rfl
          simp only [paths, played_cons, rendition, Piece.rendition, Node.recorded_resolve, List.nil_append]
          cases root.resolve path with
          | error miss => exact ih before
          | ok node =>
              simp only [Except.map, Node.recorded_render, Effect.andThen, Effect.noted]
              cases calm : (node.render before.world).fault with
              | some message => exact ⟨rfl, calm.symm, rfl, fun absent => absurd (calm.symm.trans absent) (by simp)⟩
              | none =>
                  have later := ih ⟨(node.render before.world).world, before.calls ++ [(name, .render path)]⟩
                  refine ⟨?_, later.fault, later.world, ?_⟩
                  · exact congrArg ((node.render before.world).out ++ ·) later.out
                  · intro unharmed
                    rw [later.calls unharmed, List.append_assoc]
                    rfl

end Stencil
