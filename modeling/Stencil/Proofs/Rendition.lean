import Stencil.Plan.Execute
import Stencil.Proofs.Condensed

set_option autoImplicit false

namespace Stencil

variable {σ : Type}

def Piece.rendition (root : Node σ) : Piece → Effect σ
  | .static bytes => .write bytes
  | .dynamic path =>
      match root.resolve path with
      | .ok node => node.render
      | .error _ => .skip

def rendition (root : Node σ) : List Piece → Effect σ
  | [] => .skip
  | piece :: rest => (piece.rendition root).andThen (rendition root rest)

def Execution.outcome (execution : Execution σ) : Outcome σ := ⟨execution.out, execution.world, execution.fault⟩

theorem executePieces_outcome (root : Node σ) (pieces : List Piece) (world : σ) :
    (executePieces root pieces world).outcome = rendition root pieces world := by
  induction pieces generalizing world with
  | nil => rfl
  | cons piece rest ih =>
      cases piece with
      | static bytes =>
          rw [rendition, Piece.rendition, Effect.write_andThen, ← ih world]
          rfl
      | dynamic path =>
          simp only [executePieces, rendition, Piece.rendition]
          cases root.resolve path with
          | error miss => exact ih world
          | ok node =>
              simp only [Effect.andThen]
              cases faulted : (node.render world).fault with
              | some message => simp [Execution.outcome, ← faulted]
              | none =>
                  simp only [← ih (node.render world).world]
                  rfl

@[simp] theorem execute_outcome (plan : Plan) (root : Node σ) (world : σ) :
    (plan.execute root world).outcome = rendition root plan.pieces world :=
  executePieces_outcome root plan.pieces world

theorem rendition_append (root : Node σ) (left right : List Piece) :
    rendition root (left ++ right) = (rendition root left).andThen (rendition root right) := by
  induction left with
  | nil => rfl
  | cons piece rest ih => rw [List.cons_append, rendition, ih, rendition, Effect.andThen_assoc]

theorem write_nil_andThen (next : Effect σ) : (Effect.write []).andThen next = next := rfl

theorem rendition_prepend (root : Node σ) (bytes : Bytes) (pieces : List Piece) :
    rendition root (prepend bytes pieces) = (Effect.write bytes).andThen (rendition root pieces) := by
  have cut : ∀ pieces, rendition root (if bytes = [] then pieces else .static bytes :: pieces) =
      (Effect.write bytes).andThen (rendition root pieces) := by
    intro pieces
    by_cases empty : bytes = []
    · rw [if_pos empty, empty, write_nil_andThen]
    · rw [if_neg empty]
      rfl
  cases pieces with
  | nil => exact cut []
  | cons piece rest =>
      cases piece with
      | dynamic path => exact cut (.dynamic path :: rest)
      | static next =>
          simp only [prepend, rendition, Piece.rendition]
          rw [Effect.write_append, Effect.andThen_assoc]

theorem rendition_condense (root : Node σ) (pieces : List Piece) :
    rendition root (condense pieces) = rendition root pieces := by
  induction pieces with
  | nil => rfl
  | cons piece rest ih =>
      cases piece with
      | static bytes => rw [condense, rendition_prepend, ih]; rfl
      | dynamic path => rw [condense, rendition, ih]; rfl

theorem executePieces_silent (root : Node σ) (pieces : List Piece) (world : σ)
    (resolved : ∀ path ∈ pieces.filterMap Piece.path?, ∃ node, root.resolve path = .ok node) :
    (executePieces root pieces world).events = [] := by
  induction pieces generalizing world with
  | nil => rfl
  | cons piece rest ih =>
      cases piece with
      | static bytes => exact ih world resolved
      | dynamic path =>
          obtain ⟨node, found⟩ := resolved path List.mem_cons_self
          have later := fun world => ih world fun path member => resolved path (List.mem_cons_of_mem _ member)
          simp only [executePieces, found]
          cases (node.render world).fault with
          | some message => rfl
          | none => exact later (node.render world).world

theorem validatePaths_of_resolved (root : Node σ) (paths : List Path)
    (resolved : ∀ path ∈ paths, ∃ node, root.resolve path = .ok node) : validatePaths root paths = .ok () := by
  induction paths with
  | nil => rfl
  | cons path rest ih =>
      obtain ⟨node, found⟩ := resolved path List.mem_cons_self
      simp only [validatePaths, found]
      exact ih fun path member => resolved path (List.mem_cons_of_mem _ member)

end Stencil
