import Stencil.Event
import Stencil.Plan.Basic

set_option autoImplicit false

namespace Stencil

structure Execution (σ : Type) where
  out : Bytes
  world : σ
  fault : Option String
  events : List Event

variable {σ : Type}

def executePieces (root : Node σ) : List Piece → σ → Execution σ
  | [], world => ⟨[], world, none, []⟩
  | .static bytes :: pieces, world =>
      let later := executePieces root pieces world
      { later with out := bytes ++ later.out }
  | .dynamic path :: pieces, world =>
      match root.resolve path with
      | .ok node =>
          let outcome := node.render world
          match outcome.fault with
          | some message => ⟨outcome.out, outcome.world, some message, []⟩
          | none =>
              let later := executePieces root pieces outcome.world
              { later with out := outcome.out ++ later.out }
      | .error miss =>
          let later := executePieces root pieces world
          { later with events := .pathUnresolved path miss :: later.events }

def Plan.execute (plan : Plan) (root : Node σ) (world : σ) : Execution σ :=
  executePieces root plan.pieces world

def validatePaths (root : Node σ) : List Path → Except Error Unit
  | [] => .ok ()
  | path :: paths =>
      match root.resolve path with
      | .ok _ => validatePaths root paths
      | .error miss => .error (.structureMismatch path miss)

def Plan.validate (plan : Plan) (root : Node σ) : Except Error Unit := validatePaths root plan.paths

end Stencil
