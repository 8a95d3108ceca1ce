import Stencil.Event
import Stencil.Plan.Basic

set_option autoImplicit false

namespace Stencil

-- A plan in the making: the finished pieces and the frozen bytes not yet cut off, both newest first,
-- and the world and fault that the renderings so far have left.
structure Draft (σ : Type) where
  pieces : List Piece
  pending : List Bytes
  world : σ
  fault : Option String

namespace Draft

variable {σ : Type}

def start (world : σ) : Draft σ := ⟨[], [], world, none⟩

def frozen (draft : Draft σ) : Bytes := draft.pending.reverse.flatten

def cut (draft : Draft σ) : Draft σ :=
  let bytes := draft.frozen
  if bytes.isEmpty then { draft with pending := [] }
  else { draft with pieces := .static bytes :: draft.pieces, pending := [] }

def absorb (effect : Effect σ) (draft : Draft σ) : Draft σ :=
  match draft.fault with
  | some _ => draft
  | none =>
      let outcome := effect draft.world
      { draft with pending := outcome.out :: draft.pending, world := outcome.world, fault := outcome.fault }

def leavePath (reversed : Path) (draft : Draft σ) : Draft σ :=
  let cutOff := draft.cut
  { cutOff with pieces := .dynamic reversed.reverse :: cutOff.pieces }

def visit (reversed : Path) (node : Node σ) (inside : Draft σ → Draft σ) (draft : Draft σ) : Draft σ :=
  if node.isDynamic then draft.leavePath reversed
  else if node.children.any Node.containsDynamic then
    match node.tags? with
    | some tags => (inside (draft.absorb tags.openTag)).absorb tags.closeTag
    | none => inside draft
  else draft.absorb node.render

mutual
def walk (reversed : Path) : Node σ → Draft σ → Draft σ
  | .element tag attributes dynamic children, draft =>
      visit reversed (.element tag attributes dynamic children) (walkAll reversed 0 children) draft
  | .fragment children, draft => visit reversed (.fragment children) (walkAll reversed 0 children) draft
  | .custom dynamic tags body children, draft =>
      visit reversed (.custom dynamic tags body children) (walkAll reversed 0 children) draft
  | .text leaf, draft => visit reversed (.text leaf) id draft
  | .func body after, draft => visit reversed (.func body after) id draft
  | .funcs body after, draft => visit reversed (.funcs body after) id draft
  | .choice condition yes no, draft => visit reversed (.choice condition yes no) id draft

def walkAll (reversed : Path) (index : Nat) : List (Node σ) → Draft σ → Draft σ
  | [], draft => draft
  | node :: rest, draft => walkAll reversed (index + 1) rest (walk (index :: reversed) node draft)
end

def plan (draft : Draft σ) : Plan := ⟨draft.cut.pieces.reverse⟩

end Draft

structure Build (σ : Type) where
  plan : Except String Plan
  world : σ
  events : List Event

variable {σ : Type}

def Plan.build (root : Node σ) (world : σ) : Build σ :=
  let draft := (Draft.start world).walk [] root
  match draft.fault with
  | some message => ⟨.error message, draft.world, []⟩
  | none =>
      let plan := draft.plan
      ⟨.ok plan, draft.world, [.planBuilt plan.length plan.staticLength plan.paths.length]⟩

end Stencil
