import Stencil.Destination
import Stencil.Event

set_option autoImplicit false

namespace Stencil

structure Flattener where
  bytes : Bytes
deriving DecidableEq, Repr

namespace Flattener

variable {σ : Type}

inductive Attempt (σ : Type) where
  | refused (error : Error)
  | faulted (message : String) (world : σ)
  | flattened (flattener : Flattener) (world : σ)

-- A tree with dynamic content is refused before any of it is rendered.
def attempt (root : Node σ) (world : σ) : Attempt σ :=
  if root.containsDynamic then .refused .dynamicContent
  else
    let outcome := root.render world
    match outcome.fault with
    | some message => .faulted message outcome.world
    | none => .flattened ⟨outcome.out⟩ outcome.world

def render (flattener : Flattener) : Bytes := flattener.bytes

def renderTo (flattener : Flattener) (destination : Destination) : Written := destination.writeAll flattener.bytes

def length (flattener : Flattener) : Nat := flattener.bytes.length

def isEmpty (flattener : Flattener) : Bool := flattener.bytes.isEmpty

end Flattener

end Stencil
