import Stencil.Node.Basic

set_option autoImplicit false

namespace Stencil

abbrev Path := List Nat

def Path.text (path : Path) : String := "[" ++ ", ".intercalate (path.map toString) ++ "]"

structure Miss where
  depth : Nat
  expected : Nat
  available : Nat
deriving DecidableEq, Repr

namespace Node

variable {σ : Type}

def resolveFrom (depth : Nat) : Path → Node σ → Except Miss (Node σ)
  | [], node => .ok node
  | index :: path, node =>
      match node.children[index]? with
      | some child => resolveFrom (depth + 1) path child
      | none => .error ⟨depth, index, node.children.length⟩

def resolve (root : Node σ) (path : Path) : Except Miss (Node σ) := resolveFrom 0 path root

end Node

end Stencil
