import Stencil.Node.Path

set_option autoImplicit false

namespace Stencil

inductive Piece where
  | static (bytes : Bytes)
  | dynamic (path : Path)
deriving DecidableEq, Repr

def Piece.path? : Piece → Option Path
  | .static _ => none
  | .dynamic path => some path

def Piece.staticLength : Piece → Nat
  | .static bytes => bytes.length
  | .dynamic _ => 0

structure Plan where
  pieces : List Piece
deriving DecidableEq, Repr

namespace Plan

def length (plan : Plan) : Nat := plan.pieces.length

def isEmpty (plan : Plan) : Bool := plan.pieces.isEmpty

def paths (plan : Plan) : List Path := plan.pieces.filterMap Piece.path?

def staticLength (plan : Plan) : Nat := plan.pieces.foldr (fun piece length => piece.staticLength + length) 0

end Plan

end Stencil
