import Stencil.Plan.Execute
import Stencil.Pool

set_option autoImplicit false

namespace Stencil

structure Grown (σ : Type) where
  room : Room
  world : σ
  fault : Option String

abbrev Growth (σ : Type) := σ → Room → Grown σ

namespace Growth

variable {σ : Type}

def wide (widen : Room → Room) : Growth σ := fun world room => ⟨widen room, world, none⟩

def andThen (first second : Growth σ) : Growth σ := fun world room =>
  let before := first world room
  match before.fault with
  | some _ => before
  | none => second before.world before.room

-- Whatever an effect writes comes in one piece.
def ofEffect (effect : Effect σ) : Growth σ := fun world room =>
  let outcome := effect world
  ⟨room.extend outcome.out.length, outcome.world, outcome.fault⟩

end Growth

namespace Room

-- Room for the whole text is made ahead of its first entity.
def escaped (text : String) (room : Room) : Room :=
  let ahead := if marks (utf8 text) = [] then room else room.reserve ((utf8 text).length + 8)
  ahead.extendAll ((escapePieces text).map List.length)

def attributePair (entry : String × String) (room : Room) : Room :=
  ((room.extendAll [1, (utf8 entry.1).length, 2]).escaped entry.2).extend 1

def openTag (tag : String) (attributes : List (String × String)) (room : Room) : Room :=
  (attributes.foldl (fun room entry => room.attributePair entry) (room.extendAll [1, (utf8 tag).length])).extend 1

def closeTag (tag : String) (childless : Bool) (room : Room) : Room :=
  if childless && voidElements.contains tag then room else room.extendAll [2, (utf8 tag).length, 1]

def text (leaf : Text) (room : Room) : Room :=
  match leaf.kind with
  | .raw => room.extend (utf8 leaf.content).length
  | .plain | .live => room.escaped leaf.content

end Room

variable {σ : Type}

mutual
def Node.growth : Node σ → Growth σ
  | .element tag attributes _ children =>
      (Growth.wide (Room.openTag tag attributes)).andThen
        ((growthAll children).andThen (.wide (Room.closeTag tag children.isEmpty)))
  | .text leaf => .wide (Room.text leaf)
  | .fragment children => growthAll children
  | .func body after => fun world => (body world).growth (after world)
  | .funcs body after => fun world => growthAll (body world) (after world)
  | .choice condition yes no => if condition then yes.growth else growthOption no
  | .custom _ _ body _ => .ofEffect body

def Node.growthAll : List (Node σ) → Growth σ
  | [] => .wide id
  | node :: rest => node.growth.andThen (growthAll rest)

def Node.growthOption : Option (Node σ) → Growth σ
  | none => .wide id
  | some node => node.growth
end

def growPieces (root : Node σ) : List Piece → Growth σ
  | [] => .wide id
  | .static bytes :: pieces => (Growth.wide (·.extend bytes.length)).andThen (growPieces root pieces)
  | .dynamic path :: pieces =>
      match root.resolve path with
      | .ok node => node.growth.andThen (growPieces root pieces)
      | .error _ => growPieces root pieces

def Node.grow (root : Node σ) (world : σ) (room : Room) : Room := (root.growth world room).room

def Plan.grow (plan : Plan) (root : Node σ) (world : σ) (room : Room) : Room :=
  (growPieces root plan.pieces world room).room

end Stencil
