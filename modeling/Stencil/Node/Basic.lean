import Stencil.Effect
import Stencil.Escape

set_option autoImplicit false

namespace Stencil

inductive Text.Kind where
  | plain
  | live
  | raw
deriving DecidableEq, Repr

-- A leaf. Plain and live text is escaped, and only live text counts as dynamic.
structure Text where
  content : String
  kind : Text.Kind
deriving DecidableEq, Repr

namespace Text

def plain (content : String) : Text := ⟨content, .plain⟩

def live (content : String) : Text := ⟨content, .live⟩

def raw (content : String) : Text := ⟨content, .raw⟩

def isDynamic (text : Text) : Bool := text.kind = .live

def bytes (text : Text) : Bytes :=
  match text.kind with
  | .raw => utf8 text.content
  | .plain | .live => escape text.content

end Text

structure Tags (σ : Type) where
  openTag : Effect σ
  closeTag : Effect σ

-- A tree over a world `σ`. `func` and `funcs` call a closure: `body` reads the world and yields the
-- content, and `after` is the world that the call leaves behind, in which the content is then rendered.
-- `custom` is any other implementation of a node.
inductive Node (σ : Type) where
  | element (tag : String) (attributes : List (String × String)) (dynamic : Bool) (children : List (Node σ))
  | text (leaf : Text)
  | fragment (children : List (Node σ))
  | func (body : σ → Node σ) (after : σ → σ)
  | funcs (body : σ → List (Node σ)) (after : σ → σ)
  | choice (condition : Bool) (yes : Node σ) (no : Option (Node σ))
  | custom (dynamic : Bool) (tags : Option (Tags σ)) (body : Effect σ) (children : List (Node σ))

def voidElements : List String :=
  ["area", "base", "br", "col", "embed", "hr", "img", "input", "link", "meta", "source", "track", "wbr"]

def attributeBytes (entry : String × String) : Bytes :=
  32 :: (utf8 entry.1 ++ (61 :: 34 :: (escape entry.2 ++ [34])))

def openTagBytes (tag : String) (attributes : List (String × String)) : Bytes :=
  60 :: (utf8 tag ++ (attributes.flatMap attributeBytes ++ [62]))

-- A void element is never closed, unless it was given children.
def closeTagBytes (tag : String) (childless : Bool) : Bytes :=
  if childless && voidElements.contains tag then [] else 60 :: 47 :: (utf8 tag ++ [62])

namespace Node

variable {σ : Type}

def children : Node σ → List (Node σ)
  | .element _ _ _ children => children
  | .fragment children => children
  | .custom _ _ _ children => children
  | .text _ | .func _ _ | .funcs _ _ | .choice _ _ _ => []

def isDynamic : Node σ → Bool
  | .element _ _ dynamic _ => dynamic
  | .text leaf => leaf.isDynamic
  | .fragment _ => false
  | .func _ _ | .funcs _ _ | .choice _ _ _ => true
  | .custom dynamic _ _ _ => dynamic

def tags? : Node σ → Option (Tags σ)
  | .element tag attributes _ children =>
      some ⟨.write (openTagBytes tag attributes), .write (closeTagBytes tag children.isEmpty)⟩
  | .custom _ tags _ _ => tags
  | .text _ | .fragment _ | .func _ _ | .funcs _ _ | .choice _ _ _ => none

mutual
def containsDynamic : Node σ → Bool
  | .element _ _ dynamic children => dynamic || anyDynamic children
  | .text leaf => leaf.isDynamic
  | .fragment children => anyDynamic children
  | .func _ _ | .funcs _ _ | .choice _ _ _ => true
  | .custom dynamic _ _ children => dynamic || anyDynamic children

def anyDynamic : List (Node σ) → Bool
  | [] => false
  | node :: rest => containsDynamic node || anyDynamic rest
end

mutual
def render : Node σ → Effect σ
  | .element tag attributes _ children =>
      (Effect.write (openTagBytes tag attributes)).andThen
        ((renderAll children).andThen (.write (closeTagBytes tag children.isEmpty)))
  | .text leaf => .write leaf.bytes
  | .fragment children => renderAll children
  | .func body after => fun world => render (body world) (after world)
  | .funcs body after => fun world => renderAll (body world) (after world)
  | .choice condition yes no => if condition then render yes else renderOption no
  | .custom _ _ body _ => body

def renderAll : List (Node σ) → Effect σ
  | [] => .skip
  | node :: rest => (render node).andThen (renderAll rest)

def renderOption : Option (Node σ) → Effect σ
  | none => .skip
  | some node => render node
end

theorem anyDynamic_eq_any (nodes : List (Node σ)) : anyDynamic nodes = nodes.any containsDynamic := by
  induction nodes with
  | nil => simp [anyDynamic]
  | cons node rest ih => simp [anyDynamic, ih]

theorem containsDynamic_eq (node : Node σ) :
    node.containsDynamic = (node.isDynamic || node.children.any containsDynamic) := by
  cases node <;> simp [containsDynamic, isDynamic, children, anyDynamic_eq_any]

@[simp] theorem renderAll_append (left right : List (Node σ)) :
    renderAll (left ++ right) = (renderAll left).andThen (renderAll right) := by
  induction left with
  | nil => simp [renderAll]
  | cons node rest ih => simp [renderAll, ih, Effect.andThen_assoc]

end Node

end Stencil
