import Stencil.Json.Reader

set_option autoImplicit false

namespace Stencil.Json

mutual
def depth : Json → Nat
  | .null | .bool _ | .number _ | .text _ => 0
  | .array items => itemsDepth items + 1
  | .object members => membersDepth members + 1

def itemsDepth : List Json → Nat
  | [] => 0
  | item :: items => max (depth item) (itemsDepth items)

def membersDepth : List (List Glyph × Json) → Nat
  | [] => 0
  | member :: members => max (memberDepth member) (membersDepth members)

def memberDepth : List Glyph × Json → Nat
  | (_, value) => depth value
end

section

variable (ranged : Numeral → Bool)

mutual
def readable : Json → Bool
  | .null | .bool _ => true
  | .number n => ranged n
  | .text glyphs => (decodeGlyphs glyphs).isSome
  | .array items => itemsReadable items
  | .object members => membersReadable members

def itemsReadable : List Json → Bool
  | [] => true
  | item :: items => readable item && itemsReadable items

def membersReadable : List (List Glyph × Json) → Bool
  | [] => true
  | member :: members => memberReadable member && membersReadable members

def memberReadable : List Glyph × Json → Bool
  | (key, value) => (decodeGlyphs key).isSome && readable value
end

end

def depthLimit : Nat := 128

-- Whether a member's value can be set aside, the object around it counting as one level.
def keepable (value : Json) : Bool := value.depth + 1 < depthLimit && value.readable Numeral.finite

def word? : Json → Option UInt32
  | .number n => n.word?
  | .null | .bool _ | .text _ | .array _ | .object _ => none

end Stencil.Json
