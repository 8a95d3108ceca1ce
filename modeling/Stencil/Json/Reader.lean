import Stencil.Json.Token

set_option autoImplicit false

namespace Stencil

inductive Json where
  | null
  | bool (value : Bool)
  | number (value : Json.Numeral)
  | text (glyphs : List Json.Glyph)
  | array (items : List Json)
  | object (members : List (List Json.Glyph × Json))

namespace Json

inductive Frame where
  | array (done : List Json)
  | object (done : List (List Glyph × Json)) (key : List Glyph)

inductive Reader where
  | wantValue (stack : List Frame)
  | wantValueOrClose (stack : List Frame)
  | wantKey (done : List (List Glyph × Json)) (stack : List Frame)
  | wantKeyOrClose (stack : List Frame)
  | wantColon (done : List (List Glyph × Json)) (key : List Glyph) (stack : List Frame)
  | finished (value : Json) (stack : List Frame)

namespace Reader

def beginValue (stack : List Frame) : Token → Option Reader
  | .null => some (.finished .null stack)
  | .bool value => some (.finished (.bool value) stack)
  | .number value => some (.finished (.number value) stack)
  | .text glyphs => some (.finished (.text glyphs) stack)
  | .openArray => some (.wantValueOrClose stack)
  | .openObject => some (.wantKeyOrClose stack)
  | .closeArray | .closeObject | .comma | .colon => none

def afterValue (value : Json) : List Frame → Token → Option Reader
  | .array done :: stack, .comma => some (.wantValue (.array (value :: done) :: stack))
  | .array done :: stack, .closeArray => some (.finished (.array (value :: done).reverse) stack)
  | .object done key :: stack, .comma => some (.wantKey ((key, value) :: done) stack)
  | .object done key :: stack, .closeObject => some (.finished (.object ((key, value) :: done).reverse) stack)
  | _, _ => none

def step : Reader → Token → Option Reader
  | .wantValue stack, token => beginValue stack token
  | .wantValueOrClose stack, .closeArray => some (.finished (.array []) stack)
  | .wantValueOrClose stack, token => beginValue (.array [] :: stack) token
  | .wantKey done stack, .text glyphs => some (.wantColon done glyphs stack)
  | .wantKeyOrClose stack, .text glyphs => some (.wantColon [] glyphs stack)
  | .wantKeyOrClose stack, .closeObject => some (.finished (.object []) stack)
  | .wantColon done key stack, .colon => some (.wantValue (.object done key :: stack))
  | .finished value stack, token => afterValue value stack token
  | .wantKey _ _, _ | .wantKeyOrClose _, _ | .wantColon _ _ _, _ => none

def run : Reader → List Token → Option Reader
  | reader, [] => some reader
  | reader, token :: tokens =>
      match reader.step token with
      | some next => run next tokens
      | none => none

end Reader

def ofTokens? (tokens : List Token) : Option Json :=
  match Reader.run (.wantValue []) tokens with
  | some (.finished value []) => some value
  | _ => none

def ofChars? (chars : List Char) : Option Json := (tokens? chars).bind ofTokens?

end Json

end Stencil
