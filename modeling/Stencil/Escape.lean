import Stencil.Bytes

set_option autoImplicit false

namespace Stencil

def isBracket (byte : UInt8) : Bool := byte == 38 || byte == 60 || byte == 62

def isQuote (byte : UInt8) : Bool := byte == 34 || byte == 39

def entity? (byte : UInt8) : Option Bytes :=
  if byte = 38 then some (encode ['&', 'a', 'm', 'p', ';'])
  else if byte = 60 then some (encode ['&', 'l', 't', ';'])
  else if byte = 62 then some (encode ['&', 'g', 't', ';'])
  else if byte = 34 then some (encode ['&', 'q', 'u', 'o', 't', ';'])
  else if byte = 39 then some (encode ['&', '#', '3', '9', ';'])
  else none

def offsets (marked : UInt8 → Bool) (bytes : Bytes) : List Nat :=
  (bytes.zipIdx.filter fun entry => marked entry.1).map (·.2)

def marks (bytes : Bytes) : List Nat :=
  (offsets isBracket bytes).merge (offsets isQuote bytes) fun bracket quote => bracket ≤ quote

-- Replaces the bytes at the given offsets. `position` is the offset of the first byte of `rest`, and
-- `done` holds the finished pieces, newest first. There is no answer if an offset lies behind `position`
-- or outside the input, or if the byte there has no entity.
def splice? (position : Nat) (rest : Bytes) (done : List Bytes) : List Nat → Option (List Bytes)
  | [] => some (rest :: done)
  | offset :: later =>
      if offset < position then none
      else
        match rest.drop (offset - position) with
        | [] => none
        | byte :: beyond =>
            match entity? byte with
            | none => none
            | some replacement =>
                splice? (offset + 1) beyond (replacement :: rest.take (offset - position) :: done) later

def escapeBytes? (bytes : Bytes) : Option Bytes :=
  (splice? 0 bytes [] (marks bytes)).map fun pieces => pieces.reverse.flatten

def escapePieces (text : String) : List Bytes :=
  ((splice? 0 (utf8 text) [] (marks (utf8 text))).getD []).reverse

def escape (text : String) : Bytes := (escapeBytes? (utf8 text)).getD []

end Stencil
