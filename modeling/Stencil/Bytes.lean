set_option autoImplicit false

namespace Stencil

abbrev Bytes := List UInt8

def encode (chars : List Char) : Bytes := chars.flatMap String.utf8EncodeChar

def utf8 (text : String) : Bytes := encode text.toList

@[simp] theorem encode_cons (c : Char) (chars : List Char) :
    encode (c :: chars) = String.utf8EncodeChar c ++ encode chars := rfl

@[simp] theorem encode_append (left right : List Char) : encode (left ++ right) = encode left ++ encode right := by
  simp [encode]

end Stencil
