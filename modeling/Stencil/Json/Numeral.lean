import Stencil.Decimal

set_option autoImplicit false

namespace Stencil.Json

structure Exponent where
  negative : Bool
  digits : List Char
deriving DecidableEq, Repr

structure Numeral where
  negative : Bool
  whole : List Char
  fraction : Option (List Char)
  exponent : Option Exponent
deriving DecidableEq, Repr

namespace Numeral

def word? (n : Numeral) : Option UInt32 :=
  if n.negative || n.fraction.isSome || n.exponent.isSome then none
  else if Decimal.value n.whole < UInt32.size then some (UInt32.ofNat (Decimal.value n.whole))
  else none

structure Scaled where
  significand : Nat
  scale : Int
deriving DecidableEq, Repr

-- Once a digit does not fit, it and all later digits before the point only raise the scale.
def addWhole (significand : Nat) : List Char → Scaled
  | [] => ⟨significand, 0⟩
  | c :: rest =>
      let next := 10 * significand + Decimal.digitValue c
      if next < UInt64.size then addWhole next rest else ⟨significand, (rest.length + 1 : Nat)⟩

def addFraction (s : Scaled) : List Char → Scaled
  | [] => s
  | c :: rest =>
      let next := 10 * s.significand + Decimal.digitValue c
      if next < UInt64.size then addFraction ⟨next, s.scale - 1⟩ rest else s

def scaled (n : Numeral) : Scaled := addFraction (addWhole 0 n.whole) (n.fraction.getD [])

-- The nearest number with 53 significant bits, an exact half going to the even neighbour.
def round53 (n : Nat) : Nat :=
  let unit := Nat.pow 2 (n.log2 + 1 - 53)
  let quotient := n / unit
  let remainder := n % unit
  let up := unit < 2 * remainder || (unit == 2 * remainder && quotient % 2 == 1)
  (if up then quotient + 1 else quotient) * unit

-- A significand times a power of ten is finite if the product of the two, each rounded to a double,
-- still rounds to a double.
def Scaled.finite (s : Scaled) : Bool :=
  if s.significand = 0 || s.scale < 0 then true
  else if 308 < s.scale then false
  else round53 (round53 s.significand * round53 (Nat.pow 10 s.scale.toNat)) < Nat.pow 2 1024

-- An exponent beyond 31 bits is out of range at once, unless it is negative or the significand is zero.
def finite (n : Numeral) : Bool :=
  let base := n.scaled
  match n.exponent with
  | none => base.finite
  | some e =>
      let size := Decimal.value e.digits
      if size < Nat.pow 2 31 then
        Scaled.finite ⟨base.significand, if e.negative then base.scale - size else base.scale + size⟩
      else e.negative || base.significand == 0

end Numeral

end Stencil.Json
