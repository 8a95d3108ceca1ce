import Stencil.Pool

set_option autoImplicit false

namespace Stencil

structure Loans where
  pool : Pool
  held : List (String × Buffer)
deriving DecidableEq, Repr

namespace Loans

def empty : Loans := ⟨.empty, []⟩

def find? (name : String) (loans : Loans) : Option Buffer :=
  (loans.held.find? fun entry => entry.1 == name).map (·.2)

def giveBack (name : String) (loans : Loans) : Loans :=
  match loans.find? name with
  | some buffer => ⟨loans.pool.give buffer, loans.held.filter fun entry => !(entry.1 == name)⟩
  | none => loans

-- Checks a buffer out; what was held under the name goes back only then.
def checkOut (name : String) (capacity : Nat) (loans : Loans) : Buffer × Loans :=
  let taken := loans.pool.take capacity
  let left := giveBack name { loans with pool := taken.2 }
  (taken.1, { left with held := (name, taken.1) :: left.held })

def write (name : String) (bytes : Bytes) (loans : Loans) : Loans :=
  { loans with held := loans.held.map fun entry => if entry.1 == name then (name, entry.2.write bytes) else entry }

inductive Step where
  | checkOut (name : String) (capacity : Nat)
  | write (name : String) (bytes : Bytes)
  | giveBack (name : String)
deriving DecidableEq, Repr

def step (loans : Loans) : Step → Loans
  | .checkOut name capacity => (loans.checkOut name capacity).2
  | .write name bytes => loans.write name bytes
  | .giveBack name => loans.giveBack name

def run (steps : List Step) (loans : Loans) : Loans := steps.foldl step loans

end Loans

end Stencil
