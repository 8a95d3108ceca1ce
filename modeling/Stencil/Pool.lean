import Stencil.Bytes

set_option autoImplicit false

namespace Stencil

structure Room where
  used : Nat
  capacity : Nat
deriving DecidableEq, Repr

namespace Room

-- A buffer that has to grow at least doubles.
def reserve (extra : Nat) (room : Room) : Room :=
  if room.capacity < room.used + extra then
    { room with capacity := max (max (2 * room.capacity) (room.used + extra)) 8 }
  else room

def extend (count : Nat) (room : Room) : Room :=
  let roomy := room.reserve count
  { roomy with used := roomy.used + count }

def extendAll (counts : List Nat) (room : Room) : Room := counts.foldl (fun room count => room.extend count) room

@[simp] theorem reserve_used (extra : Nat) (room : Room) : (room.reserve extra).used = room.used := by
  rw [reserve]
  split <;> rfl

theorem reserve_enough (extra : Nat) (room : Room) : room.used + extra ≤ (room.reserve extra).capacity := by
  rw [reserve]
  split
  · exact Nat.le_trans (Nat.le_max_right _ _) (Nat.le_max_left _ _)
  · omega

theorem reserve_kept (extra : Nat) (room : Room) : room.capacity ≤ (room.reserve extra).capacity := by
  rw [reserve]
  split
  · show _ ≤ max (max _ _) _
    omega
  · exact Nat.le_refl _

end Room

-- `label` tells one buffer from another: it is the number of buffers made before it.
structure Buffer where
  label : Nat
  bytes : Bytes
  capacity : Nat
deriving DecidableEq, Repr

namespace Buffer

def room (buffer : Buffer) : Room := ⟨buffer.bytes.length, buffer.capacity⟩

def reserve (extra : Nat) (buffer : Buffer) : Buffer :=
  { buffer with capacity := (buffer.room.reserve extra).capacity }

def fill (bytes : Bytes) (room : Room) (buffer : Buffer) : Buffer :=
  { buffer with bytes := buffer.bytes ++ bytes, capacity := room.capacity }

def write (bytes : Bytes) (buffer : Buffer) : Buffer := buffer.fill bytes (buffer.room.extend bytes.length)

def clear (buffer : Buffer) : Buffer := { buffer with bytes := [] }

end Buffer

structure Pool where
  idle : List Buffer
  made : Nat
deriving DecidableEq, Repr

namespace Pool

def empty : Pool := ⟨[], 0⟩

def largestCapacity : Nat := 256 * 1024

def mostIdle : Nat := 64

def take (pool : Pool) (capacity : Nat) : Buffer × Pool :=
  match pool.idle with
  | buffer :: rest => (buffer.reserve capacity, { pool with idle := rest })
  | [] => (Buffer.reserve capacity ⟨pool.made, [], 0⟩, { pool with made := pool.made + 1 })

def give (pool : Pool) (buffer : Buffer) : Pool :=
  if largestCapacity < buffer.capacity then pool
  else if pool.idle.length < mostIdle then { pool with idle := buffer.clear :: pool.idle }
  else pool

def use (asked : Nat) (bytes : Bytes) (grow : Room → Room) (pool : Pool) : Pool :=
  let taken := pool.take asked
  taken.2.give (taken.1.fill bytes (grow taken.1.room))

end Pool

end Stencil
