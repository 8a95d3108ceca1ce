import Stencil.Event
import Stencil.Lru
import Stencil.Table

set_option autoImplicit false

namespace Stencil

-- What can be asked of a registry. `during` is what the creation of a missing value asks in its turn.
inductive Op (α : Type) where
  | get (id : String)
  | insert (id : String) (value : α)
  | getOrInsert (id : String) (value : α) (during : List (Op α))
  | remove (id : String)
  | contains (id : String)
  | length
  | clear
  | reset (ids : List String)

inductive Answer (α : Type) where
  | found (value : Option α)
  | stored (value : α)
  | obtained (value : α) (created : Bool)
  | contained (present : Bool)
  | counted (length : Nat)
  | done
deriving DecidableEq, Repr

structure Answered (ρ α : Type) where
  answer : Answer α
  store : ρ
  during : List (Answered ρ α)

structure Performed (ρ α : Type) where
  answer : Answer α
  during : List (Answered ρ α)
  store : ρ
  events : List Event

def Performed.answered {ρ α : Type} (performed : Performed ρ α) : Answered ρ α :=
  ⟨performed.answer, performed.store, performed.during⟩

structure PerformedAll (ρ α : Type) where
  answers : List (Answered ρ α)
  store : ρ
  events : List Event

structure Created (ρ α : Type) where
  value : α
  during : PerformedAll ρ α

def Created.alone {ρ α : Type} (value : α) (store : ρ) : Created ρ α := ⟨value, [], store, []⟩

structure Obtained (ρ α : Type) where
  value : α
  created : Bool
  during : List (Answered ρ α)
  store : ρ
  events : List Event

def Obtained.performed {ρ α : Type} (obtained : Obtained ρ α) : Performed ρ α :=
  ⟨.obtained obtained.value obtained.created, obtained.during, obtained.store, obtained.events⟩

structure Registry (ρ α : Type) where
  get : String → ρ → Option α × ρ
  insert : String → α → ρ → ρ
  obtainWith : String → (ρ → Created ρ α) → ρ → Obtained ρ α
  remove : String → ρ → Option α × ρ
  clear : ρ → ρ
  contains : String → ρ → Bool
  length : ρ → Nat

namespace Registry

section Bounded

variable {γ α : Type}

-- Stores a created value, unless the creation left another one under the id.
def settle (lru : Lru γ α) (id : String) (created : Created γ α) : Obtained γ α :=
  let during := created.during
  match lru.get id during.store with
  | (some winner, used) => ⟨winner, true, during.answers, used, during.events⟩
  | (none, left) =>
      let pushed := lru.push id created.value left
      let displaced := (pushed.1.map Prod.fst).filter (· != id)
      ⟨created.value, true, during.answers, pushed.2, during.events ++ displaced.toList.map .entryEvicted⟩

def bounded (lru : Lru γ α) : Registry γ α where
  get := lru.get
  insert id value cache := (lru.put id value cache).2
  obtainWith id create cache :=
    match lru.get id cache with
    | (some present, used) => ⟨present, false, [], used, []⟩
    | (none, left) => settle lru id (create left)
  remove := lru.pop
  clear := lru.clear
  contains := lru.contains
  length := lru.length

end Bounded

-- The slot of a missing id is locked until its creation has ended, so no value can be left there in the meantime.
def unbounded {μ α : Type} (table : Table μ α) : Registry μ α where
  get id map := (table.get id map, map)
  insert := table.insert
  obtainWith id create map :=
    match table.get id map with
    | some present => ⟨present, false, [], map, []⟩
    | none =>
        match table.entry id map with
        | some occupant => ⟨occupant, false, [], map, []⟩
        | none =>
            let created := create map
            ⟨created.value, true, created.during.answers, table.insert id created.value created.during.store,
              created.during.events⟩
  remove := table.remove
  clear := table.clear
  contains := table.contains
  length := table.length

variable {ρ α : Type}

def isEmpty (registry : Registry ρ α) (store : ρ) : Bool := registry.length store == 0

-- No ids at all stand for all of them.
def reset (registry : Registry ρ α) (ids : List String) (store : ρ) : ρ :=
  if ids.isEmpty then registry.clear store else ids.foldl (fun left id => (registry.remove id left).2) store

mutual
def perform (registry : Registry ρ α) : Op α → ρ → Performed ρ α
  | .get id, store =>
      let used := registry.get id store
      ⟨.found used.1, [], used.2, []⟩
  | .insert id value, store => ⟨.stored value, [], registry.insert id value store, []⟩
  | .getOrInsert id value during, store =>
      (registry.obtainWith id (fun left => ⟨value, performAll registry during left⟩) store).performed
  | .remove id, store =>
      let removed := registry.remove id store
      ⟨.found removed.1, [], removed.2, []⟩
  | .contains id, store => ⟨.contained (registry.contains id store), [], store, []⟩
  | .length, store => ⟨.counted (registry.length store), [], store, []⟩
  | .clear, store => ⟨.done, [], registry.clear store, []⟩
  | .reset ids, store => ⟨.done, [], registry.reset ids store, []⟩

def performAll (registry : Registry ρ α) : List (Op α) → ρ → PerformedAll ρ α
  | [], store => ⟨[], store, []⟩
  | first :: rest, store =>
      let performed := perform registry first store
      let later := performAll registry rest performed.store
      ⟨performed.answered :: later.answers, later.store, performed.events ++ later.events⟩
end

end Registry

def Directory.registry {α : Type} : Registry (Directory α) α := .unbounded Directory.table

end Stencil
