import Stencil.Entries

set_option autoImplicit false

namespace Stencil

-- What a registry asks of an unbounded map. `entry` is what the slot of an id holds that it is about to fill.
structure Table (μ α : Type) where
  new : μ
  get : String → μ → Option α
  entry : String → μ → Option α
  insert : String → α → μ → μ
  remove : String → μ → Option α × μ
  clear : μ → μ
  contains : String → μ → Bool
  length : μ → Nat

namespace Table

variable {μ α : Type}

-- Documented behaviour of a map with one value for each id.
structure Lawful (table : Table μ α) : Prop where
  new_get : ∀ id, table.get id table.new = none
  new_length : table.length table.new = 0
  entry_get : ∀ id map, table.entry id map = table.get id map
  insert_get : ∀ id value other map,
    table.get other (table.insert id value map) = if other = id then some value else table.get other map
  insert_length : ∀ id value map,
    table.length (table.insert id value map) = table.length map + if (table.get id map).isSome then 0 else 1
  remove_value : ∀ id map, (table.remove id map).1 = table.get id map
  remove_get : ∀ id other map,
    table.get other (table.remove id map).2 = if other = id then none else table.get other map
  remove_length : ∀ id map,
    table.length (table.remove id map).2 = table.length map - if (table.get id map).isSome then 1 else 0
  clear_get : ∀ id map, table.get id (table.clear map) = none
  clear_length : ∀ map, table.length (table.clear map) = 0
  contains_present : ∀ id map, table.contains id map = (table.get id map).isSome

end Table

structure Directory (α : Type) where
  entries : Entries α
  distinct : entries.ids.Nodup

namespace Directory

variable {α : Type}

def empty : Directory α := ⟨[], List.nodup_nil⟩

def find? (id : String) (directory : Directory α) : Option α := directory.entries.value? id

def remove (id : String) (directory : Directory α) : Directory α where
  entries := directory.entries.without id
  distinct := by
    rw [Entries.ids_without]
    exact directory.distinct.filter _

def insert (id : String) (value : α) (directory : Directory α) : Directory α where
  entries := (id, value) :: directory.entries.without id
  distinct := Entries.front_distinct id value directory.entries directory.distinct

def table : Table (Directory α) α where
  new := empty
  get := find?
  entry := find?
  insert := insert
  remove id directory := (directory.find? id, directory.remove id)
  clear _ := empty
  contains id directory := (directory.find? id).isSome
  length directory := directory.entries.length

@[simp] theorem find?_remove (id other : String) (directory : Directory α) :
    (directory.remove other).find? id = if id = other then none else directory.find? id :=
  Entries.value?_without id other directory.entries

@[simp] theorem find?_insert (id other : String) (value : α) (directory : Directory α) :
    (directory.insert other value).find? id = if id = other then some value else directory.find? id :=
  Entries.front_value? id other value directory.entries

theorem table_lawful : (table : Table (Directory α) α).Lawful where
  new_get _ := rfl
  new_length := rfl
  entry_get _ _ := rfl
  insert_get id value other map := find?_insert other id value map
  insert_length id value map := Entries.front_length id value map.entries map.distinct
  remove_value _ _ := rfl
  remove_get id other map := find?_remove other id map
  remove_length id map := Entries.without_length id map.entries map.distinct
  clear_get _ _ := rfl
  clear_length _ := rfl
  contains_present _ _ := rfl

end Directory

end Stencil
