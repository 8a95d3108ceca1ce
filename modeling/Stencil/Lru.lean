import Stencil.Entries

set_option autoImplicit false

namespace Stencil

-- What a registry asks of a bounded cache. `entries` lists a cache by the recency of use, the last used entry first.
structure Lru (γ α : Type) where
  new : Nat → γ
  capacity : γ → Nat
  entries : γ → Entries α
  get : String → γ → Option α × γ
  put : String → α → γ → Option α × γ
  push : String → α → γ → Option (String × α) × γ
  pop : String → γ → Option α × γ
  clear : γ → γ
  contains : String → γ → Bool
  length : γ → Nat

namespace Lru

variable {γ α : Type}

-- Documented behaviour: a hit and a store move their id to the front, and a store of a new id in a full cache drops the
-- entry at the back. `push` hands out the entry that it replaces or drops, `put` only a replaced value.
structure Lawful (lru : Lru γ α) : Prop where
  new_entries : ∀ capacity, 0 < capacity → lru.entries (lru.new capacity) = []
  new_capacity : ∀ capacity, 0 < capacity → lru.capacity (lru.new capacity) = capacity
  get_found : ∀ id value cache, (lru.entries cache).value? id = some value →
    (lru.get id cache).1 = some value ∧
      lru.entries (lru.get id cache).2 = (id, value) :: (lru.entries cache).without id
  get_missing : ∀ id cache, (lru.entries cache).value? id = none → lru.get id cache = (none, cache)
  push_present : ∀ id value old cache, (lru.entries cache).value? id = some old →
    (lru.push id value cache).1 = some (id, old) ∧
      lru.entries (lru.push id value cache).2 = (id, value) :: (lru.entries cache).without id
  push_roomy : ∀ id value cache, (lru.entries cache).value? id = none →
    (lru.entries cache).length < lru.capacity cache →
    (lru.push id value cache).1 = none ∧ lru.entries (lru.push id value cache).2 = (id, value) :: lru.entries cache
  push_full : ∀ id value cache, (lru.entries cache).value? id = none →
    (lru.entries cache).length = lru.capacity cache →
    (lru.push id value cache).1 = (lru.entries cache).getLast? ∧
      lru.entries (lru.push id value cache).2 = (id, value) :: (lru.entries cache).dropLast
  put_entries : ∀ id value cache, lru.entries (lru.put id value cache).2 = lru.entries (lru.push id value cache).2
  pop_value : ∀ id cache, (lru.pop id cache).1 = (lru.entries cache).value? id
  pop_entries : ∀ id cache, lru.entries (lru.pop id cache).2 = (lru.entries cache).without id
  clear_entries : ∀ cache, lru.entries (lru.clear cache) = []
  contains_present : ∀ id cache, lru.contains id cache = ((lru.entries cache).value? id).isSome
  length_entries : ∀ cache, lru.length cache = (lru.entries cache).length
  get_capacity : ∀ id cache, lru.capacity (lru.get id cache).2 = lru.capacity cache
  put_capacity : ∀ id value cache, lru.capacity (lru.put id value cache).2 = lru.capacity cache
  push_capacity : ∀ id value cache, lru.capacity (lru.push id value cache).2 = lru.capacity cache
  pop_capacity : ∀ id cache, lru.capacity (lru.pop id cache).2 = lru.capacity cache
  clear_capacity : ∀ cache, lru.capacity (lru.clear cache) = lru.capacity cache

end Lru

structure Recent (α : Type) where
  capacity : Nat
  entries : Entries α
deriving DecidableEq, Repr

namespace Recent

variable {α : Type}

def get (id : String) (cache : Recent α) : Option α × Recent α :=
  match cache.entries.value? id with
  | some value => (some value, { cache with entries := (id, value) :: cache.entries.without id })
  | none => (none, cache)

def push (id : String) (value : α) (cache : Recent α) : Option (String × α) × Recent α :=
  match cache.entries.value? id with
  | some old => (some (id, old), { cache with entries := (id, value) :: cache.entries.without id })
  | none =>
      if cache.entries.length < cache.capacity then (none, { cache with entries := (id, value) :: cache.entries })
      else (cache.entries.getLast?, { cache with entries := (id, value) :: cache.entries.dropLast })

def lru : Lru (Recent α) α where
  new capacity := ⟨capacity, []⟩
  capacity := capacity
  entries := entries
  get := get
  put id value cache := (cache.entries.value? id, (cache.push id value).2)
  push := push
  pop id cache := (cache.entries.value? id, { cache with entries := cache.entries.without id })
  clear cache := { cache with entries := [] }
  contains id cache := (cache.entries.value? id).isSome
  length cache := cache.entries.length

variable {id : String} {value old : α} {cache : Recent α}

@[simp] theorem get_found (found : cache.entries.value? id = some value) :
    cache.get id = (some value, { cache with entries := (id, value) :: cache.entries.without id }) := by
  rw [get, found]

@[simp] theorem get_missing (missing : cache.entries.value? id = none) : cache.get id = (none, cache) := by
  rw [get, missing]

theorem get_capacity (id : String) (cache : Recent α) : (cache.get id).2.capacity = cache.capacity := by
  rw [get]
  split <;> rfl

@[simp] theorem push_present (found : cache.entries.value? id = some old) :
    cache.push id value =
      (some (id, old), { cache with entries := (id, value) :: cache.entries.without id }) := by
  rw [push, found]

@[simp] theorem push_roomy (missing : cache.entries.value? id = none) (roomy : cache.entries.length < cache.capacity) :
    cache.push id value = (none, { cache with entries := (id, value) :: cache.entries }) := by
  simp only [push, missing, if_pos roomy]

@[simp] theorem push_full (missing : cache.entries.value? id = none) (full : ¬ cache.entries.length < cache.capacity) :
    cache.push id value = (cache.entries.getLast?, { cache with entries := (id, value) :: cache.entries.dropLast }) := by
  simp only [push, missing, if_neg full]

theorem push_capacity (id : String) (value : α) (cache : Recent α) :
    (cache.push id value).2.capacity = cache.capacity := by
  rw [push]
  split
  · rfl
  · split <;> rfl

theorem lru_lawful : (lru : Lru (Recent α) α).Lawful where
  new_entries _ _ := rfl
  new_capacity _ _ := rfl
  get_found id value cache found := by simp only [lru, get_found found, and_self]
  get_missing id cache missing := get_missing missing
  push_present id value old cache found := by simp only [lru, push_present found, and_self]
  push_roomy id value cache missing roomy := by simp only [lru, push_roomy missing roomy, and_self]
  push_full id value cache missing full := by
    simp only [lru, push_full missing (Nat.not_lt.mpr (Nat.le_of_eq full.symm)), and_self]
  put_entries _ _ _ := rfl
  pop_value _ _ := rfl
  pop_entries _ _ := rfl
  clear_entries _ := rfl
  contains_present _ _ := rfl
  length_entries _ := rfl
  get_capacity := get_capacity
  put_capacity := push_capacity
  push_capacity := push_capacity
  pop_capacity _ _ := rfl
  clear_capacity _ := rfl

end Recent

end Stencil
