import Mathlib.Data.List.Forall2
import Stencil.Registry

set_option autoImplicit false

namespace Stencil

def Op.plain {α : Type} : Op α → Bool
  | .getOrInsert _ _ during => during.isEmpty
  | .get _ | .insert _ _ | .remove _ | .contains _ | .length | .clear | .reset _ => true

namespace Registry

variable {γ μ α : Type}

theorem perform_alone {ρ : Type} (registry : Registry ρ α) (id : String) (value : α) (store : ρ) :
    registry.perform (.getOrInsert id value []) store = (registry.obtainWith id (.alone value) store).performed := by
  have alone : (fun left => ⟨value, registry.performAll [] left⟩) = (.alone value : ρ → Created ρ α) := by
    funext left
    rw [performAll, Created.alone]
  rw [perform, alone]

-- The order of the entries is free. It tells the recency of their uses, which only a capacity makes matter.
structure Alike (lru : Lru γ α) (table : Table μ α) (capacity : Nat) (cache : γ) (map : μ) : Prop where
  limited : lru.capacity cache = capacity
  distinct : (lru.entries cache).ids.Nodup
  value : ∀ id, (lru.entries cache).value? id = table.get id map
  length : (lru.entries cache).length = table.length map

structure SameStep (lru : Lru γ α) (table : Table μ α) (capacity : Nat) (one : Answered γ α) (other : Answered μ α) :
    Prop where
  answer : one.answer = other.answer
  during : one.during = [] ∧ other.during = []
  alike : Alike lru table capacity one.store other.store

section Lawful

variable {lru : Lru γ α} {table : Table μ α} {capacity : Nat} {cache : γ} {map : μ}
variable (lawful : lru.Lawful) (sound : table.Lawful)
include lawful sound

theorem new_alike (positive : 0 < capacity) : Alike lru table capacity (lru.new capacity) table.new := by
  have none := lawful.new_entries capacity positive
  refine ⟨lawful.new_capacity capacity positive, ?_, ?_, ?_⟩
  · rw [none]
    exact List.nodup_nil
  · intro id
    rw [none, sound.new_get, Entries.value?_nil]
  · rw [none, sound.new_length, List.length_nil]

theorem remove_alike (alike : Alike lru table capacity cache map) (id : String) :
    Alike lru table capacity (lru.pop id cache).2 (table.remove id map).2 := by
  refine ⟨(lawful.pop_capacity id cache).trans alike.limited, ?_, ?_, ?_⟩
  · rw [lawful.pop_entries, Entries.ids_without]
    exact alike.distinct.filter _
  · intro other
    rw [lawful.pop_entries, Entries.value?_without, sound.remove_get, alike.value]
  · rw [lawful.pop_entries, Entries.without_length id _ alike.distinct, sound.remove_length, alike.length, alike.value]

theorem clear_alike (alike : Alike lru table capacity cache map) :
    Alike lru table capacity (lru.clear cache) (table.clear map) := by
  have none := lawful.clear_entries cache
  refine ⟨(lawful.clear_capacity cache).trans alike.limited, ?_, ?_, ?_⟩
  · rw [none]
    exact List.nodup_nil
  · intro id
    rw [none, sound.clear_get, Entries.value?_nil]
  · rw [none, sound.clear_length, List.length_nil]

theorem removeAll_alike (alike : Alike lru table capacity cache map) (ids : List String) :
    Alike lru table capacity (ids.foldl (fun left id => (lru.pop id left).2) cache)
      (ids.foldl (fun left id => (table.remove id left).2) map) := by
  induction ids generalizing cache map with
  | nil => exact alike
  | cons id rest ih => exact ih (remove_alike lawful sound alike id)

theorem reset_alike (alike : Alike lru table capacity cache map) (ids : List String) :
    Alike lru table capacity ((bounded lru).reset ids cache) ((unbounded table).reset ids map) := by
  rw [reset, reset]
  split
  · exact clear_alike lawful sound alike
  · exact removeAll_alike lawful sound alike ids

omit sound in
theorem get_alike (alike : Alike lru table capacity cache map) (id : String) :
    (lru.get id cache).1 = table.get id map ∧ Alike lru table capacity (lru.get id cache).2 map := by
  cases found : (lru.entries cache).value? id with
  | none =>
      rw [lawful.get_missing id cache found, ← alike.value, found]
      exact ⟨rfl, alike⟩
  | some value =>
      obtain ⟨answer, order⟩ := lawful.get_found id value cache found
      refine ⟨by rw [answer, ← alike.value, found], ?_⟩
      refine ⟨(lawful.get_capacity id cache).trans alike.limited, ?_, ?_, ?_⟩
      · rw [order]
        exact Entries.front_distinct id value _ alike.distinct
      · intro other
        rw [order, Entries.front_value?, ← alike.value]
        by_cases same : other = id
        · rw [if_pos same, same, found]
        · rw [if_neg same]
      · rw [order, Entries.front_length id value _ alike.distinct, found, ← alike.length]
        rfl

omit sound in
theorem push_roomy (alike : Alike lru table capacity cache map) (id : String) (value : α)
    (room : table.length (table.insert id value map) ≤ capacity)
    (grown : table.length (table.insert id value map) =
      table.length map + if (table.get id map).isSome then 0 else 1) :
    lru.entries (lru.push id value cache).2 = (id, value) :: (lru.entries cache).without id ∧
      ((lru.push id value cache).1.map Prod.fst).filter (· != id) = none := by
  cases found : (lru.entries cache).value? id with
  | none =>
      have absent := (Entries.value?_none id _).mp found
      have roomy : (lru.entries cache).length < lru.capacity cache := by
        rw [alike.limited, alike.length]
        rw [grown, ← alike.value, found] at room
        exact room
      obtain ⟨nothing, order⟩ := lawful.push_roomy id value cache found roomy
      rw [nothing, order, Entries.without_absent id _ absent]
      exact ⟨rfl, rfl⟩
  | some old =>
      obtain ⟨replaced, order⟩ := lawful.push_present id value old cache found
      rw [replaced, order]
      exact ⟨rfl, by simp⟩

theorem push_alike (alike : Alike lru table capacity cache map) (id : String) (value : α)
    (room : table.length (table.insert id value map) ≤ capacity) :
    Alike lru table capacity (lru.push id value cache).2 (table.insert id value map) ∧
      ((lru.push id value cache).1.map Prod.fst).filter (· != id) = none := by
  have grown := sound.insert_length id value map
  obtain ⟨order, silent⟩ := push_roomy lawful alike id value room grown
  refine ⟨⟨(lawful.push_capacity id value cache).trans alike.limited, ?_, ?_, ?_⟩, silent⟩
  · rw [order]
    exact Entries.front_distinct id value _ alike.distinct
  · intro other
    rw [order, Entries.front_value?, sound.insert_get, alike.value]
  · rw [order, Entries.front_length id value _ alike.distinct, grown, alike.length, alike.value]

theorem put_alike (alike : Alike lru table capacity cache map) (id : String) (value : α)
    (room : table.length (table.insert id value map) ≤ capacity) :
    Alike lru table capacity (lru.put id value cache).2 (table.insert id value map) := by
  obtain ⟨pushed, _⟩ := push_alike lawful sound alike id value room
  have order := lawful.put_entries id value cache
  refine ⟨(lawful.put_capacity id value cache).trans alike.limited, ?_, ?_, ?_⟩
  · rw [order]
    exact pushed.distinct
  · intro other
    rw [order, pushed.value]
  · rw [order, pushed.length]

theorem obtain_alike (alike : Alike lru table capacity cache map) (id : String) (value : α)
    (room : table.length ((unbounded table).obtainWith id (.alone value) map).store ≤ capacity) :
    SameStep lru table capacity ((bounded lru).obtainWith id (.alone value) cache).performed.answered
        ((unbounded table).obtainWith id (.alone value) map).performed.answered ∧
      ((bounded lru).obtainWith id (.alone value) cache).events = [] := by
  cases found : table.get id map with
  | some present =>
      obtain ⟨same, used⟩ := get_alike lawful alike id
      have hit : lru.get id cache = (some present, (lru.get id cache).2) := Prod.ext (same.trans found) rfl
      simp only [bounded, unbounded, found]
      rw [hit]
      exact ⟨⟨rfl, ⟨rfl, rfl⟩, used⟩, rfl⟩
  | none =>
      have miss := lawful.get_missing id cache ((alike.value id).trans found)
      have vacant := (sound.entry_get id map).trans found
      simp only [unbounded, found, vacant] at room
      obtain ⟨pushed, silent⟩ := push_alike lawful sound alike id value room
      simp only [bounded, unbounded, found, vacant, settle, Created.alone, miss, silent]
      exact ⟨⟨rfl, ⟨rfl, rfl⟩, pushed⟩, rfl⟩

theorem perform_alike (alike : Alike lru table capacity cache map) (op : Op α) (plain : op.plain = true)
    (room : table.length ((unbounded table).perform op map).store ≤ capacity) :
    SameStep lru table capacity ((bounded lru).perform op cache).answered ((unbounded table).perform op map).answered ∧
      ((bounded lru).perform op cache).events = [] := by
  cases op with
  | get id =>
      rw [perform, perform]
      obtain ⟨same, used⟩ := get_alike lawful alike id
      exact ⟨⟨congrArg Answer.found same, ⟨rfl, rfl⟩, used⟩, rfl⟩
  | insert id value =>
      rw [perform] at room
      rw [perform, perform]
      exact ⟨⟨rfl, ⟨rfl, rfl⟩, put_alike lawful sound alike id value room⟩, rfl⟩
  | getOrInsert id value during =>
      cases List.isEmpty_iff.mp plain
      rw [perform_alone] at room
      rw [perform_alone, perform_alone]
      exact obtain_alike lawful sound alike id value room
  | remove id =>
      rw [perform, perform]
      have same : (lru.pop id cache).1 = (table.remove id map).1 := by
        rw [lawful.pop_value, sound.remove_value, alike.value]
      exact ⟨⟨congrArg Answer.found same, ⟨rfl, rfl⟩, remove_alike lawful sound alike id⟩, rfl⟩
  | contains id =>
      rw [perform, perform]
      have same : lru.contains id cache = table.contains id map := by
        rw [lawful.contains_present, sound.contains_present, alike.value]
      exact ⟨⟨congrArg Answer.contained same, ⟨rfl, rfl⟩, alike⟩, rfl⟩
  | length =>
      rw [perform, perform]
      have same : lru.length cache = table.length map := (lawful.length_entries cache).trans alike.length
      exact ⟨⟨congrArg Answer.counted same, ⟨rfl, rfl⟩, alike⟩, rfl⟩
  | clear =>
      rw [perform, perform]
      exact ⟨⟨rfl, ⟨rfl, rfl⟩, clear_alike lawful sound alike⟩, rfl⟩
  | reset ids =>
      rw [perform, perform]
      exact ⟨⟨rfl, ⟨rfl, rfl⟩, reset_alike lawful sound alike ids⟩, rfl⟩

theorem performAll_alike (alike : Alike lru table capacity cache map) (ops : List (Op α))
    (plain : ∀ op ∈ ops, op.plain = true)
    (room : ∀ step ∈ ((unbounded table).performAll ops map).answers, table.length step.store ≤ capacity) :
    List.Forall₂ (SameStep lru table capacity) ((bounded lru).performAll ops cache).answers
        ((unbounded table).performAll ops map).answers ∧
      ((bounded lru).performAll ops cache).events = [] := by
  induction ops generalizing cache map with
  | nil =>
      rw [performAll, performAll]
      exact ⟨.nil, rfl⟩
  | cons op rest ih =>
      rw [performAll] at room
      rw [performAll, performAll]
      obtain ⟨now, later⟩ := List.forall_mem_cons.mp room
      obtain ⟨first, others⟩ := List.forall_mem_cons.mp plain
      obtain ⟨step, silent⟩ := perform_alike lawful sound alike op first now
      obtain ⟨steps, quiet⟩ := ih step.alike others later
      exact ⟨.cons step steps, List.append_eq_nil_iff.mpr ⟨silent, quiet⟩⟩

end Lawful

theorem answers_eq (lru : Lru γ α) (table : Table μ α) (capacity : Nat) (first : List (Answered γ α))
    (second : List (Answered μ α)) (same : List.Forall₂ (SameStep lru table capacity) first second) :
    first.map Answered.answer = second.map Answered.answer := by
  induction same with
  | nil => rfl
  | cons step _ ih => rw [List.map_cons, List.map_cons, step.answer, ih]

-- Each operation but a reset changes the number of entries once, and a reset only lowers it, so the registry without a
-- capacity never holds more entries than it does after some operation.
theorem bounded_answers_as_boundless (lru : Lru γ α) (lawful : lru.Lawful) (table : Table μ α) (sound : table.Lawful)
    (capacity : Nat) (positive : 0 < capacity) (ops : List (Op α)) (plain : ∀ op ∈ ops, op.plain = true)
    (room : ∀ step ∈ ((unbounded table).performAll ops table.new).answers, table.length step.store ≤ capacity) :
    let one := (bounded lru).performAll ops (lru.new capacity)
    let other := (unbounded table).performAll ops table.new
    one.answers.map Answered.answer = other.answers.map Answered.answer ∧
      List.Forall₂ (SameStep lru table capacity) one.answers other.answers ∧ one.events = [] := by
  intro one other
  obtain ⟨steps, silent⟩ := performAll_alike lawful sound (new_alike lawful sound positive) ops plain room
  exact ⟨answers_eq lru table capacity _ _ steps, steps, silent⟩

def shelf : List (Op Nat) :=
  [.insert "a" 1, .getOrInsert "b" 2 [], .insert "a" 3, .getOrInsert "a" 4 [], .reset ["b", "x"], .length,
    .insert "c" 5, .contains "b"]

theorem shelf_answers :
    0 < 2 ∧ (∀ op ∈ shelf, op.plain = true) ∧
      (∀ step ∈ (Directory.registry.performAll shelf .empty).answers, step.store.entries.length ≤ 2) ∧
      ((bounded Recent.lru).performAll shelf (Recent.lru.new 2)).answers.map Answered.answer =
        [.stored 1, .obtained 2 true, .stored 3, .obtained 3 false, .done, .counted 1, .stored 5, .contained false] := by
  have plain : ∀ op ∈ shelf, op.plain = true := by decide +kernel
  have room : ∀ step ∈ (Directory.registry.performAll shelf .empty).answers, step.store.entries.length ≤ 2 := by
    decide +kernel
  obtain ⟨same, _⟩ := bounded_answers_as_boundless Recent.lru Recent.lru_lawful Directory.table Directory.table_lawful 2
    (by decide) shelf plain room
  exact ⟨by decide, plain, room, same.trans rfl⟩

end Registry

end Stencil
