set_option autoImplicit false

namespace Stencil

abbrev Entries (α : Type) := List (String × α)

namespace Entries

variable {α : Type}

def ids (entries : Entries α) : List String := entries.map Prod.fst

def value? (id : String) (entries : Entries α) : Option α := (entries.find? fun entry => entry.1 == id).map Prod.snd

def without (id : String) (entries : Entries α) : Entries α := entries.filter fun entry => entry.1 != id

@[simp] theorem value?_nil (id : String) : value? id ([] : Entries α) = none := rfl

@[simp] theorem value?_cons (id other : String) (value : α) (entries : Entries α) :
    value? id ((other, value) :: entries) = if other = id then some value else value? id entries := by
  by_cases same : other = id
  · simp [value?, same]
  · simp [value?, same]

@[simp] theorem value?_without (id other : String) (entries : Entries α) :
    value? id (without other entries) = if id = other then none else value? id entries := by
  induction entries with
  | nil => simp [without]
  | cons entry rest ih =>
      obtain ⟨name, value⟩ := entry
      rw [without] at ih ⊢
      by_cases gone : name = other
      · rw [List.filter_cons_of_neg (by simp [gone]), ih, value?_cons]
        grind
      · rw [List.filter_cons_of_pos (by simpa using gone), value?_cons, ih, value?_cons]
        grind

@[simp] theorem ids_cons (entry : String × α) (entries : Entries α) :
    ids (entry :: entries) = entry.1 :: ids entries := rfl

@[simp] theorem ids_without (id : String) (entries : Entries α) :
    ids (without id entries) = (ids entries).filter (· != id) := by
  rw [ids, ids, List.filter_map]
  rfl

theorem mem_ids (id : String) (entries : Entries α) : id ∈ ids entries ↔ ∃ value, (id, value) ∈ entries := by
  simp [ids]

theorem mem_without (id : String) (entries : Entries α) (entry : String × α) :
    entry ∈ without id entries ↔ entry ∈ entries ∧ entry.1 ≠ id := by
  rw [without, List.mem_filter, bne_iff_ne]

theorem value?_none (id : String) (entries : Entries α) : value? id entries = none ↔ id ∉ ids entries := by
  simp [value?, ids]
  grind

theorem value?_present (id : String) (entries : Entries α) (present : id ∈ ids entries) :
    ∃ value, value? id entries = some value :=
  Option.ne_none_iff_exists'.mp fun missing => (value?_none id entries).mp missing present

theorem value?_mem (id : String) (value : α) (entries : Entries α) (found : value? id entries = some value) :
    (id, value) ∈ entries := by
  obtain ⟨⟨other, _⟩, here, rfl⟩ := Option.map_eq_some_iff.mp found
  have same : other = id := by simpa using List.find?_some here
  rw [← same]
  exact List.mem_of_find?_eq_some here

@[simp] theorem ids_length (entries : Entries α) : (ids entries).length = entries.length := List.length_map Prod.fst

theorem value?_isSome (id : String) (entries : Entries α) : (value? id entries).isSome = true ↔ id ∈ ids entries := by
  rw [Option.isSome_iff_ne_none, ne_eq, value?_none]
  exact Decidable.not_not

theorem without_length (id : String) (entries : Entries α) (distinct : (ids entries).Nodup) :
    (without id entries).length = entries.length - if (value? id entries).isSome then 1 else 0 := by
  rw [← ids_length, ids_without, ← distinct.erase_eq_filter id, List.length_erase, ids_length]
  by_cases present : id ∈ ids entries
  · rw [if_pos present, if_pos ((value?_isSome id entries).mpr present)]
  · rw [if_neg present, if_neg fun found => present ((value?_isSome id entries).mp found), Nat.sub_zero]

theorem without_absent (id : String) (entries : Entries α) (absent : id ∉ ids entries) : without id entries = entries := by
  refine List.filter_eq_self.mpr ?_
  intro entry member
  exact bne_iff_ne.mpr fun same => absent (List.mem_map.mpr ⟨entry, member, same⟩)

theorem length_pos_of_present (id : String) (entries : Entries α) (present : (value? id entries).isSome = true) :
    0 < entries.length := by
  rw [← ids_length]
  exact List.length_pos_of_mem ((value?_isSome id entries).mp present)

theorem front_value? (id other : String) (value : α) (entries : Entries α) :
    value? id ((other, value) :: without other entries) = if id = other then some value else value? id entries := by
  rw [value?_cons, value?_without]
  grind

theorem front_distinct (id : String) (value : α) (entries : Entries α) (distinct : (ids entries).Nodup) :
    (ids ((id, value) :: without id entries)).Nodup := by
  rw [ids_cons, ids_without]
  exact List.nodup_cons.mpr ⟨by simp, distinct.filter _⟩

theorem front_length (id : String) (value : α) (entries : Entries α) (distinct : (ids entries).Nodup) :
    ((id, value) :: without id entries).length = entries.length + if (value? id entries).isSome then 0 else 1 := by
  rw [List.length_cons, without_length id entries distinct]
  by_cases present : (value? id entries).isSome = true
  · rw [if_pos present, if_pos present, Nat.sub_add_cancel (length_pos_of_present id entries present), Nat.add_zero]
  · rw [if_neg present, if_neg present, Nat.sub_zero]

end Entries

end Stencil
