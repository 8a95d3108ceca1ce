import Stencil.Registry

set_option autoImplicit false

namespace Stencil

-- A reset names the ids it removes, or none at all for every one of them.
def Registry.Covers (ids : List String) (id : String) : Prop := ids = [] ∨ id ∈ ids

instance (ids : List String) (id : String) : Decidable (Registry.Covers ids id) := inferInstanceAs (Decidable (_ ∨ _))

namespace Directory

open Registry (Covers)

variable {α : Type}

theorem find?_removeAll (id : String) (ids : List String) (directory : Directory α) :
    (ids.foldl (fun left id => left.remove id) directory).find? id = if id ∈ ids then none else directory.find? id := by
  induction ids generalizing directory with
  | nil => rfl
  | cons first rest ih =>
      rw [List.foldl_cons, ih, find?_remove]
      by_cases later : id ∈ rest
      · rw [if_pos later, if_pos (List.mem_cons_of_mem first later)]
      · by_cases now : id = first
        · rw [if_neg later, if_pos now, if_pos (now ▸ List.mem_cons_self)]
        · rw [if_neg later, if_neg now, if_neg (List.not_mem_cons_of_ne_of_not_mem now later)]

@[simp] theorem find?_reset (id : String) (ids : List String) (directory : Directory α) :
    (registry.reset ids directory).find? id = if Covers ids id then none else directory.find? id := by
  cases ids with
  | nil => rfl
  | cons first rest =>
      have covers : Covers (first :: rest) id ↔ id ∈ first :: rest := or_iff_right (List.cons_ne_nil first rest)
      simp only [Registry.reset, List.isEmpty_cons, Bool.false_eq_true, if_false, covers]
      exact find?_removeAll id (first :: rest) directory

@[simp] theorem obtain_found (id : String) (fresh present : α) (directory : Directory α)
    (found : directory.find? id = some present) :
    registry.obtainWith id (.alone fresh) directory = ⟨present, false, [], directory, []⟩ := by
  simp only [registry, Registry.unbounded, table, found]

@[simp] theorem obtain_missing (id : String) (fresh : α) (directory : Directory α)
    (missing : directory.find? id = none) :
    registry.obtainWith id (.alone fresh) directory = ⟨fresh, true, [], directory.insert id fresh, []⟩ := by
  simp only [registry, Registry.unbounded, table, missing]
  rfl

end Directory

end Stencil
