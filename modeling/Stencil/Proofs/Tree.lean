import Stencil.Node.Path

set_option autoImplicit false

namespace Stencil

def Miss.deeper (levels : Nat) (miss : Miss) : Miss := { miss with depth := miss.depth + levels }

namespace Node

variable {σ : Type}

theorem child_smaller (node child : Node σ) (member : child ∈ node.children) : sizeOf child < sizeOf node := by
  have less : sizeOf child < sizeOf node.children := List.sizeOf_lt_of_mem member
  have below : sizeOf node.children ≤ sizeOf node := by
    cases node <;> simp only [children] <;> simp
    all_goals omega
  omega

theorem by_children {motive : Node σ → Prop}
    (step : ∀ node, (∀ child ∈ node.children, motive child) → motive node) (node : Node σ) : motive node :=
  step node fun child _member => by_children step child
termination_by sizeOf node
decreasing_by exact child_smaller node child _member

theorem resolveFrom_add (levels depth : Nat) (path : Path) (node : Node σ) :
    resolveFrom (depth + levels) path node = (resolveFrom depth path node).mapError (Miss.deeper levels) := by
  induction path generalizing depth node with
  | nil => rfl
  | cons index path ih =>
      simp only [resolveFrom]
      cases node.children[index]? with
      | none => rfl
      | some child => simpa only [Nat.add_right_comm] using ih (depth + 1) child

theorem resolve_nil (root : Node σ) : root.resolve [] = .ok root := rfl

@[simp] theorem resolve_cons (root : Node σ) (index : Nat) (path : Path) :
    root.resolve (index :: path) =
      match root.children[index]? with
      | some child => (child.resolve path).mapError (Miss.deeper 1)
      | none => .error ⟨0, index, root.children.length⟩ := by
  simp only [resolve, resolveFrom]
  cases root.children[index]? with
  | none => rfl
  | some child => exact resolveFrom_add 1 0 path child

theorem deepened_ok (levels : Nat) (found : Except Miss (Node σ)) (node : Node σ) :
    found.mapError (Miss.deeper levels) = .ok node ↔ found = .ok node := by
  cases found with
  | ok other => rfl
  | error miss => exact iff_of_false nofun nofun

theorem deepened_error (levels : Nat) (found : Except Miss (Node σ)) (miss : Miss) :
    found.mapError (Miss.deeper levels) = .error miss ↔ ∃ below, found = .error below ∧ miss = below.deeper levels := by
  cases found with
  | ok node => exact iff_of_false nofun fun ⟨_, impossible, _⟩ => nomatch impossible
  | error below =>
      constructor
      · intro same
        exact ⟨below, rfl, (Except.error.inj same).symm⟩
      · rintro ⟨other, same, rfl⟩
        cases same
        rfl

theorem deepened_twice (outer inner : Nat) (found : Except Miss (Node σ)) :
    (found.mapError (Miss.deeper inner)).mapError (Miss.deeper outer) =
      found.mapError (Miss.deeper (inner + outer)) := by
  cases found with
  | ok node => rfl
  | error miss =>
      change Except.error ((miss.deeper inner).deeper outer) = Except.error (miss.deeper (inner + outer))
      simp only [Miss.deeper, Nat.add_assoc]

theorem resolve_cons_ok (root node : Node σ) (index : Nat) (path : Path) :
    root.resolve (index :: path) = .ok node ↔
      ∃ child, root.children[index]? = some child ∧ child.resolve path = .ok node := by
  rw [resolve_cons]
  cases root.children[index]? with
  | none => simp
  | some child => simp [deepened_ok]

theorem resolve_cons_error (root : Node σ) (index : Nat) (path : Path) (miss : Miss) :
    root.resolve (index :: path) = .error miss ↔
      (root.children[index]? = none ∧ miss = ⟨0, index, root.children.length⟩) ∨
        ∃ child below, root.children[index]? = some child ∧ child.resolve path = .error below ∧
          miss = below.deeper 1 := by
  rw [resolve_cons]
  cases root.children[index]? with
  | none => simp [eq_comm]
  | some child => simp [deepened_error]

theorem resolve_append (root : Node σ) (front rest : Path) :
    root.resolve (front ++ rest) =
      match root.resolve front with
      | .ok middle => (middle.resolve rest).mapError (Miss.deeper front.length)
      | .error miss => .error miss := by
  induction front generalizing root with
  | nil =>
      rw [resolve_nil, List.nil_append]
      change root.resolve rest = (root.resolve rest).mapError (Miss.deeper 0)
      cases root.resolve rest <;> rfl
  | cons index front ih =>
      rw [List.cons_append, resolve_cons, resolve_cons]
      cases root.children[index]? with
      | none => rfl
      | some child =>
          simp only [ih]
          cases child.resolve front with
          | error miss => rfl
          | ok middle => exact deepened_twice 1 front.length (middle.resolve rest)

theorem resolve_append_ok (root middle node : Node σ) (front rest : Path) (found : root.resolve front = .ok middle) :
    root.resolve (front ++ rest) = .ok node ↔ middle.resolve rest = .ok node := by
  rw [resolve_append, found]
  exact deepened_ok front.length (middle.resolve rest) node

theorem resolve_child (root parent child : Node σ) (path : Path) (index : Nat) (found : root.resolve path = .ok parent)
    (present : parent.children[index]? = some child) : root.resolve (path ++ [index]) = .ok child := by
  rw [resolve_append_ok root parent child path [index] found, resolve_cons_ok]
  exact ⟨child, present, rfl⟩

theorem containsDynamic_of_resolve (root node : Node σ) (path : Path) (found : root.resolve path = .ok node)
    (dynamic : node.isDynamic = true) : root.containsDynamic = true := by
  induction path generalizing root with
  | nil =>
      cases found
      rw [containsDynamic_eq, dynamic, Bool.true_or]
  | cons index path ih =>
      obtain ⟨child, present, below⟩ := (resolve_cons_ok root node index path).mp found
      rw [containsDynamic_eq, Bool.or_eq_true, List.any_eq_true]
      exact Or.inr ⟨child, List.mem_of_getElem? present, ih child below⟩

theorem resolve_of_containsDynamic (root : Node σ) (contains : root.containsDynamic = true) :
    ∃ path node, root.resolve path = .ok node ∧ node.isDynamic = true := by
  induction root using by_children with
  | step root ih =>
      rw [containsDynamic_eq, Bool.or_eq_true, List.any_eq_true] at contains
      rcases contains with dynamic | ⟨child, member, below⟩
      · exact ⟨[], root, rfl, dynamic⟩
      · obtain ⟨path, node, found, dynamic⟩ := ih child member below
        obtain ⟨index, present⟩ := List.getElem?_of_mem member
        exact ⟨index :: path, node, (resolve_cons_ok root node index path).mpr ⟨child, present, found⟩, dynamic⟩

def Live (root : Node σ) : Prop := ∃ path node, root.resolve path = .ok node ∧ node.isDynamic = true

theorem containsDynamic_iff_live (root : Node σ) : root.containsDynamic = true ↔ root.Live := by
  constructor
  · exact resolve_of_containsDynamic root
  · rintro ⟨path, node, found, dynamic⟩
    exact containsDynamic_of_resolve root node path found dynamic

instance (root : Node σ) : Decidable root.Live := decidable_of_iff _ (containsDynamic_iff_live root)

theorem live_of_dynamic (root : Node σ) (dynamic : root.isDynamic = true) : root.Live := ⟨[], root, rfl, dynamic⟩

theorem any_containsDynamic_iff (nodes : List (Node σ)) :
    nodes.any containsDynamic = true ↔ ∃ node ∈ nodes, node.Live := by
  simp only [List.any_eq_true, containsDynamic_iff_live]

theorem live_iff_children (root : Node σ) :
    root.Live ↔ root.isDynamic = true ∨ ∃ child ∈ root.children, child.Live := by
  rw [← containsDynamic_iff_live, containsDynamic_eq, Bool.or_eq_true, any_containsDynamic_iff]

end Node

end Stencil
