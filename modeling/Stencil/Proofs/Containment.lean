import Mathlib.Data.List.Forall2
import Stencil.Proofs.LivePaths
import Stencil.Proofs.Unresolved

set_option autoImplicit false

namespace Stencil

variable {σ τ : Type}

namespace Node

inductive Contained : Node σ → Node τ → Prop where
  | intro (inner : Node σ) (outer : Node τ) : inner.children.length ≤ outer.children.length →
      (∀ (index : Nat) (child : Node σ) (other : Node τ), inner.children[index]? = some child →
        outer.children[index]? = some other → Contained child other) →
      Contained inner outer

namespace Contained

theorem length_le (inner : Node σ) (outer : Node τ) (contained : Contained inner outer) :
    inner.children.length ≤ outer.children.length := by
  cases contained with
  | intro _ _ room _ => exact room

theorem partner (inner child : Node σ) (outer : Node τ) (index : Nat) (contained : Contained inner outer)
    (present : inner.children[index]? = some child) :
    ∃ other, outer.children[index]? = some other ∧ Contained child other := by
  cases contained with
  | intro _ _ room below =>
      have inside : index < outer.children.length :=
        Nat.lt_of_lt_of_le (List.getElem?_eq_some_iff.mp present).1 room
      have there : outer.children[index]? = some outer.children[index] := List.getElem?_eq_getElem inside
      exact ⟨_, there, below index child _ present there⟩

theorem of_pairs (inner : Node σ) (outer : Node τ) (front rest : List (Node τ)) (split : outer.children = front ++ rest)
    (each : List.Forall₂ Contained inner.children front) : Contained inner outer := by
  refine .intro inner outer ?_ ?_
  · rw [split, List.length_append, each.length_eq]
    exact Nat.le_add_right _ _
  · intro index child other present there
    obtain ⟨before, rfl⟩ := List.getElem?_eq_some_iff.mp present
    have inside : index < front.length := each.length_eq ▸ before
    rw [split, List.getElem?_append_left inside, List.getElem?_eq_getElem inside] at there
    cases there
    exact each.get before inside

theorem of_childless (inner : Node σ) (outer : Node τ) (childless : inner.children = []) : Contained inner outer := by
  refine of_pairs inner outer [] outer.children rfl ?_
  rw [childless]
  exact .nil

end Contained

theorem resolve_contained (inner node : Node σ) (outer : Node τ) (path : Path) (contained : inner.Contained outer)
    (found : inner.resolve path = .ok node) : ∃ other, outer.resolve path = .ok other := by
  induction path generalizing inner outer with
  | nil => exact ⟨outer, rfl⟩
  | cons index path ih =>
      obtain ⟨child, present, below⟩ := (resolve_cons_ok inner node index path).mp found
      obtain ⟨partner, there, inside⟩ := contained.partner inner child outer index present
      obtain ⟨other, reached⟩ := ih child partner inside below
      exact ⟨other, (resolve_cons_ok outer other index path).mpr ⟨partner, there, reached⟩⟩

theorem resolve_misses (inner : Node σ) (outer : Node τ) (path : Path) (miss : Miss) (forth : inner.Contained outer)
    (back : outer.Contained inner) (lost : inner.resolve path = .error miss) : outer.resolve path = .error miss := by
  induction path generalizing inner outer miss with
  | nil => cases lost
  | cons index path ih =>
      rw [resolve_cons_error] at lost ⊢
      rcases lost with ⟨absent, rfl⟩ | ⟨child, below, present, deeper, rfl⟩
      · have same : outer.children.length = inner.children.length :=
          Nat.le_antisymm (back.length_le outer inner) (forth.length_le inner outer)
        left
        rw [List.getElem?_eq_none_iff, same]
        exact ⟨List.getElem?_eq_none_iff.mp absent, rfl⟩
      · obtain ⟨other, there, childForth⟩ := forth.partner inner child outer index present
        obtain ⟨again, here, childBack⟩ := back.partner outer other inner index there
        cases Option.some.inj (present.symm.trans here)
        exact Or.inr ⟨other, below, there, ih child other below childForth childBack deeper, rfl⟩

end Node

theorem validatePaths_ok (root : Node σ) (paths : List Path) (valid : validatePaths root paths = .ok ()) :
    ∀ path ∈ paths, ∃ node, root.resolve path = .ok node := by
  induction paths with
  | nil => exact fun _ member => absurd member List.not_mem_nil
  | cons path rest ih =>
      rw [validatePaths] at valid
      cases resolved : root.resolve path with
      | error miss => simp [resolved] at valid
      | ok node =>
          simp only [resolved] at valid
          exact List.forall_mem_cons.mpr ⟨⟨node, resolved⟩, ih valid⟩

theorem validatePaths_contained (inner : Node σ) (outer : Node τ) (paths : List Path)
    (contained : inner.Contained outer) (resolved : ∀ path ∈ paths, ∃ node, inner.resolve path = .ok node) :
    validatePaths outer paths = .ok () := by
  apply validatePaths_of_resolved
  intro path member
  obtain ⟨node, found⟩ := resolved path member
  exact Node.resolve_contained inner node outer path contained found

theorem validatePaths_same_shape (inner : Node σ) (outer : Node τ) (paths : List Path) (forth : inner.Contained outer)
    (back : outer.Contained inner) : validatePaths inner paths = validatePaths outer paths := by
  induction paths with
  | nil => rfl
  | cons path rest ih =>
      simp only [validatePaths]
      cases resolved : inner.resolve path with
      | ok node =>
          obtain ⟨other, found⟩ := Node.resolve_contained inner node outer path forth resolved
          simp only [found]
          exact ih
      | error miss => simp only [Node.resolve_misses inner outer path miss forth back resolved]

theorem validation_sees_shape (plan : Plan) (inner : Node σ) (outer : Node τ) (contained : inner.Contained outer) :
    (plan.validate inner = .ok () → plan.validate outer = .ok ()) ∧
      (outer.Contained inner → plan.validate inner = plan.validate outer) ∧
      ∀ world, (Plan.build inner world).plan = .ok plan → plan.validate outer = .ok () := by
  refine ⟨?monotone, ?same, ?built⟩
  case monotone =>
    intro valid
    exact validatePaths_contained inner outer plan.paths contained (validatePaths_ok inner plan.paths valid)
  case same => exact validatePaths_same_shape inner outer plan.paths contained
  case built =>
    intro world built
    exact validatePaths_contained inner outer plan.paths contained (built_resolved inner world plan built)

def trellis : Node Nat := .fragment [.text (.live "x"), .element "p" [] false [.choice true (.text (.raw "y")) none]]

def trellisPlan : Plan := ⟨[.dynamic [0], .static [60, 112, 62], .dynamic [1, 0], .static [60, 47, 112, 62]]⟩

def hedge : Node Unit := .element "ul" [] true [.funcs (fun _ => []) id, .fragment [.text (.plain "z")]]

def arbour : Node Unit := .custom true none .skip [hedge, .fragment [.text (.plain "z"), .text (.live "z")], hedge]

theorem trellis_fits_hedge_and_arbour :
    trellis.Contained hedge ∧ hedge.Contained trellis ∧ trellis.Contained arbour ∧
      (Plan.build trellis 0).plan = .ok trellisPlan ∧ trellisPlan.validate arbour = .ok () ∧
      strayPlan.validate hedge = .error (.structureMismatch [0, 2] ⟨1, 2, 0⟩) := by
  have forth : trellis.Contained hedge :=
    .of_pairs _ _ _ [] rfl
      (.cons (.of_childless _ _ rfl) (.cons (.of_pairs _ _ _ [] rfl (.cons (.of_childless _ _ rfl) .nil)) .nil))
  have back : hedge.Contained trellis :=
    .of_pairs _ _ _ [] rfl
      (.cons (.of_childless _ _ rfl) (.cons (.of_pairs _ _ _ [] rfl (.cons (.of_childless _ _ rfl) .nil)) .nil))
  have room : trellis.Contained arbour :=
    .of_pairs _ _ [hedge, .fragment [.text (.plain "z"), .text (.live "z")]] [hedge] rfl
      (.cons (.of_childless _ _ rfl)
        (.cons (.of_pairs _ _ [.text (.plain "z")] [.text (.live "z")] rfl (.cons (.of_childless _ _ rfl) .nil)) .nil))
  have built : (Plan.build trellis 0).plan = .ok trellisPlan := rfl
  have mismatch : strayPlan.validate trellis = .error (.structureMismatch [0, 2] ⟨1, 2, 0⟩) := rfl
  obtain ⟨_, _, fits⟩ := validation_sees_shape trellisPlan trellis arbour room
  obtain ⟨_, same, _⟩ := validation_sees_shape strayPlan trellis hedge forth
  exact ⟨forth, back, room, built, fits 0 built, (same back).symm.trans mismatch⟩

end Stencil
