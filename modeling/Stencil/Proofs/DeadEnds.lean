import Stencil.Proofs.Tree

set_option autoImplicit false

namespace Stencil

namespace Node

variable {σ : Type}

-- The path comes as far as `last`, and asks it for a child that it does not have.
structure DeadEnd (root : Node σ) (path : Path) (miss : Miss) (last : Node σ) : Prop where
  reached : root.resolve (path.take miss.depth) = .ok last
  asked : path[miss.depth]? = some miss.expected
  counted : miss.available = last.children.length
  lacking : miss.available ≤ miss.expected

theorem resolve_front (root node : Node σ) (front path : Path) (begins : front <+: path)
    (found : root.resolve path = .ok node) : ∃ middle, root.resolve front = .ok middle := by
  obtain ⟨rest, rfl⟩ := begins
  rw [resolve_append] at found
  cases reached : root.resolve front with
  | ok middle => exact ⟨middle, rfl⟩
  | error miss =>
      rw [reached] at found
      contradiction

theorem deadEnd_here (root : Node σ) (index : Nat) (path : Path) (absent : root.children[index]? = none) :
    root.DeadEnd (index :: path) ⟨0, index, root.children.length⟩ root where
  reached := rfl
  asked := rfl
  counted := rfl
  lacking := List.getElem?_eq_none_iff.mp absent

theorem deadEnd_below (root child last : Node σ) (index : Nat) (path : Path) (miss : Miss)
    (present : root.children[index]? = some child) (ends : child.DeadEnd path miss last) :
    root.DeadEnd (index :: path) (miss.deeper 1) last where
  reached := (resolve_cons_ok root last index (path.take miss.depth)).mpr ⟨child, present, ends.reached⟩
  asked := ends.asked
  counted := ends.counted
  lacking := ends.lacking

theorem deadEnd_of_lost (root : Node σ) (path : Path) (miss : Miss) (lost : root.resolve path = .error miss) :
    ∃ last, root.DeadEnd path miss last := by
  induction path generalizing root miss with
  | nil => cases lost
  | cons index path ih =>
      rcases (resolve_cons_error root index path miss).mp lost with
        ⟨absent, rfl⟩ | ⟨child, below, present, deeper, rfl⟩
      · exact ⟨root, deadEnd_here root index path absent⟩
      · obtain ⟨last, ends⟩ := ih child below deeper
        exact ⟨last, deadEnd_below root child last index path below present ends⟩

namespace DeadEnd

variable {root last : Node σ} {path : Path} {miss : Miss}

theorem depth_lt (ends : root.DeadEnd path miss last) : miss.depth < path.length :=
  (List.getElem?_eq_some_iff.mp ends.asked).1

theorem split (ends : root.DeadEnd path miss last) :
    path = path.take miss.depth ++ miss.expected :: path.drop (miss.depth + 1) := by
  obtain ⟨inside, next⟩ := List.getElem?_eq_some_iff.mp ends.asked
  rw [← next, ← List.drop_eq_getElem_cons inside, List.take_append_drop]

theorem absent (ends : root.DeadEnd path miss last) : last.children[miss.expected]? = none := by
  rw [List.getElem?_eq_none_iff, ← ends.counted]
  exact ends.lacking

theorem lost (ends : root.DeadEnd path miss last) : root.resolve path = .error miss := by
  have levels : (path.take miss.depth).length = miss.depth :=
    List.length_take_of_le (Nat.le_of_lt ends.depth_lt)
  calc root.resolve path
      = root.resolve (path.take miss.depth ++ miss.expected :: path.drop (miss.depth + 1)) :=
        congrArg root.resolve ends.split
    _ = (last.resolve (miss.expected :: path.drop (miss.depth + 1))).mapError (Miss.deeper miss.depth) := by
        rw [resolve_append, ends.reached, levels]
    _ = .error (Miss.deeper miss.depth ⟨0, miss.expected, last.children.length⟩) := by
        rw [resolve_cons, ends.absent]
        rfl
    _ = .error miss := by
        rw [← ends.counted, Miss.deeper, Nat.zero_add]

theorem shortened (ends : root.DeadEnd path miss last) (front : Path) (begins : front <+: path)
    (beyond : miss.depth < front.length) : root.DeadEnd front miss last := by
  obtain ⟨rest, rfl⟩ := begins
  have reached := ends.reached
  have asked := ends.asked
  rw [List.take_append_of_le_length (Nat.le_of_lt beyond)] at reached
  rw [List.getElem?_append_left beyond] at asked
  exact ⟨reached, asked, ends.counted, ends.lacking⟩

theorem leads_iff (ends : root.DeadEnd path miss last) (front : Path) (begins : front <+: path) :
    (∃ node, root.resolve front = .ok node) ↔ front.length ≤ miss.depth := by
  constructor
  · intro leads
    obtain ⟨node, found⟩ := leads
    by_cases inside : front.length ≤ miss.depth
    · exact inside
    · -- A longer part would end at the same point as the whole path.
      have lost := (ends.shortened front begins (Nat.lt_of_not_le inside)).lost
      rw [found] at lost
      contradiction
  · intro inside
    have levels : front.length ≤ (path.take miss.depth).length := by
      rw [List.length_take_of_le (Nat.le_of_lt ends.depth_lt)]
      exact inside
    have within := List.prefix_of_prefix_length_le begins (List.take_prefix miss.depth path) levels
    exact resolve_front root last front (path.take miss.depth) within ends.reached

end DeadEnd

end Node

-- The first three parts say where every path leads. The depth of a miss is the length of the longest part of the path
-- that leads somewhere, because the parts that do are those that are no longer.
theorem paths_compose_up_to_dead_ends {σ : Type} (root : Node σ) :
    root.resolve [] = .ok root ∧
      (∀ index child, root.children[index]? = some child → root.resolve [index] = .ok child) ∧
      (∀ front rest, root.resolve (front ++ rest) =
        (root.resolve front).bind fun middle => (middle.resolve rest).mapError (Miss.deeper front.length)) ∧
      ∀ path miss,
        (root.resolve path = .error miss ↔ ∃ last, root.DeadEnd path miss last) ∧
          (root.resolve path = .error miss → ∀ front, front <+: path →
            ((∃ node, root.resolve front = .ok node) ↔ front.length ≤ miss.depth)) := by
  refine ⟨Node.resolve_nil root, ?step, ?onward, fun path miss => ⟨⟨?point, ?lost⟩, ?longest⟩⟩
  case step =>
    intro index child present
    exact (Node.resolve_cons_ok root child index []).mpr ⟨child, present, rfl⟩
  case onward =>
    intro front rest
    rw [Node.resolve_append]
    cases root.resolve front with
    | ok middle => rfl
    | error miss => rfl
  case point => exact Node.deadEnd_of_lost root path miss
  case lost =>
    intro stuck
    obtain ⟨last, ends⟩ := stuck
    exact ends.lost
  case longest =>
    intro lost front begins
    obtain ⟨last, ends⟩ := Node.deadEnd_of_lost root path miss lost
    exact ends.leads_iff front begins

def chamber : Node Nat := .custom true none .skip [.text (.live "y"), .fragment []]

def burrow : Node Nat := .element "ul" [] false [chamber]

def warren : Node Nat := .fragment [.text (.plain "x"), burrow]

theorem warren_ends_at_chamber :
    warren.children[1]? = some burrow ∧ warren.resolve [1] = .ok burrow ∧
      burrow.resolve [0, 4, 1] = .error ⟨1, 4, 2⟩ ∧ warren.resolve [1, 0, 4, 1] = .error ⟨2, 4, 2⟩ ∧
      warren.DeadEnd [1, 0, 4, 1] ⟨2, 4, 2⟩ chamber ∧ (∃ last, warren.DeadEnd [1, 0, 4, 1] ⟨2, 4, 2⟩ last) ∧
      (∃ node, warren.resolve [1, 0] = .ok node) ∧ ¬ ∃ node, warren.resolve [1, 0, 4] = .ok node := by
  obtain ⟨_, step, onward, ends⟩ := paths_compose_up_to_dead_ends warren
  have present : warren.children[1]? = some burrow := rfl
  have found : warren.resolve [1] = .ok burrow := step 1 burrow present
  have below : burrow.resolve [0, 4, 1] = .error ⟨1, 4, 2⟩ := rfl
  have point : warren.DeadEnd [1, 0, 4, 1] ⟨2, 4, 2⟩ chamber := ⟨rfl, rfl, rfl, by decide⟩
  have lost : warren.resolve [1, 0, 4, 1] = .error ⟨2, 4, 2⟩ := by
    have whole := onward [1] [0, 4, 1]
    rw [found] at whole
    exact whole.trans (congrArg (Except.mapError (Miss.deeper 1)) below)
  obtain ⟨somewhere, longest⟩ := ends [1, 0, 4, 1] ⟨2, 4, 2⟩
  have short := longest lost [1, 0] (by decide)
  have long := longest lost [1, 0, 4] (by decide)
  exact ⟨present, found, below, lost, point, somewhere.mp lost, short.mpr (by decide), mt long.mp (by decide)⟩

end Stencil
