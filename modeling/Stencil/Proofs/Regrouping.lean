import Stencil.Proofs.Relocation
import Stencil.Proofs.Skeleton

set_option autoImplicit false

namespace Stencil

variable {σ : Type}

inductive Container where
  | element (tag : String) (attributes : List (String × String)) (dynamic : Bool)
  | fragment

def Container.hold : Container → List (Node σ) → Node σ
  | .element tag attributes dynamic, children => .element tag attributes dynamic children
  | .fragment, children => .fragment children

-- Some children of one node, `count` of them from number `first` on, have moved into a fragment of their own. The
-- address leads to that node. It may pass through a choice, whose contents are numbered 0 and 1; paths never do.
inductive Regrouped (first count : Nat) : Path → Node σ → Node σ → Prop where
  | here (parent : Container) (front group back : List (Node σ)) :
      front.length = first → group.length = count → 0 < count →
        Regrouped first count [] (parent.hold (front ++ (group ++ back))) (parent.hold (front ++ .fragment group :: back))
  | under (parent : Container) (front back : List (Node σ)) (child grouped : Node σ) (address : Path) :
      Regrouped first count address child grouped →
        Regrouped first count (front.length :: address) (parent.hold (front ++ child :: back))
          (parent.hold (front ++ grouped :: back))
  | yes (condition : Bool) (yes grouped : Node σ) (no : Option (Node σ)) (address : Path) :
      Regrouped first count address yes grouped →
        Regrouped first count (0 :: address) (.choice condition yes no) (.choice condition grouped no)
  | no (condition : Bool) (yes no grouped : Node σ) (address : Path) :
      Regrouped first count address no grouped →
        Regrouped first count (1 :: address) (.choice condition yes (some no)) (.choice condition yes (some grouped))

def Path.regroup (first count : Nat) : Path → Path → Path
  | [], index :: path =>
      if index < first then index :: path
      else if index < first + count then first :: (index - first) :: path
      else (index - count + 1) :: path
  | step :: address, index :: path =>
      if index = step then index :: Path.regroup first count address path else index :: path
  | _, [] => []

inductive Node.Builtin : Node σ → Prop where
  | element (tag : String) (attributes : List (String × String)) (dynamic : Bool) (children : List (Node σ)) :
      (∀ child ∈ children, Builtin child) → Builtin (.element tag attributes dynamic children)
  | text (leaf : Text) : Builtin (.text leaf)
  | fragment (children : List (Node σ)) : (∀ child ∈ children, Builtin child) → Builtin (.fragment children)
  | func (body : σ → Node σ) (after : σ → σ) : Builtin (.func body after)
  | funcs (body : σ → List (Node σ)) (after : σ → σ) : Builtin (.funcs body after)
  | choice (condition : Bool) (yes : Node σ) (no : Option (Node σ)) : Builtin (.choice condition yes no)

theorem Path.regroup_nil (first count : Nat) (address : Path) : Path.regroup first count address [] = [] := by
  cases address <;> rfl

theorem Path.regroup_before (first count index : Nat) (rest : Path) (before : index < first) :
    Path.regroup first count [] (index :: rest) = index :: rest := by
  rw [Path.regroup, if_pos before]

theorem Path.regroup_inside (first count offset : Nat) (rest : Path) (inside : offset < count) :
    Path.regroup first count [] ((first + offset) :: rest) = first :: offset :: rest := by
  rw [Path.regroup, if_neg (by omega), if_pos (by omega), Nat.add_sub_cancel_left]

theorem Path.regroup_behind (first count offset : Nat) (rest : Path) :
    Path.regroup first count [] ((first + count + offset) :: rest) = (first + 1 + offset) :: rest := by
  have number : first + count + offset - count + 1 = first + 1 + offset := by omega
  rw [Path.regroup, if_neg (by omega), if_neg (by omega), number]

theorem Path.regroup_below (first count index : Nat) (address rest : Path) :
    Path.regroup first count (index :: address) (index :: rest) = index :: Path.regroup first count address rest := by
  rw [Path.regroup, if_pos rfl]

theorem Path.regroup_aside (first count step index : Nat) (address rest : Path) (aside : index ≠ step) :
    Path.regroup first count (step :: address) (index :: rest) = index :: rest := by
  rw [Path.regroup, if_neg aside]

open Segmenter

variable (turn : Path → Path)

structure Replaces (before after : List (Node σ)) : Prop where
  render : Node.renderAll after = Node.renderAll before
  childless : after.isEmpty = before.isEmpty
  live : (∃ child ∈ after, child.Live) ↔ ∃ child ∈ before, child.Live

namespace Container

@[simp] theorem hold_children (parent : Container) (children : List (Node σ)) :
    (parent.hold children).children = children := by
  cases parent <;> rfl

theorem hold_isDynamic (parent : Container) (before after : List (Node σ)) :
    (parent.hold after).isDynamic = (parent.hold before).isDynamic := by
  cases parent <;> rfl

theorem hold_tags (parent : Container) (before after : List (Node σ)) (replaces : Replaces before after) :
    (parent.hold after).tags? = (parent.hold before).tags? := by
  cases parent with
  | fragment => rfl
  | element tag attributes dynamic => simp only [hold, Node.tags?, replaces.childless]

theorem hold_render (parent : Container) (before after : List (Node σ)) (replaces : Replaces before after) :
    (parent.hold after).render = (parent.hold before).render := by
  cases parent with
  | fragment => exact replaces.render
  | element tag attributes dynamic => simp only [hold, Node.render, replaces.render, replaces.childless]

theorem hold_live (parent : Container) (before after : List (Node σ)) (replaces : Replaces before after) :
    (parent.hold after).Live ↔ (parent.hold before).Live := by
  rw [Node.live_iff_children, Node.live_iff_children, hold_isDynamic parent before after]
  simpa using or_congr Iff.rfl replaces.live

theorem recut_hold (parent : Container) (before after : List (Node σ)) (path : Path) (fixed : turn path = path)
    (replaces : Replaces before after) (recut : Recut turn (segmentAll path 0 before) (segmentAll path 0 after)) :
    Recut turn (segment path (parent.hold before)) (segment path (parent.hold after)) := by
  have around := recut_around turn path (parent.hold before) (parent.hold after) _ _ (hold_isDynamic parent before after)
    (hold_tags parent before after replaces) (hold_render parent before after replaces)
    (by simpa using replaces.live) recut
  rw [segment_eq, segment_eq]
  simpa [fixed] using around

end Container

theorem gathered_replaces (front group back : List (Node σ)) (some : 0 < group.length) :
    Replaces (front ++ (group ++ back)) (front ++ .fragment group :: back) where
  render := by
    simp [Node.renderAll, Node.render]
  childless := by
    cases front with
    | cons head tail => rfl
    | nil =>
        cases group with
        | nil => cases some
        | cons head tail => rfl
  live := by
    have group : (Node.fragment group).Live ↔ ∃ child ∈ group, child.Live := by
      rw [Node.live_iff_children]
      exact or_iff_right Bool.false_ne_true
    simp only [List.mem_append, List.mem_cons, or_and_right, exists_or, exists_eq_left, group]

theorem exchanged_replaces (front back : List (Node σ)) (child other : Node σ) (render : other.render = child.render)
    (live : other.Live ↔ child.Live) : Replaces (front ++ child :: back) (front ++ other :: back) where
  render := by simp [Node.renderAll, render]
  childless := by cases front <;> rfl
  live := by simp only [List.mem_append, List.mem_cons, or_and_right, exists_or, exists_eq_left, live]

theorem recut_gathered (front group back : List (Node σ)) (path : Path)
    (turns : ∀ rest, turn (path ++ rest) = path ++ Path.regroup front.length group.length [] rest) :
    Recut turn (segmentAll path 0 (front ++ (group ++ back))) (segmentAll path 0 (front ++ .fragment group :: back)) := by
  rw [segmentAll_append, segmentAll_append front, segmentAll_append group, Nat.zero_add]
  refine recut_andThen turn _ _ _ _ ?before (recut_andThen turn _ _ _ _ ?inside ?behind)
  case before =>
    apply recut_nodes turn front path path 0 0
    intro offset before rest
    rw [Nat.zero_add, List.append_assoc, turns, List.singleton_append, Path.regroup_before _ _ _ _ before]
  case inside =>
    apply recut_fragment turn group path (path ++ [front.length]) front.length
    intro offset inside rest
    rw [Nat.zero_add, List.append_assoc, turns, List.append_assoc, List.append_assoc, List.singleton_append,
      Path.regroup_inside _ _ _ _ inside]
    rfl
  case behind =>
    apply recut_nodes turn back path path (front.length + group.length) (front.length + 1)
    intro offset _ rest
    rw [List.append_assoc, turns, List.append_assoc, List.singleton_append, Path.regroup_behind]
    rfl

theorem recut_exchanged (front back : List (Node σ)) (child other : Node σ) (path address : Path) (first count : Nat)
    (turns : ∀ rest, turn (path ++ rest) = path ++ Path.regroup first count (front.length :: address) rest)
    (recut : Recut turn (segment (path ++ [front.length]) child) (segment (path ++ [front.length]) other)) :
    Recut turn (segmentAll path 0 (front ++ child :: back)) (segmentAll path 0 (front ++ other :: back)) := by
  have aside : ∀ index, index ≠ front.length → Carries turn (path ++ [index]) (path ++ [index]) := by
    intro index other rest
    rw [List.append_assoc, turns, List.singleton_append, Path.regroup_aside _ _ _ _ _ _ other]
  rw [segmentAll_append, segmentAll_append front, Nat.zero_add]
  refine recut_andThen turn _ _ _ _ ?before (recut_andThen turn _ _ _ _ recut ?behind)
  case before =>
    apply recut_nodes turn front path path 0 0
    intro offset before
    exact aside (0 + offset) (by omega)
  case behind =>
    apply recut_nodes turn back path path (front.length + 1) (front.length + 1)
    intro offset _
    exact aside (front.length + 1 + offset) (by omega)

namespace Regrouped

variable {first count : Nat} {address : Path} {root grouped : Node σ}

theorem unseen (regrouped : Regrouped first count address root grouped) :
    grouped.render = root.render ∧ (grouped.Live ↔ root.Live) := by
  induction regrouped with
  | here parent front group back _ size some =>
      have replaces := gathered_replaces front group back (size ▸ some)
      exact ⟨parent.hold_render _ _ replaces, parent.hold_live _ _ replaces⟩
  | under parent front back child grouped address _ ih =>
      have replaces := exchanged_replaces front back child grouped ih.1 ih.2
      exact ⟨parent.hold_render _ _ replaces, parent.hold_live _ _ replaces⟩
  | yes condition yes grouped no address _ ih =>
      refine ⟨?_, iff_of_true (Node.live_of_dynamic _ rfl) (Node.live_of_dynamic _ rfl)⟩
      rw [Node.render, Node.render, ih.1]
  | no condition yes no grouped address _ ih =>
      refine ⟨?_, iff_of_true (Node.live_of_dynamic _ rfl) (Node.live_of_dynamic _ rfl)⟩
      rw [Node.render, Node.render, Node.renderOption, Node.renderOption, ih.1]

theorem fixed_of_turns (path : Path)
    (turns : ∀ rest, turn (path ++ rest) = path ++ Path.regroup first count address rest) : turn path = path := by
  have whole := turns []
  rwa [Path.regroup_nil, List.append_nil] at whole

theorem recut (regrouped : Regrouped first count address root grouped) (path : Path)
    (turns : ∀ rest, turn (path ++ rest) = path ++ Path.regroup first count address rest) :
    Recut turn (segment path root) (segment path grouped) := by
  induction regrouped generalizing path with
  | here parent front group back place size some =>
      have fixed := fixed_of_turns turn path turns
      subst place size
      exact parent.recut_hold turn _ _ path fixed (gathered_replaces front group back some)
        (recut_gathered turn front group back path turns)
  | under parent front back child grouped address regrouped ih =>
      have fixed := fixed_of_turns turn path turns
      obtain ⟨render, live⟩ := regrouped.unseen
      refine parent.recut_hold turn _ _ path fixed (exchanged_replaces front back child grouped render live) ?_
      apply recut_exchanged turn front back child grouped path address first count turns
      apply ih
      intro rest
      rw [List.append_assoc, turns, List.singleton_append, Path.regroup_below, List.append_assoc, List.singleton_append]
  | yes condition yes grouped no address _ _ => exact recut_dynamic turn _ _ path (fixed_of_turns turn path turns) rfl rfl
  | no condition yes no grouped address _ _ => exact recut_dynamic turn _ _ path (fixed_of_turns turn path turns) rfl rfl

end Regrouped

theorem recut_wrapped (root : Node σ) : Recut (0 :: ·) (segment [] root) (segment [] (.fragment [root])) := by
  by_cases live : root.Live
  · have below : (Node.fragment [root]).Live :=
      (Node.live_iff_children (.fragment [root])).mpr (Or.inr ⟨root, List.mem_singleton_self root, live⟩)
    have walked := walked_segments (.fragment [root]) [] Bool.false_ne_true below
    have inside : segmentAll [] 0 [root] = segment [0] root := andThen_nothing (segment [0] root)
    rw [walked]
    change Recut _ _ (segmentAll [] 0 [root])
    rw [inside]
    exact recut_carried _ root [] [0] fun _ => rfl
  · have still : ¬ (Node.fragment [root]).Live := by
      rw [Node.live_iff_children]
      rintro (dynamic | ⟨child, member, below⟩)
      · cases dynamic
      · rw [List.mem_singleton.mp member] at below
        exact live below
    have render : (Node.fragment [root]).render = root.render := Effect.andThen_skip root.render
    rw [static_segments root [] live, static_segments _ [] still, render]
    exact recut_freeze _ root.render

theorem builtin_same (root : Node σ) (builtin : root.Builtin) : SameSkeleton root root := by
  induction builtin with
  | element tag attributes dynamic children _ ih =>
      cases dynamic with
      | true => exact .dynamic _ _ rfl rfl
      | false => exact .element tag attributes children children (List.forall₂_same.mpr ih)
  | text leaf =>
      cases live : leaf.isDynamic with
      | true => exact .dynamic _ _ live live
      | false => exact .text leaf live
  | fragment children _ ih => exact .fragment children children (List.forall₂_same.mpr ih)
  | func body after => exact .dynamic _ _ rfl rfl
  | funcs body after => exact .dynamic _ _ rfl rfl
  | choice condition yes no => exact .dynamic _ _ rfl rfl

theorem builtin_build (root : Node σ) (builtin : root.Builtin) :
    ∃ plan, ∀ world, (Plan.build root world).plan = .ok plan := by
  obtain ⟨pieces, cut, _, _⟩ := cut_alike root root (builtin_same root builtin) []
  exact ⟨⟨condense pieces⟩, fun world => (steady_build root world pieces cut).1⟩

theorem fragments_transparent (root : Node σ) :
    (∀ first count address grouped, Regrouped first count address root grouped →
        grouped.render = root.render ∧
          ∀ world, Plan.build grouped world = (Plan.build root world).mapPaths (Path.regroup first count address)) ∧
      ((Node.fragment [root]).render = root.render ∧
        ∀ world, Plan.build (.fragment [root]) world = (Plan.build root world).mapPaths (0 :: ·)) ∧
      (root.Builtin → ∃ plan, ∀ world, (Plan.build root world).plan = .ok plan) := by
  refine ⟨?grouped, ⟨?render, ?wrapped⟩, builtin_build root⟩
  case grouped =>
    intro first count address grouped regrouped
    have recut := regrouped.recut (Path.regroup first count address) [] fun _ => rfl
    exact ⟨regrouped.unseen.1, recut_build _ root grouped recut⟩
  case render => exact Effect.andThen_skip root.render
  case wrapped => exact recut_build _ root (.fragment [root]) (recut_wrapped root)

def listing : Node Nat :=
  .fragment [.text (.raw "h"), .element "p" [] false [.text (.raw "a"), .text (.live "x"), .text (.raw "b"),
    .func (fun calls => .text (.live (toString calls))) (· + 1)]]

def bundled : Node Nat :=
  .fragment [.text (.raw "h"), .element "p" [] false [.text (.raw "a"), .fragment [.text (.live "x"), .text (.raw "b")],
    .func (fun calls => .text (.live (toString calls))) (· + 1)]]

theorem bundled_as_listing :
    Regrouped 1 2 [1] listing bundled ∧ listing.Builtin ∧
      (Plan.build listing 7).plan = .ok ⟨[.static [104, 60, 112, 62, 97], .dynamic [1, 1], .static [98], .dynamic [1, 3],
        .static [60, 47, 112, 62]]⟩ ∧
      (Plan.build bundled 7).plan = .ok ⟨[.static [104, 60, 112, 62, 97], .dynamic [1, 1, 0], .static [98],
        .dynamic [1, 2], .static [60, 47, 112, 62]]⟩ ∧
      (Plan.build (.fragment [listing]) 7).plan = .ok ⟨[.static [104, 60, 112, 62, 97], .dynamic [0, 1, 1],
        .static [98], .dynamic [0, 1, 3], .static [60, 47, 112, 62]]⟩ ∧
      bundled.render 7 = listing.render 7 := by
  have regrouped : Regrouped 1 2 [1] listing bundled :=
    .under .fragment [.text (.raw "h")] [] _ _ []
      (.here (.element "p" [] false) [.text (.raw "a")] [.text (.live "x"), .text (.raw "b")]
        [.func (fun calls => .text (.live (toString calls))) (· + 1)] rfl rfl (by decide))
  have builtin : listing.Builtin := by
    refine .fragment _ (List.forall_mem_cons.mpr ⟨.text _, List.forall_mem_cons.mpr ⟨.element _ _ _ _ ?_, nofun⟩⟩)
    intro child member
    simp only [List.mem_cons, List.not_mem_nil, or_false] at member
    rcases member with rfl | rfl | rfl | rfl
    · exact .text _
    · exact .text _
    · exact .text _
    · exact .func _ _
  have built : (Plan.build listing 7).plan = .ok ⟨[.static [104, 60, 112, 62, 97], .dynamic [1, 1], .static [98],
    .dynamic [1, 3], .static [60, 47, 112, 62]]⟩ := rfl
  obtain ⟨grouping, ⟨_, wrapping⟩, _⟩ := fragments_transparent listing
  obtain ⟨render, regroups⟩ := grouping 1 2 [1] bundled regrouped
  refine ⟨regrouped, builtin, built, ?_, ?_, congrFun render 7⟩
  · rw [regroups 7, Build.mapPaths, built]
    rfl
  · rw [wrapping 7, Build.mapPaths, built]
    rfl

end Stencil
