import Stencil.Flattener
import Stencil.Proofs.LivePaths

set_option autoImplicit false

namespace Stencil

variable {σ : Type}

def Effect.Calm (effect : Effect σ) : Prop := ∀ world, (effect world).fault = none

namespace Node

inductive Calm : Node σ → Prop where
  | node (node : Node σ) : node.render.Calm → (∀ tags ∈ node.tags?, tags.openTag.Calm ∧ tags.closeTag.Calm) →
      (∀ child ∈ node.children, Calm child) → Calm node

theorem calm_leaf (node : Node σ) (render : node.render.Calm) (untagged : node.tags? = none)
    (childless : node.children = []) : node.Calm := by
  refine .node node render ?_ ?_
  · rw [untagged]
    exact fun _ member => absurd member (Option.not_mem_none _)
  · rw [childless]
    exact fun _ member => absurd member List.not_mem_nil

theorem livePaths_live (root : Node σ) (live : root.Live) : root.livePaths ≠ [] := by
  induction root using by_children with
  | step root ih =>
      rw [livePaths_eq]
      rcases (live_iff_children root).mp live with dynamic | ⟨child, member, below⟩
      · rw [if_pos dynamic]
        exact List.cons_ne_nil _ _
      · split
        · exact List.cons_ne_nil _ _
        · obtain ⟨path, lives⟩ := List.exists_mem_of_ne_nil _ (ih child member below)
          obtain ⟨index, present⟩ := List.getElem?_of_mem member
          exact List.ne_nil_of_mem
            ((mem_livePathsAll root.children 0 _).mpr ⟨index, child, path, present, lives, rfl⟩)

-- The node itself, but for the nodes below it, with a fault in the place of all that it can be asked for.
def trap (message : String) (node : Node σ) (children : List (Node σ)) : Node σ :=
  .custom node.isDynamic (node.tags?.map fun _ => ⟨.fail message, .fail message⟩) (.fail message) children

mutual
def trapped (message : String) : Node σ → Node σ
  | .element tag attributes dynamic children =>
      trap message (.element tag attributes dynamic children) (trappedAll message children)
  | .fragment children => trap message (.fragment children) (trappedAll message children)
  | .custom dynamic tags body children => trap message (.custom dynamic tags body children) (trappedAll message children)
  | leaf => trap message leaf []

def trappedAll (message : String) : List (Node σ) → List (Node σ)
  | [] => []
  | node :: rest => trapped message node :: trappedAll message rest
end

theorem trapped_eq (message : String) (node : Node σ) :
    node.trapped message = trap message node (trappedAll message node.children) := by
  cases node <;> rfl

theorem trappedAll_eq_map (message : String) (nodes : List (Node σ)) :
    trappedAll message nodes = nodes.map (trapped message) := by
  induction nodes with
  | nil => rfl
  | cons node rest ih => rw [trappedAll, ih, List.map_cons]

theorem trapped_live (message : String) (root : Node σ) : (root.trapped message).Live ↔ root.Live := by
  induction root using by_children with
  | step root ih =>
      rw [live_iff_children, live_iff_children, trapped_eq, trappedAll_eq_map]
      refine or_congr Iff.rfl ?_
      change (∃ child ∈ root.children.map (trapped message), child.Live) ↔ _
      constructor
      · rintro ⟨_, member, live⟩
        obtain ⟨child, present, rfl⟩ := List.mem_map.mp member
        exact ⟨child, present, (ih child present).mp live⟩
      · rintro ⟨child, present, live⟩
        exact ⟨child.trapped message, List.mem_map_of_mem present, (ih child present).mpr live⟩

theorem trapped_render (message : String) (root : Node σ) : (root.trapped message).render = .fail message := by
  rw [trapped_eq]
  rfl

end Node

namespace Segmenter

def Calm (segmenter : Segmenter σ) : Prop := ∀ world, (segmenter world).fault = none

theorem calm_andThen (first second : Segmenter σ) (before : first.Calm) (after : second.Calm) :
    (first.andThen second).Calm := by
  intro world
  simp only [andThen, before world, after (first world).world]

end Segmenter

theorem calm_segmentAll (nodes : List (Node σ)) (path : Path) (index : Nat)
    (each : ∀ node ∈ nodes, ∀ path, (segment path node).Calm) : (segmentAll path index nodes).Calm := by
  induction nodes generalizing index with
  | nil => exact fun _ => rfl
  | cons node rest ih =>
      obtain ⟨first, later⟩ := List.forall_mem_cons.mp each
      exact Segmenter.calm_andThen _ _ (first (path ++ [index])) (ih (index + 1) later)

theorem calm_segment (node : Node σ) (calm : node.Calm) (path : Path) : (segment path node).Calm := by
  induction calm generalizing path with
  | node node render tags _ ih =>
      by_cases dynamic : node.isDynamic = true
      · rw [dynamic_segments node path dynamic]
        exact fun _ => rfl
      · by_cases live : node.Live
        · have inside := calm_segmentAll node.children path 0 ih
          rw [walked_segments node path dynamic live]
          cases wrapping : node.tags? with
          | none => exact inside
          | some pair =>
              obtain ⟨opens, closes⟩ := tags pair wrapping
              exact Segmenter.calm_andThen _ _ opens (Segmenter.calm_andThen _ _ inside closes)
        · rw [static_segments node path live]
          exact render

theorem calm_build (root : Node σ) (calm : root.Calm) (world : σ) : ∃ plan, (Plan.build root world).plan = .ok plan := by
  rw [build_plan, Segments.plan, calm_segment root calm [] world]
  exact ⟨_, rfl⟩

theorem still_build (root : Node σ) (world : σ) (still : ¬ root.Live) (plan : Plan)
    (built : (Plan.build root world).plan = .ok plan) : plan = ⟨condense [.static (root.render world).out]⟩ := by
  rw [build_plan] at built
  have pieces := segments_plan_condensed _ plan built
  rw [static_segments root [] still] at pieces
  exact congrArg Plan.mk pieces

theorem condense_static (bytes : Bytes) : condense [.static bytes] = if bytes = [] then [] else [.static bytes] := rfl

theorem condensed_execute (bytes : Bytes) (root : Node σ) (world : σ) :
    Plan.execute ⟨condense [.static bytes]⟩ root world = ⟨bytes, world, none, []⟩ := by
  rw [condense_static]
  split
  · rename_i empty
    rw [empty]
    rfl
  · simp [Plan.execute, executePieces]

namespace Flattener

theorem attempt_live (root : Node σ) (world : σ) (live : root.Live) : attempt root world = .refused .dynamicContent :=
  if_pos ((Node.containsDynamic_iff_live root).mpr live)

theorem attempt_still (root : Node σ) (world : σ) (still : ¬ root.Live) :
    attempt root world =
      match (root.render world).fault with
      | some message => .faulted message (root.render world).world
      | none => .flattened ⟨(root.render world).out⟩ (root.render world).world :=
  if_neg (mt (Node.containsDynamic_iff_live root).mp still)

theorem attempt_calm (root : Node σ) (world : σ) (still : ¬ root.Live) (calm : (root.render world).fault = none) :
    attempt root world = .flattened ⟨(root.render world).out⟩ (root.render world).world := by
  rw [attempt_still root world still, calm]

-- In a trapped tree every call shows, so one that is refused has had no call made to it.
theorem attempt_trapped (root : Node σ) (world : σ) (message : String) :
    attempt (root.trapped message) world = if root.Live then .refused .dynamicContent else .faulted message world := by
  have same := Node.trapped_live message root
  split
  · rename_i live
    exact attempt_live _ world (same.mpr live)
  · rename_i still
    rw [attempt_still _ world (mt same.mp still), Node.trapped_render]
    rfl

end Flattener

open Flattener in
theorem flattening_agrees_with_building (root : Node σ) (calm : root.Calm) (world : σ) :
    ∃ plan, (Plan.build root world).plan = .ok plan ∧
      ((∃ flattener left, attempt root world = .flattened flattener left) ↔ plan.paths = []) ∧
      (plan.paths = [] ↔ ∀ path node, root.resolve path = .ok node → node.isDynamic = false) ∧
      (plan.paths ≠ [] → attempt root world = .refused .dynamicContent) ∧
      (∀ message, attempt (root.trapped message) world =
        if plan.paths = [] then .faulted message world else .refused .dynamicContent) ∧
      ∀ flattener left, attempt root world = .flattened flattener left →
        (root.render world).result = .ok flattener.render ∧ left = (root.render world).world ∧
          plan = ⟨if flattener.render = [] then [] else [.static flattener.render]⟩ ∧
          ∀ (τ : Type) (other : Node τ) (later : τ),
            plan.validate other = .ok () ∧ plan.execute other later = ⟨flattener.render, later, none, []⟩ := by
  obtain ⟨plan, built⟩ := calm_build root calm world
  have harmless : (root.render world).fault = none := by
    cases calm with
    | node _ render _ _ => exact render world
  have paths : plan.paths = [] ↔ ¬ root.Live := by
    rw [built_paths root world plan built]
    exact ⟨fun none live => Node.livePaths_live root live none, Node.livePaths_still root⟩
  refine ⟨plan, built, ?succeeds, ?static, ?refused, ?trapped, ?content⟩
  case succeeds =>
    rw [paths]
    constructor
    · rintro ⟨flattener, left, flattened⟩ live
      rw [attempt_live root world live] at flattened
      cases flattened
    · intro still
      exact ⟨_, _, attempt_calm root world still harmless⟩
  case static =>
    rw [paths, Node.Live]
    constructor
    · intro still path node found
      exact Bool.eq_false_iff.mpr fun dynamic => still ⟨path, node, found, dynamic⟩
    · rintro static ⟨path, node, found, dynamic⟩
      exact absurd ((static path node found).symm.trans dynamic) (by decide)
  case refused =>
    rw [ne_eq, paths, not_not]
    exact attempt_live root world
  case trapped =>
    intro message
    rw [attempt_trapped]
    simp only [paths, ite_not]
  case content =>
    intro flattener left flattened
    have still : ¬ root.Live := by
      intro live
      rw [attempt_live root world live] at flattened
      cases flattened
    rw [attempt_calm root world still harmless] at flattened
    cases flattened
    have pieces := still_build root world still plan built
    refine ⟨by simp [harmless, Flattener.render], rfl, pieces, ?_⟩
    intro τ other later
    constructor
    · rw [Plan.validate, paths.mpr still]
      rfl
    · rw [pieces]
      exact condensed_execute (root.render world).out other later

def plaque : Node Nat :=
  .custom false (some ⟨.write [60], .write [62]⟩) (.write [7]) [.text (.plain "a"), .fragment []]

theorem plaque_calm : plaque.Calm := by
  have text : (Node.text (.plain "a") : Node Nat).Calm := Node.calm_leaf _ (fun _ => rfl) rfl rfl
  have nothing : (Node.fragment [] : Node Nat).Calm := Node.calm_leaf _ (fun _ => rfl) rfl rfl
  refine .node plaque (fun _ => rfl) ?tags ?below
  case tags =>
    intro tags member
    cases member
    exact ⟨fun _ => rfl, fun _ => rfl⟩
  case below =>
    exact List.forall_mem_cons.mpr ⟨text, List.forall_mem_cons.mpr ⟨nothing, List.forall_mem_nil _⟩⟩

def notice : Node Nat := .fragment [plaque, .text (.live "x")]

theorem notice_calm : notice.Calm := by
  have live : (Node.text (.live "x") : Node Nat).Calm := Node.calm_leaf _ (fun _ => rfl) rfl rfl
  refine .node notice (fun _ => rfl) (fun _ member => absurd member (Option.not_mem_none _)) ?below
  case below =>
    exact List.forall_mem_cons.mpr ⟨plaque_calm, List.forall_mem_cons.mpr ⟨live, List.forall_mem_nil _⟩⟩

theorem plaque_flattened_notice_refused :
    (Flattener.attempt plaque 0 = .flattened ⟨[7]⟩ 0 ∧ (Plan.build plaque 0).plan = .ok ⟨[.static [7]]⟩ ∧
        ∀ (τ : Type) (other : Node τ) (later : τ),
          Plan.execute ⟨[.static [7]]⟩ other later = ⟨[7], later, none, []⟩) ∧
      (Plan.build notice 0).plan = .ok ⟨[.static [7], .dynamic [1]]⟩ ∧
      Flattener.attempt notice 0 = .refused .dynamicContent ∧
      ∀ message, Flattener.attempt (notice.trapped message) 0 = .refused .dynamicContent := by
  constructor
  · have flattened : Flattener.attempt plaque 0 = .flattened ⟨[7]⟩ 0 := rfl
    obtain ⟨plan, built, _, _, _, _, content⟩ := flattening_agrees_with_building plaque plaque_calm 0
    obtain ⟨_, _, same, plays⟩ := content ⟨[7]⟩ 0 flattened
    have whole : plan = ⟨[.static [7]]⟩ := same
    rw [whole] at built plays
    exact ⟨flattened, built, fun τ other later => (plays τ other later).2⟩
  · have cut : (Plan.build notice 0).plan = .ok ⟨[.static [7], .dynamic [1]]⟩ := rfl
    obtain ⟨plan, built, _, _, refused, trapped, _⟩ := flattening_agrees_with_building notice notice_calm 0
    have whole : plan = ⟨[.static [7], .dynamic [1]]⟩ := Except.ok.inj (built.symm.trans cut)
    have paths : plan.paths ≠ [] := by
      rw [whole]
      decide
    exact ⟨cut, refused paths, fun message => (trapped message).trans (if_neg paths)⟩

end Stencil
