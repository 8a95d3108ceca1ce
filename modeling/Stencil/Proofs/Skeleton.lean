import Mathlib.Data.List.Forall2
import Stencil.Proofs.LivePaths

set_option autoImplicit false

namespace Stencil

variable {σ : Type}

theorem forall₂_strengthen {α β : Type} {related motive : α → β → Prop} (left : List α) (right : List β)
    (each : List.Forall₂ related left right)
    (step : ∀ first ∈ left, ∀ second, related first second → motive first second) : List.Forall₂ motive left right := by
  induction each with
  | nil => exact .nil
  | cons head _ ih =>
      exact .cons (step _ List.mem_cons_self _ head) (ih fun first member => step first (List.mem_cons_of_mem _ member))

theorem childless_eq {α β : Type} {related : α → β → Prop} (left : List α) (right : List β)
    (each : List.Forall₂ related left right) : left.isEmpty = right.isEmpty := by
  cases each <;> rfl

theorem exists_live_iff {τ : Type} (left : List (Node σ)) (right : List (Node τ))
    (each : List.Forall₂ (fun first second => first.Live ↔ second.Live) left right) :
    (∃ child ∈ left, child.Live) ↔ ∃ child ∈ right, child.Live := by
  induction each with
  | nil => exact iff_of_false nofun nofun
  | cons head _ ih => simp only [List.mem_cons, exists_eq_or_imp, head, ih]

inductive SameSkeleton : Node σ → Node σ → Prop where
  | dynamic (first second : Node σ) : first.isDynamic = true → second.isDynamic = true → SameSkeleton first second
  | text (leaf : Text) : leaf.isDynamic = false → SameSkeleton (.text leaf) (.text leaf)
  | element (tag : String) (attributes : List (String × String)) (left right : List (Node σ)) :
      List.Forall₂ SameSkeleton left right →
        SameSkeleton (.element tag attributes false left) (.element tag attributes false right)
  | fragment (left right : List (Node σ)) :
      List.Forall₂ SameSkeleton left right → SameSkeleton (.fragment left) (.fragment right)

namespace SameSkeleton

-- Induction on the pair of trees: the children of two static containers come related one by one.
@[elab_as_elim]
theorem by_pairs {motive : Node σ → Node σ → Prop}
    (dynamic : ∀ first second, first.isDynamic = true → second.isDynamic = true → motive first second)
    (text : ∀ leaf : Text, leaf.isDynamic = false → motive (.text leaf) (.text leaf))
    (element : ∀ tag attributes left right, List.Forall₂ SameSkeleton left right → List.Forall₂ motive left right →
      motive (.element tag attributes false left) (.element tag attributes false right))
    (fragment : ∀ left right, List.Forall₂ SameSkeleton left right → List.Forall₂ motive left right →
      motive (.fragment left) (.fragment right))
    (first second : Node σ) (same : SameSkeleton first second) : motive first second := by
  induction first using Node.by_children generalizing second with
  | step first ih =>
      cases same with
      | dynamic _ _ left right => exact dynamic first second left right
      | text leaf still => exact text leaf still
      | element tag attributes left right each =>
          exact element tag attributes left right each (forall₂_strengthen left right each ih)
      | fragment left right each => exact fragment left right each (forall₂_strengthen left right each ih)

theorem live_iff (first second : Node σ) (same : SameSkeleton first second) : first.Live ↔ second.Live := by
  refine by_pairs ?dynamic ?text ?element ?fragment first second same
  case dynamic =>
    intro first second left right
    exact iff_of_true (Node.live_of_dynamic first left) (Node.live_of_dynamic second right)
  case text => exact fun leaf still => Iff.rfl
  case element =>
    intro tag attributes left right _ each
    rw [Node.live_iff_children, Node.live_iff_children]
    exact or_congr Iff.rfl (exists_live_iff left right each)
  case fragment =>
    intro left right _ each
    rw [Node.live_iff_children, Node.live_iff_children]
    exact or_congr Iff.rfl (exists_live_iff left right each)

theorem still_renderAll (left right : List (Node σ)) (still : ¬ ∃ child ∈ left, child.Live)
    (each : List.Forall₂
      (fun first second => ¬ first.Live → ∃ bytes, first.render = .write bytes ∧ second.render = .write bytes)
      left right) :
    ∃ bytes, Node.renderAll left = .write bytes ∧ Node.renderAll right = .write bytes := by
  induction each with
  | nil => exact ⟨[], rfl, rfl⟩
  | cons head _ ih =>
      simp only [List.mem_cons, exists_eq_or_imp, not_or] at still
      obtain ⟨bytes, first, second⟩ := head still.1
      obtain ⟨more, left, right⟩ := ih still.2
      refine ⟨bytes ++ more, ?_, ?_⟩
      · rw [Node.renderAll, first, left]
        rfl
      · rw [Node.renderAll, second, right]
        rfl

theorem still_render (first second : Node σ) (same : SameSkeleton first second) :
    ¬ first.Live → ∃ bytes, first.render = .write bytes ∧ second.render = .write bytes := by
  refine by_pairs ?dynamic ?text ?element ?fragment first second same
  case dynamic =>
    intro first second dynamic _ still
    exact absurd (Node.live_of_dynamic first dynamic) still
  case text => exact fun leaf _ _ => ⟨leaf.bytes, rfl, rfl⟩
  case element =>
    intro tag attributes left right _ each still
    rw [Node.live_iff_children, not_or] at still
    obtain ⟨bytes, leftBytes, rightBytes⟩ := still_renderAll left right still.2 each
    refine ⟨openTagBytes tag attributes ++ (bytes ++ closeTagBytes tag left.isEmpty), ?_, ?_⟩
    · rw [Node.render, leftBytes]
      rfl
    · rw [Node.render, rightBytes, childless_eq left right each]
      rfl
  case fragment =>
    intro left right _ each still
    rw [Node.live_iff_children, not_or] at still
    exact still_renderAll left right still.2 each

end SameSkeleton

-- How a tree of the compared kinds is cut at `path`: the pieces do not depend on the world, the partner
-- is cut in the same way, and they write what the tree does wherever it stands at that path.
def CutAlike (path : Path) (first second : Node σ) : Prop :=
  ∃ pieces, segment path first = Segmenter.steady pieces ∧ segment path second = Segmenter.steady pieces ∧
    ∀ root, root.resolve path = .ok second → rendition root pieces = second.render

theorem steady_andThen (left right : List Piece) :
    (Segmenter.steady left).andThen (Segmenter.steady right) = (Segmenter.steady (left ++ right) : Segmenter σ) := rfl

theorem freeze_write (bytes : Bytes) :
    Segmenter.freeze (.write bytes) = (Segmenter.steady [.static bytes] : Segmenter σ) := rfl

theorem rendition_static (root : Node σ) (bytes : Bytes) : rendition root [.static bytes] = .write bytes :=
  Effect.andThen_skip _

theorem rendition_dynamic (root node : Node σ) (path : Path) (found : root.resolve path = .ok node) :
    rendition root [.dynamic path] = node.render := by
  rw [rendition, Piece.rendition, found]
  exact Effect.andThen_skip _

theorem cut_alike_all (left right : List (Node σ)) (path : Path) (index : Nat)
    (each : List.Forall₂ (fun first second => ∀ path, CutAlike path first second) left right) :
    ∃ pieces, segmentAll path index left = Segmenter.steady pieces ∧
      segmentAll path index right = Segmenter.steady pieces ∧
      ∀ root : Node σ,
        (∀ offset child, right[offset]? = some child → root.resolve (path ++ [index + offset]) = .ok child) →
        rendition root pieces = Node.renderAll right := by
  induction each generalizing index with
  | nil => exact ⟨[], rfl, rfl, fun _ _ => rfl⟩
  | cons head _ ih =>
      obtain ⟨front, first, second, played⟩ := head (path ++ [index])
      obtain ⟨back, left, right, playedAll⟩ := ih (index + 1)
      refine ⟨front ++ back, ?_, ?_, ?_⟩
      · rw [segmentAll, first, left, steady_andThen]
      · rw [segmentAll, second, right, steady_andThen]
      · intro root found
        rw [rendition_append, played root (found 0 _ rfl), playedAll root, Node.renderAll]
        intro offset child present
        rw [Nat.add_assoc, Nat.add_comm 1 offset]
        exact found (offset + 1) child present

theorem cut_alike_children (first second : Node σ) (path : Path)
    (each : List.Forall₂ (fun first second => ∀ path, CutAlike path first second) first.children second.children) :
    ∃ pieces, segmentAll path 0 first.children = Segmenter.steady pieces ∧
      segmentAll path 0 second.children = Segmenter.steady pieces ∧
      ∀ root, root.resolve path = .ok second → rendition root pieces = Node.renderAll second.children := by
  obtain ⟨pieces, firstCut, secondCut, played⟩ := cut_alike_all first.children second.children path 0 each
  refine ⟨pieces, firstCut, secondCut, ?_⟩
  intro root found
  apply played root
  intro offset child present
  rw [Nat.zero_add]
  exact Node.resolve_child root second child path offset found present

theorem cut_alike_still (first second : Node σ) (path : Path) (same : SameSkeleton first second)
    (still : ¬ first.Live) : CutAlike path first second := by
  obtain ⟨bytes, firstBytes, secondBytes⟩ := SameSkeleton.still_render first second same still
  refine ⟨[.static bytes], ?_, ?_, ?_⟩
  · rw [static_segments first path still, firstBytes, freeze_write]
  · rw [static_segments second path (mt (SameSkeleton.live_iff first second same).mpr still), secondBytes, freeze_write]
  · intro root _
    rw [rendition_static, secondBytes]

theorem cut_alike (first second : Node σ) (same : SameSkeleton first second) : ∀ path, CutAlike path first second := by
  refine SameSkeleton.by_pairs ?dynamic ?text ?element ?fragment first second same
  case dynamic =>
    intro first second left right path
    refine ⟨[.dynamic path], ?_, ?_, fun root found => rendition_dynamic root second path found⟩
    · rw [dynamic_segments first path left]
    · rw [dynamic_segments second path right]
  case text =>
    intro leaf still path
    apply cut_alike_still _ _ path (.text leaf still)
    intro live
    rcases (Node.live_iff_children _).mp live with dynamic | ⟨child, member, _⟩
    · exact Bool.false_ne_true (still.symm.trans dynamic)
    · cases member
  case element =>
    intro tag attributes left right related each path
    have same := SameSkeleton.element tag attributes left right related
    by_cases live : (Node.element tag attributes false left).Live
    · have rightLive := (SameSkeleton.live_iff _ _ same).mp live
      obtain ⟨inside, leftCut, rightCut, played⟩ :=
        cut_alike_children (.element tag attributes false left) (.element tag attributes false right) path each
      refine ⟨.static (openTagBytes tag attributes) :: (inside ++ [.static (closeTagBytes tag right.isEmpty)]),
        ?_, ?_, ?_⟩
      · rw [walked_segments (.element tag attributes false left) path Bool.false_ne_true live]
        simp only [Node.tags?, leftCut, childless_eq left right related]
        rfl
      · rw [walked_segments (.element tag attributes false right) path Bool.false_ne_true rightLive]
        simp only [Node.tags?, rightCut]
        rfl
      · intro root found
        rw [rendition, rendition_append, rendition_static, played root found]
        rfl
    · exact cut_alike_still _ _ path same live
  case fragment =>
    intro left right related each path
    have same := SameSkeleton.fragment left right related
    by_cases live : (Node.fragment left).Live
    · have rightLive := (SameSkeleton.live_iff _ _ same).mp live
      obtain ⟨inside, leftCut, rightCut, played⟩ := cut_alike_children (.fragment left) (.fragment right) path each
      refine ⟨inside, ?_, ?_, ?_⟩
      · rw [walked_segments (.fragment left) path Bool.false_ne_true live]
        exact leftCut
      · rw [walked_segments (.fragment right) path Bool.false_ne_true rightLive]
        exact rightCut
      · intro root found
        rw [played root found]
        rfl
    · exact cut_alike_still _ _ path same live

theorem steady_build (root : Node σ) (world : σ) (pieces : List Piece)
    (cut : segment [] root = Segmenter.steady pieces) :
    (Plan.build root world).plan = .ok ⟨condense pieces⟩ ∧ (Plan.build root world).world = world := by
  rw [build_plan, build_world, cut]
  exact ⟨rfl, rfl⟩

theorem same_skeleton_plan_renders (first second : Node σ) (same : SameSkeleton first second) :
    ∃ plan : Plan, ∀ world : σ,
      (Plan.build first world).plan = .ok plan ∧ (Plan.build first world).world = world ∧
        Plan.build second world = Plan.build first world ∧
        (plan.execute second world).outcome = second.render world ∧ (plan.execute second world).events = [] := by
  obtain ⟨pieces, firstCut, secondCut, played⟩ := cut_alike first second same []
  refine ⟨⟨condense pieces⟩, ?_⟩
  intro world
  obtain ⟨firstPlan, firstWorld⟩ := steady_build first world pieces firstCut
  obtain ⟨secondPlan, secondWorld⟩ := steady_build second world pieces secondCut
  refine ⟨firstPlan, firstWorld, ?_, ?_, ?_⟩
  · apply build_ext
    · rw [firstPlan, secondPlan]
    · rw [firstWorld, secondWorld]
  · rw [execute_outcome, rendition_condense, played second rfl]
  · exact executePieces_silent second _ world (built_resolved second world _ secondPlan)

def chosen : Node Nat := .element "p" [] false [.text (.raw "n"), .choice true (.text (.live "x")) none]

def counted : Node Nat :=
  .element "p" [] false [.text (.raw "n"), .func (fun calls => .text (.live (toString calls))) (· + 1)]

theorem chosen_plan_renders_counted :
    SameSkeleton chosen counted ∧ ∃ plan : Plan, (Plan.build chosen 3).plan = .ok plan ∧
      (plan.execute counted 3).outcome = counted.render 3 ∧ (counted.render 3).world = 4 := by
  have same : SameSkeleton chosen counted :=
    .element _ _ _ _ (.cons (.text _ rfl) (.cons (.dynamic _ _ rfl rfl) .nil))
  obtain ⟨plan, renders⟩ := same_skeleton_plan_renders chosen counted same
  obtain ⟨built, _, _, played, _⟩ := renders 3
  exact ⟨same, plan, built, played, rfl⟩

end Stencil
