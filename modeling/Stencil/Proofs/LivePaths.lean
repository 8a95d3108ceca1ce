import Stencil.Proofs.Rendition
import Stencil.Proofs.Segments

set_option autoImplicit false

namespace Stencil

namespace Node

variable {σ : Type}

def Outermost (root : Node σ) (path : Path) : Prop :=
  (∃ node, root.resolve path = .ok node ∧ node.isDynamic = true) ∧
    ∀ above node, above <+: path → above ≠ path → root.resolve above = .ok node → node.isDynamic = false

mutual
def livePaths : Node σ → List Path
  | .element _ _ dynamic children => if dynamic then [[]] else livePathsAll 0 children
  | .fragment children => livePathsAll 0 children
  | .custom dynamic _ _ children => if dynamic then [[]] else livePathsAll 0 children
  | leaf => if leaf.isDynamic then [[]] else []

def livePathsAll (index : Nat) : List (Node σ) → List Path
  | [] => []
  | node :: rest => (livePaths node).map (index :: ·) ++ livePathsAll (index + 1) rest
end

theorem livePaths_eq (node : Node σ) :
    node.livePaths = if node.isDynamic = true then [[]] else livePathsAll 0 node.children := by
  cases node <;> rfl

theorem outermost_nil (root : Node σ) : root.Outermost [] ↔ root.isDynamic = true := by
  constructor
  · rintro ⟨⟨node, found, dynamic⟩, _⟩
    cases found
    exact dynamic
  · intro dynamic
    exact ⟨⟨root, rfl, dynamic⟩, fun above _ pre different _ => absurd (List.prefix_nil.mp pre) different⟩

theorem outermost_cons (root : Node σ) (index : Nat) (path : Path) :
    root.Outermost (index :: path) ↔
      root.isDynamic = false ∧ ∃ child, root.children[index]? = some child ∧ child.Outermost path := by
  constructor
  · rintro ⟨⟨node, found, dynamic⟩, above⟩
    obtain ⟨child, present, below⟩ := (resolve_cons_ok root node index path).mp found
    refine ⟨above [] root List.nil_prefix (by simp) rfl, child, present, ⟨node, below, dynamic⟩, ?_⟩
    intro front other pre different reached
    apply above (index :: front) other (List.cons_prefix_cons.mpr ⟨rfl, pre⟩)
    · intro same
      exact different (List.cons.inj same).2
    · exact (resolve_cons_ok root other index front).mpr ⟨child, present, reached⟩
  · rintro ⟨still, child, present, ⟨node, below, dynamic⟩, above⟩
    refine ⟨⟨node, (resolve_cons_ok root node index path).mpr ⟨child, present, below⟩, dynamic⟩, ?_⟩
    intro front other pre different reached
    cases front with
    | nil =>
        cases reached
        exact still
    | cons first rest =>
        obtain ⟨same, restPre⟩ := List.cons_prefix_cons.mp pre
        subst first
        obtain ⟨found, foundPresent, restReached⟩ := (resolve_cons_ok root other index rest).mp reached
        cases Option.some.inj (present.symm.trans foundPresent)
        apply above rest other restPre _ restReached
        intro same
        exact different (by rw [same])

theorem outermost_no_prefix (root : Node σ) (path other : Path) (left : root.Outermost path)
    (right : root.Outermost other) (pre : path <+: other) : path = other := by
  obtain ⟨⟨node, found, dynamic⟩, _⟩ := left
  by_cases same : path = other
  · exact same
  · have still := right.2 path node pre same found
    rw [dynamic] at still
    cases still

theorem outermost_live (root : Node σ) (path : Path) (outermost : root.Outermost path) : root.Live := by
  obtain ⟨⟨node, found, dynamic⟩, _⟩ := outermost
  exact ⟨path, node, found, dynamic⟩

theorem mem_livePathsAll (nodes : List (Node σ)) (index : Nat) (path : Path) :
    path ∈ livePathsAll index nodes ↔
      ∃ offset child rest, nodes[offset]? = some child ∧ rest ∈ child.livePaths ∧ path = (index + offset) :: rest := by
  induction nodes generalizing index with
  | nil => simp [livePathsAll]
  | cons node nodes ih =>
      rw [livePathsAll, List.mem_append, List.mem_map, ih (index + 1)]
      constructor
      · rintro (⟨rest, member, same⟩ | ⟨offset, child, rest, present, member, same⟩)
        · exact ⟨0, node, rest, rfl, member, same.symm⟩
        · exact ⟨offset + 1, child, rest, present, member, by rw [same, Nat.add_right_comm, Nat.add_assoc]⟩
      · rintro ⟨offset, child, rest, present, member, same⟩
        cases offset with
        | zero =>
            cases present
            exact Or.inl ⟨rest, member, same.symm⟩
        | succ offset =>
            exact Or.inr ⟨offset, child, rest, present, member, by rw [same, Nat.add_right_comm, Nat.add_assoc]⟩

theorem mem_livePaths (node : Node σ) (path : Path) : path ∈ node.livePaths ↔ node.Outermost path := by
  induction node using by_children generalizing path with
  | step node ih =>
      rw [livePaths_eq]
      by_cases dynamic : node.isDynamic = true
      · rw [if_pos dynamic, List.mem_singleton]
        cases path with
        | nil => simp [outermost_nil, dynamic]
        | cons index rest => simp [outermost_cons, dynamic]
      · rw [if_neg dynamic, mem_livePathsAll]
        cases path with
        | nil => simp [outermost_nil, dynamic]
        | cons index rest =>
            rw [outermost_cons]
            constructor
            · rintro ⟨offset, child, tail, present, member, same⟩
              rw [Nat.zero_add] at same
              cases same
              exact ⟨Bool.eq_false_iff.mpr dynamic, child, present,
                (ih child (List.mem_of_getElem? present) rest).mp member⟩
            · rintro ⟨_, child, present, outermost⟩
              exact ⟨index, child, rest, present, (ih child (List.mem_of_getElem? present) rest).mpr outermost,
                by rw [Nat.zero_add]⟩

theorem livePathsAll_sorted (nodes : List (Node σ)) (index : Nat)
    (each : ∀ node ∈ nodes, node.livePaths.Pairwise (· < ·)) : (livePathsAll index nodes).Pairwise (· < ·) := by
  induction nodes generalizing index with
  | nil => exact .nil
  | cons node rest ih =>
      rw [livePathsAll, List.pairwise_append, List.pairwise_map]
      refine ⟨?_, ih (index + 1) fun other member => each other (List.mem_cons_of_mem node member), ?_⟩
      · refine (each node List.mem_cons_self).imp ?_
        intro left right less
        exact List.cons_lt_cons_iff.mpr (Or.inr ⟨rfl, less⟩)
      · -- All paths into a later sibling start with a larger index.
        intro left leftMember right rightMember
        obtain ⟨below, _, rfl⟩ := List.mem_map.mp leftMember
        obtain ⟨offset, child, tail, _, _, rfl⟩ := (mem_livePathsAll rest (index + 1) right).mp rightMember
        exact List.cons_lt_cons_iff.mpr (Or.inl (by omega))

theorem livePaths_sorted (node : Node σ) : node.livePaths.Pairwise (· < ·) := by
  induction node using by_children with
  | step node ih =>
      rw [livePaths_eq]
      by_cases dynamic : node.isDynamic = true
      · rw [if_pos dynamic]
        exact List.pairwise_singleton _ _
      · rw [if_neg dynamic]
        exact livePathsAll_sorted node.children 0 ih

theorem livePaths_still (node : Node σ) (still : ¬ node.Live) : node.livePaths = [] := by
  apply List.eq_nil_iff_forall_not_mem.mpr
  intro path member
  exact still (outermost_live node path ((mem_livePaths node path).mp member))

end Node

variable {σ : Type}

theorem segmentAll_paths (nodes : List (Node σ)) (path : Path) (index : Nat) (world : σ)
    (each : ∀ node ∈ nodes, ∀ path world, (segment path node world).fault = none →
      (segment path node world).pieces.filterMap Piece.path? = node.livePaths.map (path ++ ·))
    (calm : (segmentAll path index nodes world).fault = none) :
    (segmentAll path index nodes world).pieces.filterMap Piece.path? =
      (Node.livePathsAll index nodes).map (path ++ ·) := by
  induction nodes generalizing index world with
  | nil => rfl
  | cons node rest ih =>
      rw [segmentAll] at calm ⊢
      obtain ⟨first, later, pieces⟩ := Segmenter.andThen_calm _ _ world calm
      have head := each node List.mem_cons_self (path ++ [index]) world first
      have tail := ih (index + 1) _ (fun other member => each other (List.mem_cons_of_mem node member)) later
      rw [pieces, List.filterMap_append, head, tail, Node.livePathsAll, List.map_append, List.map_map]
      congr 2
      funext below
      simp

theorem segment_paths (node : Node σ) (path : Path) (world : σ) (calm : (segment path node world).fault = none) :
    (segment path node world).pieces.filterMap Piece.path? = node.livePaths.map (path ++ ·) := by
  induction node using Node.by_children generalizing path world with
  | step node ih =>
      rw [Node.livePaths_eq]
      by_cases dynamic : node.isDynamic = true
      · rw [dynamic_segments node path dynamic, if_pos dynamic]
        simp [Segmenter.steady, Piece.path?]
      · rw [if_neg dynamic]
        by_cases live : node.Live
        · rw [walked_segments node path dynamic live] at calm ⊢
          cases wrapping : node.tags? with
          | none =>
              simp only [wrapping] at calm
              exact segmentAll_paths node.children path 0 world ih calm
          | some tags =>
              -- The tags add frozen pieces only.
              simp only [wrapping] at calm ⊢
              obtain ⟨_, insideCalm, pieces⟩ := Segmenter.andThen_calm _ _ world calm
              obtain ⟨first, _, insidePieces⟩ := Segmenter.andThen_calm _ _ _ insideCalm
              rw [pieces, insidePieces, List.filterMap_append, List.filterMap_append,
                segmentAll_paths node.children path 0 _ ih first]
              exact List.append_nil _
        · have absent := Node.livePaths_still node live
          rw [Node.livePaths_eq, if_neg dynamic] at absent
          rw [static_segments node path live, absent]
          rfl

theorem built_paths (root : Node σ) (world : σ) (plan : Plan) (built : (Plan.build root world).plan = .ok plan) :
    plan.paths = root.livePaths := by
  rw [build_plan] at built
  have calm := segments_plan_calm (segment [] root world) plan built
  rw [Plan.paths, segments_plan_condensed (segment [] root world) plan built, filterMap_path_condense,
    segment_paths root [] world calm]
  exact List.map_id _

theorem built_resolved (root : Node σ) (world : σ) (plan : Plan) (built : (Plan.build root world).plan = .ok plan) :
    ∀ path ∈ plan.paths, ∃ node, root.resolve path = .ok node := by
  intro path member
  rw [built_paths root world plan built, Node.mem_livePaths] at member
  obtain ⟨⟨node, found, _⟩, _⟩ := member
  exact ⟨node, found⟩

theorem build_paths_outermost (root : Node σ) (world : σ) (plan : Plan)
    (built : (Plan.build root world).plan = .ok plan) :
    (∀ path, path ∈ plan.paths ↔ root.Outermost path) ∧
      plan.paths.Pairwise (· < ·) ∧ plan.paths.Nodup ∧
      (∀ path ∈ plan.paths, ∀ other ∈ plan.paths, path <+: other → path = other) ∧
      plan.validate root = .ok () ∧
      ∀ later, (plan.execute root later).events = [] := by
  have paths := built_paths root world plan built
  have outermost : ∀ path, path ∈ plan.paths ↔ root.Outermost path := by
    intro path
    rw [paths]
    exact Node.mem_livePaths root path
  have resolved := built_resolved root world plan built
  have sorted : plan.paths.Pairwise (· < ·) := by
    rw [paths]
    exact Node.livePaths_sorted root
  refine ⟨outermost, sorted, ?_, ?_, validatePaths_of_resolved root plan.paths resolved, ?_⟩
  · apply sorted.imp
    intro left right less same
    rw [same] at less
    exact List.lt_irrefl right less
  · intro path member other otherMember pre
    exact Node.outermost_no_prefix root path other ((outermost path).mp member) ((outermost other).mp otherMember) pre
  · intro later
    exact executePieces_silent root plan.pieces later resolved

def siblings : Node Nat :=
  let live : Node Nat := .custom true none (.write [7]) [.custom true none .skip []]
  let still : Node Nat := .custom false none (.write [1]) []
  .fragment [.fragment [live, live], .fragment [still, live], live]

theorem siblings_paths_outermost :
    (Plan.build siblings 0).plan =
        .ok ⟨[.dynamic [0, 0], .dynamic [0, 1], .static [1], .dynamic [1, 1], .dynamic [2]]⟩ ∧
      siblings.Outermost [1, 1] ∧ ¬ siblings.Outermost [2, 0] ∧
      ∀ later, (Plan.execute ⟨[.dynamic [0, 0], .dynamic [0, 1], .static [1], .dynamic [1, 1], .dynamic [2]]⟩
        siblings later).events = [] := by
  have built : (Plan.build siblings 0).plan =
    .ok ⟨[.dynamic [0, 0], .dynamic [0, 1], .static [1], .dynamic [1, 1], .dynamic [2]]⟩ := rfl
  obtain ⟨outermost, _, _, _, _, silent⟩ := build_paths_outermost siblings 0 _ built
  have inner : ¬ siblings.Outermost [2, 0] := fun below => absurd ((outermost [2, 0]).mpr below) (by decide)
  exact ⟨built, (outermost [1, 1]).mp (by decide), inner, silent⟩

end Stencil
