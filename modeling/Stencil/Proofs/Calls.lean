import Mathlib.Order.WithBot
import Stencil.Proofs.LivePaths

set_option autoImplicit false

namespace Stencil

inductive Call where
  | openTag (path : Path)
  | render (path : Path)
  | closeTag (path : Path)
deriving DecidableEq, Repr

namespace Call

def path : Call → Path
  | .openTag path | .render path | .closeTag path => path

def beneath (front : Path) : Call → Call
  | .openTag path => .openTag (front ++ path)
  | .render path => .render (front ++ path)
  | .closeTag path => .closeTag (front ++ path)

@[simp] theorem path_beneath (front : Path) (call : Call) : (call.beneath front).path = front ++ call.path := by
  cases call <;> rfl

theorem beneath_beneath (front back : Path) (call : Call) :
    (call.beneath back).beneath front = call.beneath (front ++ back) := by
  cases call <;> simp [beneath]

theorem beneath_nil (call : Call) : call.beneath [] = call := by
  cases call <;> rfl

theorem beneath_inj (left right : Nat) (first second : Call) (same : first.beneath [left] = second.beneath [right]) :
    left = right ∧ first = second := by
  cases first <;> cases second <;> simp_all [beneath]

theorem root_or_below (call : Call) : call.path = [] ∨ ∃ index below, call = Call.beneath [index] below := by
  cases call with
  | openTag path =>
      cases path with
      | nil => exact Or.inl rfl
      | cons index rest => exact Or.inr ⟨index, .openTag rest, rfl⟩
  | render path =>
      cases path with
      | nil => exact Or.inl rfl
      | cons index rest => exact Or.inr ⟨index, .render rest, rfl⟩
  | closeTag path =>
      cases path with
      | nil => exact Or.inl rfl
      | cons index rest => exact Or.inr ⟨index, .closeTag rest, rfl⟩

-- Where the output of a call stands in the document. An opening tag stands before all that lies below its node,
-- and a closing tag behind it.
def position : Call → List (WithTop Nat)
  | .openTag path | .render path => path.map WithTop.some
  | .closeTag path => path.map WithTop.some ++ [⊤]

def Precedes (first second : Call) : Prop := first.position < second.position

@[simp] theorem position_beneath (index : Nat) (call : Call) :
    (call.beneath [index]).position = WithTop.some index :: call.position := by
  cases call <;> rfl

theorem precedes_beneath (index : Nat) (first second : Call) (precedes : first.Precedes second) :
    (first.beneath [index]).Precedes (second.beneath [index]) := by
  simpa [Precedes, List.cons_lt_cons_iff] using precedes

theorem precedes_sibling (left right : Nat) (first second : Call) (before : left < right) :
    (first.beneath [left]).Precedes (second.beneath [right]) := by
  simp [Precedes, List.cons_lt_cons_iff, before]

theorem open_precedes (index : Nat) (call : Call) : (Call.openTag []).Precedes (call.beneath [index]) := by
  rw [Precedes, position_beneath]
  exact List.nil_lt_cons _ _

theorem precedes_close (index : Nat) (call : Call) : (call.beneath [index]).Precedes (.closeTag []) := by
  rw [Precedes, position_beneath]
  exact List.cons_lt_cons_iff.mpr (Or.inl (WithTop.coe_lt_top index))

theorem precedes_irrefl (call : Call) : ¬ call.Precedes call := List.lt_irrefl call.position

end Call

namespace Node

variable {σ : Type}

structure Walked (node : Node σ) : Prop where
  still : node.isDynamic = false
  live : node.Live

def Above (holds : Node σ → Prop) (root : Node σ) (path : Path) : Prop :=
  ∀ above node, above <+: path → above ≠ path → root.resolve above = .ok node → holds node

theorem above_nil (holds : Node σ → Prop) (root : Node σ) : root.Above holds [] :=
  fun _ _ pre different _ => absurd (List.prefix_nil.mp pre) different

theorem above_cons (holds : Node σ → Prop) (root child : Node σ) (index : Nat) (path : Path)
    (present : root.children[index]? = some child) :
    root.Above holds (index :: path) ↔ holds root ∧ child.Above holds path := by
  constructor
  · intro all
    refine ⟨all [] root List.nil_prefix (by simp) rfl, ?_⟩
    intro above node pre different found
    apply all (index :: above) node (List.cons_prefix_cons.mpr ⟨rfl, pre⟩)
    · intro same
      exact different (List.cons.inj same).2
    · exact (resolve_cons_ok root node index above).mpr ⟨child, present, found⟩
  · rintro ⟨here, below⟩ above node pre different found
    cases above with
    | nil =>
        cases found
        exact here
    | cons first rest =>
        obtain ⟨same, restPre⟩ := List.cons_prefix_cons.mp pre
        subst first
        obtain ⟨other, otherPresent, restFound⟩ := (resolve_cons_ok root node index rest).mp found
        cases Option.some.inj (present.symm.trans otherPresent)
        apply below rest node restPre _ restFound
        intro same
        exact different (by rw [same])

-- What a node is asked for: all of its output if nothing in it is dynamic, else its tags if it has any.
def Owes (node : Node σ) : Call → Prop
  | .render _ => ¬ node.Live
  | .openTag _ | .closeTag _ => node.Walked ∧ node.tags?.isSome = true

def Asked (root : Node σ) (call : Call) : Prop :=
  (∃ node, root.resolve call.path = .ok node ∧ node.Owes call) ∧ root.Above Walked call.path

theorem owes_beneath (node : Node σ) (front : Path) (call : Call) : node.Owes (call.beneath front) ↔ node.Owes call := by
  cases call <;> rfl

theorem asked_here (root : Node σ) (call : Call) (here : call.path = []) : root.Asked call ↔ root.Owes call := by
  rw [Asked, here]
  constructor
  · rintro ⟨⟨node, found, owes⟩, _⟩
    cases found
    exact owes
  · intro owes
    exact ⟨⟨root, rfl, owes⟩, above_nil Walked root⟩

theorem asked_beneath (root : Node σ) (index : Nat) (call : Call) :
    root.Asked (call.beneath [index]) ↔
      root.Walked ∧ ∃ child, root.children[index]? = some child ∧ child.Asked call := by
  simp only [Asked, Call.path_beneath, List.singleton_append, resolve_cons_ok, owes_beneath]
  constructor
  · rintro ⟨⟨node, ⟨child, present, found⟩, owes⟩, above⟩
    obtain ⟨walked, below⟩ := (above_cons Walked root child index call.path present).mp above
    exact ⟨walked, child, present, ⟨node, found, owes⟩, below⟩
  · rintro ⟨walked, child, present, ⟨node, found, owes⟩, below⟩
    exact ⟨⟨node, ⟨child, present, found⟩, owes⟩,
      (above_cons Walked root child index call.path present).mpr ⟨walked, below⟩⟩

theorem owes_still (node : Node σ) (call : Call) (owes : node.Owes call) : node.isDynamic = false := by
  cases call with
  | render path =>
      rw [Bool.eq_false_iff]
      exact mt (live_of_dynamic node) owes
  | openTag path => exact owes.1.still
  | closeTag path => exact owes.1.still

theorem asked_spares_dynamic (root : Node σ) (call : Call) (asked : root.Asked call) :
    ∀ above node, above <+: call.path → root.resolve above = .ok node → node.isDynamic = false := by
  intro above node pre found
  obtain ⟨⟨other, otherFound, owes⟩, entered⟩ := asked
  by_cases same : above = call.path
  · rw [same] at found
    cases found.symm.trans otherFound
    exact owes_still node call owes
  · exact (entered above node pre same found).still

def callsAround (node : Node σ) (inside : List Call) : List Call :=
  if node.isDynamic = true then []
  else if ∃ child ∈ node.children, child.Live then
    match node.tags? with
    | some _ => .openTag [] :: (inside ++ [.closeTag []])
    | none => inside
  else [.render []]

mutual
def calls : Node σ → List Call
  | .element tag attributes dynamic children =>
      callsAround (.element tag attributes dynamic children) (callsAll 0 children)
  | .fragment children => callsAround (.fragment children) (callsAll 0 children)
  | .custom dynamic tags body children => callsAround (.custom dynamic tags body children) (callsAll 0 children)
  | leaf => callsAround leaf []

def callsAll (index : Nat) : List (Node σ) → List Call
  | [] => []
  | node :: rest => (calls node).map (Call.beneath [index]) ++ callsAll (index + 1) rest
end

theorem calls_eq (node : Node σ) : node.calls = callsAround node (callsAll 0 node.children) := by
  cases node <;> rfl

theorem calls_dynamic (node : Node σ) (dynamic : node.isDynamic = true) : node.calls = [] := by
  rw [calls_eq, callsAround, if_pos dynamic]

theorem calls_static (node : Node σ) (still : ¬ node.Live) : node.calls = [.render []] := by
  obtain ⟨dynamic, below⟩ := not_or.mp (mt (live_iff_children node).mpr still)
  rw [calls_eq, callsAround, if_neg dynamic, if_neg below]

theorem calls_walked (node : Node σ) (walked : node.Walked) :
    node.calls =
      match node.tags? with
      | some _ => .openTag [] :: (callsAll 0 node.children ++ [.closeTag []])
      | none => callsAll 0 node.children := by
  have dynamic : ¬ node.isDynamic = true := Bool.not_eq_true _ ▸ walked.still
  have below := ((live_iff_children node).mp walked.live).resolve_left dynamic
  rw [calls_eq, callsAround, if_neg dynamic, if_pos below]

theorem mem_callsAll (nodes : List (Node σ)) (index : Nat) (call : Call) :
    call ∈ callsAll index nodes ↔
      ∃ (offset : Nat) (child : Node σ) (below : Call), nodes[offset]? = some child ∧ below ∈ child.calls ∧
        call = below.beneath [index + offset] := by
  induction nodes generalizing index with
  | nil => simp [callsAll]
  | cons node nodes ih =>
      rw [callsAll, List.mem_append, List.mem_map, ih (index + 1)]
      constructor
      · rintro (⟨below, member, same⟩ | ⟨offset, child, below, present, member, same⟩)
        · exact ⟨0, node, below, rfl, member, same.symm⟩
        · exact ⟨offset + 1, child, below, present, member, by rw [same, Nat.add_right_comm, Nat.add_assoc]⟩
      · rintro ⟨offset, child, below, present, member, same⟩
        cases offset with
        | zero =>
            cases present
            exact Or.inl ⟨below, member, same.symm⟩
        | succ offset =>
            exact Or.inr ⟨offset, child, below, present, member, by rw [same, Nat.add_right_comm, Nat.add_assoc]⟩

theorem mem_callsAll_below (nodes : List (Node σ)) (call : Call) (member : call ∈ callsAll 0 nodes) : call.path ≠ [] := by
  obtain ⟨offset, child, below, _, _, rfl⟩ := (mem_callsAll nodes 0 call).mp member
  rw [Call.path_beneath]
  exact List.cons_ne_nil _ _

theorem mem_calls_walked (node : Node σ) (walked : node.Walked) (call : Call) :
    call ∈ node.calls ↔ (call.path = [] ∧ node.Owes call) ∨ call ∈ callsAll 0 node.children := by
  rw [calls_walked node walked]
  -- No call of a child has the root's path, so whether the root is called is a matter of its tags.
  cases wrapping : node.tags? with
  | none =>
      simp only
      constructor
      · exact Or.inr
      · rintro (⟨_, owes⟩ | member)
        · cases call with
          | render path => exact absurd walked.live owes
          | openTag path => simp [Owes, wrapping] at owes
          | closeTag path => simp [Owes, wrapping] at owes
        · exact member
  | some tags =>
      have owed : node.Walked ∧ node.tags?.isSome = true := ⟨walked, by rw [wrapping]; rfl⟩
      simp only [List.mem_cons, List.mem_append, List.not_mem_nil, or_false]
      constructor
      · rintro (rfl | member | rfl)
        · exact Or.inl ⟨rfl, owed⟩
        · exact Or.inr member
        · exact Or.inl ⟨rfl, owed⟩
      · rintro (⟨here, owes⟩ | member)
        · cases call with
          | render path => exact absurd walked.live owes
          | openTag path =>
              cases here
              exact Or.inl rfl
          | closeTag path =>
              cases here
              exact Or.inr (Or.inr rfl)
        · exact Or.inr (Or.inl member)

theorem mem_calls (root : Node σ) (call : Call) : call ∈ root.calls ↔ root.Asked call := by
  induction root using by_children generalizing call with
  | step root ih =>
      by_cases dynamic : root.isDynamic = true
      · rw [calls_dynamic root dynamic]
        refine iff_of_false List.not_mem_nil fun asked => ?_
        have still := asked_spares_dynamic root call asked [] root List.nil_prefix rfl
        exact absurd (still.symm.trans dynamic) (by decide)
      · by_cases live : root.Live
        · have walked : root.Walked := ⟨Bool.eq_false_iff.mpr dynamic, live⟩
          rw [mem_calls_walked root walked]
          rcases Call.root_or_below call with here | ⟨index, below, rfl⟩
          · rw [asked_here root call here]
            constructor
            · rintro (⟨_, owes⟩ | member)
              · exact owes
              · exact absurd here (mem_callsAll_below root.children call member)
            · exact fun owes => Or.inl ⟨here, owes⟩
          · rw [asked_beneath]
            constructor
            · rintro (⟨here, _⟩ | member)
              · rw [Call.path_beneath] at here
                cases here
              · obtain ⟨offset, child, other, present, asked, same⟩ := (mem_callsAll _ 0 _).mp member
                obtain ⟨rfl, rfl⟩ := Call.beneath_inj _ _ _ _ same
                rw [Nat.zero_add]
                exact ⟨walked, child, present, (ih child (List.mem_of_getElem? present) below).mp asked⟩
            · rintro ⟨_, child, present, asked⟩
              refine Or.inr ((mem_callsAll _ 0 _).mpr ⟨index, child, below, present, ?_, by rw [Nat.zero_add]⟩)
              exact (ih child (List.mem_of_getElem? present) below).mpr asked
        · rw [calls_static root live, List.mem_singleton]
          rcases Call.root_or_below call with here | ⟨index, below, rfl⟩
          · rw [asked_here root call here]
            cases call with
            | render path =>
                cases here
                exact iff_of_true rfl live
            | openTag path => exact iff_of_false (by simp) fun owes => live owes.1.live
            | closeTag path => exact iff_of_false (by simp) fun owes => live owes.1.live
          · rw [asked_beneath]
            refine iff_of_false ?_ fun asked => live asked.1.live
            intro same
            have here := congrArg Call.path same
            rw [Call.path_beneath] at here
            cases here

theorem callsAll_ordered (nodes : List (Node σ)) (index : Nat) (each : ∀ node ∈ nodes, node.calls.Pairwise Call.Precedes) :
    (callsAll index nodes).Pairwise Call.Precedes := by
  induction nodes generalizing index with
  | nil => exact .nil
  | cons node rest ih =>
      rw [callsAll, List.pairwise_append, List.pairwise_map]
      refine ⟨?_, ih (index + 1) fun other member => each other (List.mem_cons_of_mem node member), ?_⟩
      · exact (each node List.mem_cons_self).imp fun {first second} => Call.precedes_beneath index first second
      · intro left leftMember right rightMember
        obtain ⟨first, _, rfl⟩ := List.mem_map.mp leftMember
        obtain ⟨offset, child, second, _, _, rfl⟩ := (mem_callsAll rest (index + 1) right).mp rightMember
        exact Call.precedes_sibling index _ first second (by omega)

theorem calls_ordered (node : Node σ) : node.calls.Pairwise Call.Precedes := by
  induction node using by_children with
  | step node ih =>
      by_cases dynamic : node.isDynamic = true
      · rw [calls_dynamic node dynamic]
        exact .nil
      · by_cases live : node.Live
        · have inside := callsAll_ordered node.children 0 ih
          rw [calls_walked node ⟨Bool.eq_false_iff.mpr dynamic, live⟩]
          cases node.tags? with
          | none => exact inside
          | some tags =>
              have below : ∀ call ∈ callsAll 0 node.children,
                  (Call.openTag []).Precedes call ∧ call.Precedes (.closeTag []) := by
                intro call member
                obtain ⟨offset, child, other, _, _, rfl⟩ := (mem_callsAll _ 0 call).mp member
                exact ⟨Call.open_precedes _ other, Call.precedes_close _ other⟩
              refine List.pairwise_cons.mpr ⟨?_, List.pairwise_append.mpr ⟨inside, List.pairwise_singleton _ _, ?_⟩⟩
              · intro call member
                rcases List.mem_append.mp member with member | last
                · exact (below call member).1
                · rw [List.mem_singleton.mp last]
                  exact List.nil_lt_cons _ _
              · intro call member last isLast
                rw [List.mem_singleton.mp isLast]
                exact (below call member).2
        · rw [calls_static node live]
          exact List.pairwise_singleton _ _

theorem calls_nodup (node : Node σ) : node.calls.Nodup := by
  apply (calls_ordered node).imp
  intro first second precedes same
  rw [same] at precedes
  exact Call.precedes_irrefl second precedes

end Node

end Stencil
