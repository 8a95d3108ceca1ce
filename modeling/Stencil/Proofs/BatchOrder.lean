import Mathlib.Data.List.Sort
import Stencil.Batch
import Stencil.Proofs.CompilerTurn
import Stencil.Proofs.Skeleton

set_option autoImplicit false

namespace Stencil

variable {σ : Type}

-- No closure changes the world, and no custom node does; what they read in it is up to them.
inductive Node.Stateless : Node σ → Prop where
  | element (tag : String) (attributes : List (String × String)) (dynamic : Bool) (children : List (Node σ)) :
      (∀ child ∈ children, Stateless child) → Stateless (.element tag attributes dynamic children)
  | text (leaf : Text) : Stateless (.text leaf)
  | fragment (children : List (Node σ)) : (∀ child ∈ children, Stateless child) → Stateless (.fragment children)
  | func (body : σ → Node σ) : (∀ world, Stateless (body world)) → Stateless (.func body id)
  | funcs (body : σ → List (Node σ)) : (∀ world, ∀ node ∈ body world, Stateless node) → Stateless (.funcs body id)
  | choice (condition : Bool) (yes : Node σ) (no : Option (Node σ)) : Stateless yes → (∀ node ∈ no, Stateless node) →
      Stateless (.choice condition yes no)
  | custom (dynamic : Bool) (tags : Option (Tags σ)) (body : Effect σ) (children : List (Node σ)) :
      (∀ world, (body world).world = world) → Stateless (.custom dynamic tags body children)

def Effect.Keeps (effect : Effect σ) : Prop := ∀ world, (effect world).world = world

theorem Effect.Keeps.andThen (first second : Effect σ) (left : first.Keeps) (right : second.Keeps) :
    (first.andThen second).Keeps := by
  intro world
  simp only [Effect.andThen]
  cases (first world).fault with
  | some message => exact left world
  | none => exact (right _).trans (left world)

namespace Node

theorem renderAll_keeps (nodes : List (Node σ)) (each : ∀ node ∈ nodes, node.render.Keeps) : (renderAll nodes).Keeps := by
  induction nodes with
  | nil => exact fun _ => rfl
  | cons node rest ih =>
      obtain ⟨first, later⟩ := List.forall_mem_cons.mp each
      exact Effect.Keeps.andThen _ _ first (ih later)

theorem Stateless.render_keeps (node : Node σ) (stateless : node.Stateless) : node.render.Keeps := by
  induction stateless with
  | element tag attributes dynamic children _ each =>
      exact Effect.Keeps.andThen _ _ (fun _ => rfl)
        (Effect.Keeps.andThen _ _ (renderAll_keeps children each) fun _ => rfl)
  | text leaf => exact fun _ => rfl
  | fragment children _ each => exact renderAll_keeps children each
  | func body _ each => exact fun world => each world world
  | funcs body _ each => exact fun world => renderAll_keeps (body world) (each world) world
  | choice condition yes no _ _ first other =>
      rw [Node.render]
      cases condition with
      | true => exact first
      | false =>
          cases no with
          | none => exact fun _ => rfl
          | some node => exact other node rfl
  | custom dynamic tags body children keeps => exact keeps

end Node

structure Plan.Plays (plan : Plan) (root : Node σ) : Prop where
  built : ∀ world, (Plan.build root world).plan = .ok plan ∧ (Plan.build root world).world = world
  played : rendition root plan.pieces = root.render

theorem skeleton_plays (first second : Node σ) (same : SameSkeleton first second) :
    ∃ plan : Plan, (∀ world, (Plan.build first world).plan = .ok plan) ∧ plan.Plays second := by
  obtain ⟨pieces, firstCut, secondCut, played⟩ := cut_alike first second same []
  refine ⟨⟨condense pieces⟩, fun world => (steady_build first world pieces firstCut).1, ?_, ?_⟩
  · exact fun world => steady_build second world pieces secondCut
  · rw [rendition_condense, played second rfl]

namespace Compiler

def Fits (compiler : Compiler) (roots : List (Node σ)) : Prop :=
  ∀ plan, compiler.plan = some plan → ∃ first : Node σ, (∀ root ∈ roots, SameSkeleton first root) ∧
    ∃ world, (Plan.build first world).plan = .ok plan

theorem fits_plays (compiler : Compiler) (roots : List (Node σ))
    (alike : ∀ first ∈ roots, ∀ second ∈ roots, SameSkeleton first second) (fits : compiler.Fits roots) (world : σ) :
    ∃ plan, (compiler.plan = none ∨ compiler.plan = some plan) ∧ ∀ root ∈ roots, plan.Plays root := by
  have shared : ∀ (first : Node σ) world plan, (Plan.build first world).plan = .ok plan →
      (∀ root ∈ roots, SameSkeleton first root) → ∀ root ∈ roots, plan.Plays root := by
    intro first world plan made same root member
    obtain ⟨other, built, plays⟩ := skeleton_plays first root (same root member)
    have equal : plan = other := Except.ok.inj (made.symm.trans (built world))
    exact equal ▸ plays
  cases held : compiler.plan with
  | some plan =>
      obtain ⟨first, same, world, built⟩ := fits plan held
      exact ⟨plan, Or.inr rfl, shared first world plan built same⟩
  | none =>
      cases roots with
      | nil => exact ⟨⟨[]⟩, Or.inl rfl, fun _ member => absurd member List.not_mem_nil⟩
      | cons first later =>
          have each := alike first List.mem_cons_self
          obtain ⟨plan, built, _⟩ := skeleton_plays first first (each first List.mem_cons_self)
          exact ⟨plan, Or.inl rfl, shared first world plan (built world) each⟩

theorem render_plays (compiler : Compiler) (pool : Pool) (plan : Plan)
    (known : compiler.plan = none ∨ compiler.plan = some plan) (root : Node σ) (plays : plan.Plays root)
    (keeps : root.render.Keeps) (world : σ) :
    let reply := compiler.render pool root world
    reply.result = (root.render world).result ∧ reply.world = world ∧
      (reply.self.plan = none ∨ reply.self.plan = some plan) ∧
      ((root.render world).fault = none → reply.self.plan = some plan) := by
  obtain ⟨result, left, kept⟩ := compiler.render_content pool root world
  simp only [result, left, kept, Rehearsal.perform, Rehearsal.kept]
  rcases known with absent | held
  · obtain ⟨built, before⟩ := plays.built world
    have trial : (plan.execute root world).outcome = root.render world := by simp [plays.played]
    have fault : (plan.execute root world).fault = (root.render world).fault := congrArg Outcome.fault trial
    have after : (plan.execute root world).world = world := (congrArg Outcome.world trial).trans (keeps world)
    simp only [rehearse, absent, built, before, fault, after]
    cases faulted : (root.render world).fault with
    | some message =>
        refine ⟨((Outcome.result_error _ message).mpr faulted).symm, rfl, Or.inl rfl, ?_⟩
        exact fun calm => absurd calm (Option.some_ne_none message)
    | none =>
        simp only [plays.played]
        exact ⟨trivial, keeps world, Or.inr rfl, fun _ => rfl⟩
  · simp only [rehearse, held, plays.played]
    exact ⟨trivial, keeps world, Or.inr rfl, fun _ => rfl⟩

end Compiler

namespace Batch

structure Rendered (held : Option Plan) (plan : Plan) (order : List (Node σ)) (world : σ)
    (reply : Reply Compiler σ (List Bytes)) : Prop where
  known : reply.self.plan = none ∨ reply.self.plan = some plan
  outputs : ∀ outputs, reply.result = .ok outputs →
    outputs.map Except.ok = order.map (fun root => (root.render world).result) ∧
      (held = some plan ∨ order ≠ [] → reply.self.plan = some plan)
  fault : ∀ message, reply.result = .error message → ∃ root ∈ order, (root.render world).result = .error message

theorem renderEach_rendered (compiler : Compiler) (pool : Pool) (plan : Plan)
    (known : compiler.plan = none ∨ compiler.plan = some plan) (order : List (Node σ))
    (plays : ∀ root ∈ order, plan.Plays root) (keeps : ∀ root ∈ order, root.render.Keeps) (world : σ) :
    Rendered compiler.plan plan order world (renderEach compiler pool order world) := by
  induction order generalizing compiler pool with
  | nil =>
      refine ⟨known, ?_, fun message failed => nomatch failed⟩
      intro outputs rendered
      cases rendered
      exact ⟨rfl, fun planned => planned.resolve_right fun given => given rfl⟩
  | cons root later ih =>
      obtain ⟨firstPlays, laterPlays⟩ := List.forall_mem_cons.mp plays
      obtain ⟨firstKeeps, laterKeeps⟩ := List.forall_mem_cons.mp keeps
      obtain ⟨direct, same, still, found⟩ := compiler.render_plays pool plan known root firstPlays firstKeeps world
      simp only [renderEach, direct]
      cases answered : (root.render world).result with
      | error message =>
          refine ⟨still, nofun, fun _ failed => ?_⟩
          cases failed
          exact ⟨root, List.mem_cons_self, answered⟩
      | ok bytes =>
          have held := found ((Outcome.result_ok _ bytes).mp answered).1
          have onward := ih (compiler.render pool root world).self (compiler.render pool root world).pool still
            laterPlays laterKeeps
          simp only [same]
          generalize renderEach (compiler.render pool root world).self (compiler.render pool root world).pool later world =
            reply at onward
          obtain ⟨self, spare, after, events, result⟩ := reply
          obtain ⟨known, outputs, fault⟩ := onward
          cases result with
          | error message =>
              obtain ⟨other, member, faulted⟩ := fault message rfl
              refine ⟨known, nofun, fun _ failed => ?_⟩
              cases failed
              exact ⟨other, List.mem_cons_of_mem root member, faulted⟩
          | ok others =>
              obtain ⟨direct, planned⟩ := outputs others rfl
              refine ⟨known, ?_, nofun⟩
              intro all rendered
              cases rendered
              rw [List.map_cons, List.map_cons, direct, answered]
              exact ⟨rfl, fun _ => planned (Or.inl held)⟩

def placed {α : Type} (order : List (Node σ × Nat)) (outputs : List α) : List α :=
  (((order.map Prod.snd).zip outputs).mergeSort fun first second => first.1 ≤ second.1).map Prod.snd

theorem placed_map {α β : Type} (order : List (Node σ × Nat)) (outputs : List α) (f : α → β) :
    (placed order outputs).map f = placed order (outputs.map f) := by
  have sorted := List.map_mergeSort (l := (order.map Prod.snd).zip outputs) (f := Prod.map id f)
    (r := fun first second => first.1 ≤ second.1) (s := fun first second => first.1 ≤ second.1) fun _ _ _ _ => rfl
  rw [placed, placed, List.zip_map_right, ← sorted, List.map_map, List.map_map]
  rfl

theorem sorted_by_index {α : Type} (entries indexed : List (Nat × α)) (shuffled : entries.Perm indexed)
    (ascending : (indexed.map Prod.fst).Pairwise (· < ·)) :
    (entries.mergeSort fun first second => first.1 ≤ second.1) = indexed := by
  have apart : (indexed.map Prod.fst).Nodup := ascending.imp Nat.ne_of_lt
  have sorted : (entries.mergeSort fun first second => first.1 ≤ second.1).Pairwise fun first second =>
      decide (first.1 ≤ second.1) = true := by
    apply List.pairwise_mergeSort
    · intro first second third
      simpa only [decide_eq_true_eq] using Nat.le_trans
    · intro first second
      simpa only [Bool.or_eq_true, decide_eq_true_eq] using Nat.le_total first.1 second.1
  have same : (entries.mergeSort fun first second => first.1 ≤ second.1).Perm indexed :=
    (List.mergeSort_perm entries _).trans shuffled
  refine same.eq_of_pairwise ?_ sorted ?_
  · intro first second left right before after
    simp only [decide_eq_true_eq] at before after
    exact List.inj_on_of_nodup_map apart (same.mem_iff.mp left) right (Nat.le_antisymm before after)
  · refine (List.pairwise_map.mp ascending).imp fun less => ?_
    exact decide_eq_true (Nat.le_of_lt less)

theorem placed_shuffled {α : Type} (roots : List (Node σ)) (order : List (Node σ × Nat))
    (shuffled : order.Perm roots.zipIdx) (f : Node σ → α) :
    placed order (order.map fun entry => f entry.1) = roots.map f := by
  have ascending : ((roots.zipIdx.map fun entry => (entry.2, f entry.1)).map Prod.fst).Pairwise (· < ·) := by
    rw [List.map_map]
    exact (List.zipIdx_map_snd 0 roots).symm ▸ List.pairwise_lt_range' 1
  have outputs : (roots.zipIdx.map fun entry => (entry.2, f entry.1)).map Prod.snd =
      (roots.zipIdx.map Prod.fst).map f := by
    rw [List.map_map, List.map_map]
    rfl
  rw [placed, List.zip_map', sorted_by_index _ _ (shuffled.map _) ascending, outputs, List.zipIdx_map_fst]

theorem validateAll_ok_iff (compiler : Compiler) (candidates : List (Node σ)) :
    validateAll compiler candidates = .ok () ↔ ∀ verdict ∈ validateEach compiler candidates, verdict = .ok () := by
  induction candidates with
  | nil => exact iff_of_true rfl nofun
  | cons candidate later ih =>
      rw [validateAll, validateEach, List.map_cons, List.forall_mem_cons]
      cases verdict : compiler.validate candidate with
      | ok _ => simpa [validateEach] using ih
      | error error => simp

theorem validateAll_error (compiler : Compiler) (candidates : List (Node σ)) (error : Error)
    (refused : validateAll compiler candidates = .error error) : .error error ∈ validateEach compiler candidates := by
  induction candidates with
  | nil => cases refused
  | cons candidate later ih =>
      rw [validateAll] at refused
      rw [validateEach, List.map_cons, List.mem_cons]
      cases verdict : compiler.validate candidate with
      | ok _ =>
          rw [verdict] at refused
          exact Or.inr (ih refused)
      | error other =>
          rw [verdict] at refused
          exact Or.inl refused.symm

-- First the trees that share a skeleton, in whatever order they are rendered, and then any trees at all. A fault leaves
-- no outputs, and is one that a direct rendering has too.
theorem batches_ignore_order :
    (∀ (roots : List (Node σ)) (compiler : Compiler) (order : List (Node σ × Nat)) (pool : Pool) (world : σ),
        (∀ first ∈ roots, ∀ second ∈ roots, SameSkeleton first second) → (∀ root ∈ roots, root.Stateless) →
        compiler.Fits roots → order.Perm roots.zipIdx →
        let reply := renderEach compiler pool (order.map Prod.fst) world
        (∀ plan, reply.self.plan = some plan → ∀ root ∈ roots, ∀ other, (Plan.build root other).plan = .ok plan) ∧
          match reply.result with
          | .ok outputs =>
              (placed order outputs).map Except.ok = roots.map (fun root => (root.render world).result) ∧
                (roots ≠ [] → reply.self.isCompiled = true)
          | .error message => ∃ root ∈ roots, (root.render world).result = .error message) ∧
      ∀ (compiler : Compiler) (candidates order : List (Node σ)), order.Perm candidates →
        (validateAll compiler order = .ok () ↔ ∀ verdict ∈ validateEach compiler candidates, verdict = .ok ()) ∧
          ∀ error, validateAll compiler order = .error error → .error error ∈ validateEach compiler candidates := by
  refine ⟨?rendered, ?validated⟩
  case rendered =>
    intro roots compiler order pool world alike stateless fits shuffled
    obtain ⟨plan, known, plays⟩ := compiler.fits_plays roots alike fits world
    have came : (order.map Prod.fst).Perm roots := List.zipIdx_map_fst 0 roots ▸ shuffled.map Prod.fst
    obtain ⟨left, outputs, fault⟩ := renderEach_rendered compiler pool plan known (order.map Prod.fst)
      (fun root member => plays root (came.mem_iff.mp member))
      (fun root member => (stateless root (came.mem_iff.mp member)).render_keeps root) world
    generalize renderEach compiler pool (order.map Prod.fst) world = reply at left outputs fault
    obtain ⟨self, spare, after, events, result⟩ := reply
    refine ⟨?plan, ?result⟩
    case plan =>
      intro other held root member spot
      rcases left with absent | found
      · exact absurd (held.symm.trans absent) (Option.some_ne_none other)
      · rw [Option.some.inj (held.symm.trans found)]
        exact ((plays root member).built spot).1
    case result =>
      cases result with
      | error message =>
          obtain ⟨root, member, faulted⟩ := fault message rfl
          exact ⟨root, came.mem_iff.mp member, faulted⟩
      | ok all =>
          obtain ⟨direct, planned⟩ := outputs all rfl
          refine ⟨?_, fun given => ?_⟩
          · rw [placed_map, direct, List.map_map]
            exact placed_shuffled roots order shuffled fun root => (root.render world).result
          · have held := planned (Or.inr fun empty => given (List.Perm.nil_eq (empty ▸ came)).symm)
            exact Option.isSome_iff_exists.mpr ⟨plan, held⟩
  case validated =>
    intro compiler candidates order shuffled
    have same : (validateEach compiler order).Perm (validateEach compiler candidates) := shuffled.map _
    refine ⟨?_, fun error refused => same.mem_iff.mp (validateAll_error compiler order error refused)⟩
    rw [validateAll_ok_iff]
    exact forall_congr' fun verdict => imp_congr same.mem_iff Iff.rfl

def row (number : Nat) : Node Nat :=
  .element "p" [] false [.text (.raw "#"), .func (fun start => .text (.live (toString (start + number)))) id]

def ruled : Compiler := { Compiler.ofConfig .standard with plan := some ⟨[.static [60, 112, 62, 35], .dynamic [1]]⟩ }

def stub : Node Nat := .fragment [.text (.raw "#")]

theorem rows_come_backwards :
    ∃ outputs, (renderEach (.ofConfig .standard) .empty [row 2, row 1] 5).result = .ok outputs ∧
      (placed [(row 2, 1), (row 1, 0)] outputs).map Except.ok = [((row 1).render 5).result, ((row 2).render 5).result] ∧
      validateAll ruled [row 2, row 1] = .ok () ∧
      ∃ error, validateAll ruled [stub, row 1] = .error error ∧ .error error ∈ validateEach ruled [row 1, stub] := by
  have same : ∀ first second, SameSkeleton (row first) (row second) := fun first second =>
    .element _ _ _ _ (.cons (.text _ rfl) (.cons (.dynamic _ _ rfl rfl) .nil))
  have stateless : ∀ number, (row number).Stateless := fun number =>
    .element _ _ _ _ (List.forall_mem_cons.mpr ⟨.text _, List.forall_mem_singleton.mpr (.func _ fun _ => .text _)⟩)
  obtain ⟨rendered, validated⟩ := @batches_ignore_order Nat
  have shuffled : [(row 2, 1), (row 1, 0)].Perm [row 1, row 2].zipIdx := .swap _ _ []
  have outcome := (rendered [row 1, row 2] (.ofConfig .standard) [(row 2, 1), (row 1, 0)] .empty 5
    (by simp [same]) (by simp [stateless]) (fun _ held => nomatch held) shuffled).2
  have valid := (validated ruled [row 1, row 2] [row 2, row 1] (.swap _ _ [])).1.mpr
    (List.forall_mem_cons.mpr ⟨rfl, List.forall_mem_singleton.mpr rfl⟩)
  have refused : validateAll ruled [stub, row 1] = .error (.structureMismatch [1] ⟨0, 1, 1⟩) := by rfl
  have reported := (validated ruled [row 1, stub] [stub, row 1] (.swap _ _ [])).2 _ refused
  have calm : ∀ number message, ((row number).render 5).result ≠ .error message := fun _ _ => nofun
  simp only [List.map_cons, List.map_nil] at outcome
  cases answered : (renderEach (.ofConfig .standard) .empty [row 2, row 1] 5).result with
  | error message =>
      rw [answered] at outcome
      obtain ⟨root, member, faulted⟩ := outcome
      simp only [List.mem_cons, List.not_mem_nil, or_false] at member
      rcases member with rfl | rfl
      · exact absurd faulted (calm 1 message)
      · exact absurd faulted (calm 2 message)
  | ok outputs =>
      rw [answered] at outcome
      exact ⟨outputs, rfl, outcome.1, valid, _, refused, reported⟩

end Batch

end Stencil
