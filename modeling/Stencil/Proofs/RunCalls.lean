import Mathlib.Data.List.Nodup
import Stencil.Proofs.CallRecord

set_option autoImplicit false

namespace Stencil.Compiler

variable {σ : Type}

def Step.recorded (name : Nat) : Step σ → Step (Recorded σ)
  | .render root => .render (root.recorded name [])
  | .renderTo root destination => .renderTo (root.recorded name []) destination
  | .validate root => .validate (root.recorded name [])
  | .configure settings => .configure settings
  | .config => .config
  | .plan => .plan
  | .sizer step => .sizer step

def Turn.recorded (name : Nat) (calls : List (Nat × Call)) (turn : Turn σ) : Turn (Recorded σ) :=
  ⟨turn.step.recorded name, turn.pool, ⟨turn.world, calls⟩⟩

def record (name : Nat) (calls : List (Nat × Call)) (compiler : Compiler) : List (Turn σ) → List (Nat × Call)
  | [] => calls
  | turn :: later =>
      let reply := compiler.reply (turn.recorded name calls)
      record (name + 1) reply.world.calls reply.self later

def Unharmed : Compiler → List (Turn σ) → Prop
  | _, [] => True
  | compiler, turn :: later =>
      (∃ answer, (compiler.reply turn).result = .ok answer) ∧ Unharmed (compiler.reply turn).self later

def Turn.replay (plan : Plan) (entry : Turn σ × Nat) : List (Nat × Call) :=
  match entry.1.step.root? with
  | some root => tagged entry.2 [] (root.played plan.paths)
  | none => []

def rehearsed (held : Option Plan) (root : Node σ) (plan : Plan) : List Call :=
  match held with
  | some _ => []
  | none => root.calls ++ root.played plan.paths

theorem recorded_root (name : Nat) (calls : List (Nat × Call)) (turn : Turn σ) :
    (turn.recorded name calls).step.root? = turn.step.root?.map (Node.recorded name []) := by
  obtain ⟨step, pool, world⟩ := turn
  cases step <;> rfl

structure Rehearsal.Notes (recorded : Rehearsal (Recorded σ)) (plain : Rehearsal σ)
    (calls : Plan → List (Nat × Call)) : Prop where
  result : recorded.result = plain.result
  world : recorded.world.world = plain.world
  calls : ∀ plan, plain.result = .ok plan → recorded.world.calls = calls plan

theorem notes_rehearse (name : Nat) (held : Option Plan) (root : Node σ) (before : Recorded σ) :
    Rehearsal.Notes (rehearse held (root.recorded name []) before) (rehearse held root before.world)
      fun plan => before.calls ++ tagged name [] (rehearsed held root plan) := by
  cases held with
  | some plan => exact ⟨rfl, rfl, fun _ _ => (List.append_nil before.calls).symm⟩
  | none =>
      obtain ⟨plans, worlds, calls⟩ := notes_build name root before
      simp only [rehearse, plans]
      cases built : (Plan.build root before.world).plan with
      | error message => exact ⟨rfl, worlds, fun _ found => by cases found⟩
      | ok plan =>
          have trial := notes_rendition name root plan.pieces (Plan.build (root.recorded name []) before).world
          rw [worlds, calls plan built, ← execute_outcome, ← execute_outcome] at trial
          have fault : (plan.execute (root.recorded name []) (Plan.build (root.recorded name []) before).world).fault =
            (plan.execute root (Plan.build root before.world).world).fault := trial.fault
          simp only [fault]
          cases calm : (plan.execute root (Plan.build root before.world).world).fault with
          | some message => exact ⟨rfl, trial.world, fun _ found => by cases found⟩
          | none =>
              refine ⟨rfl, trial.world, ?_⟩
              intro same found
              cases found
              rw [rehearsed, tagged_append, ← List.append_assoc]
              exact trial.calls calm

theorem reply_recorded (name : Nat) (calls : List (Nat × Call)) (compiler recorder : Compiler) (turn : Turn σ)
    (root : Node σ) (asked : turn.step.root? = some root) (same : recorder.plan = compiler.plan) (answer : Answer)
    (unharmed : (compiler.reply turn).result = .ok answer) :
    let reply := recorder.reply (turn.recorded name calls)
    ∃ plan, (rehearse compiler.plan root turn.world).kept = some plan ∧
      (compiler.reply turn).self.plan = some plan ∧ reply.self.plan = some plan ∧
      reply.world.calls = calls ++ tagged name [] (rehearsed compiler.plan root plan ++ root.played plan.paths) := by
  have recordedAsked : (turn.recorded name calls).step.root? = some (root.recorded name []) := by
    rw [recorded_root, asked]
    rfl
  obtain ⟨result, _, kept, _⟩ := reply_renders compiler turn root asked
  obtain ⟨_, left, recordedKept, _⟩ := reply_renders recorder (turn.recorded name calls) _ recordedAsked
  have notes := notes_rehearse name compiler.plan root ⟨turn.world, calls⟩
  rw [same] at left recordedKept
  rw [result] at unharmed
  cases found : (rehearse compiler.plan root turn.world).result with
  | error message => simp [Rehearsal.perform, found, Outcome.result, Except.map] at unharmed
  | ok plan =>
      have recordedFound := notes.result.trans found
      have held : (rehearse compiler.plan root turn.world).kept = some plan := by rw [Rehearsal.kept, found]; rfl
      have live := notes_rendition name root plan.pieces
        (rehearse compiler.plan (root.recorded name []) ⟨turn.world, calls⟩).world
      rw [notes.world, notes.calls plan found] at live
      refine ⟨plan, held, kept.trans held, ?kept, ?noted⟩
      case kept =>
        rw [recordedKept, Rehearsal.kept]
        exact congrArg Except.toOption recordedFound
      case noted =>
        simp only [Rehearsal.perform, found, Outcome.result] at unharmed
        have calm : (rendition root plan.pieces (rehearse compiler.plan root turn.world).world).fault = none := by
          cases faulted : (rendition root plan.pieces (rehearse compiler.plan root turn.world).world).fault with
          | some message => simp [faulted, Except.map] at unharmed
          | none => rfl
        change _ = ((rehearse compiler.plan _ (⟨turn.world, calls⟩ : Recorded σ)).perform _).world at left
        simp only [Rehearsal.perform, recordedFound] at left
        rw [left, live.calls calm, tagged_append, List.append_assoc, Plan.paths]

theorem reply_recorded_quiet (name : Nat) (calls : List (Nat × Call)) (recorder : Compiler) (turn : Turn σ)
    (quiet : turn.step.root? = none) :
    (recorder.reply (turn.recorded name calls)).self.plan = recorder.plan ∧
      (recorder.reply (turn.recorded name calls)).world.calls = calls := by
  refine ⟨reply_keeps recorder _ (by rw [recorded_root, quiet]; rfl), ?_⟩
  obtain ⟨step, pool, world⟩ := turn
  cases step with
  | render root => cases quiet
  | renderTo root destination => cases quiet
  | validate root => rfl
  | configure settings => rfl
  | config => rfl
  | plan => rfl
  | sizer request => rfl

theorem record_planned (name : Nat) (calls : List (Nat × Call)) (compiler recorder : Compiler) (turns : List (Turn σ))
    (plan : Plan) (held : compiler.plan = some plan) (same : recorder.plan = compiler.plan)
    (unharmed : Unharmed compiler turns) :
    (run compiler turns).plan = some plan ∧
      record name calls recorder turns = calls ++ (turns.zipIdx name).flatMap (Turn.replay plan) := by
  induction turns generalizing name calls compiler recorder with
  | nil => exact ⟨held, (List.append_nil calls).symm⟩
  | cons turn later ih =>
      obtain ⟨⟨answer, answered⟩, onward⟩ := unharmed
      change (run (compiler.reply turn).self later).plan = _ ∧ _
      rw [record, List.zipIdx_cons, List.flatMap_cons, ← List.append_assoc]
      cases asked : turn.step.root? with
      | none =>
          obtain ⟨kept, noted⟩ := reply_recorded_quiet name calls recorder turn asked
          have still := reply_keeps compiler turn asked
          have rest := ih (name + 1) (recorder.reply (turn.recorded name calls)).world.calls _ _ (still.trans held)
            (kept.trans (same.trans still.symm)) onward
          rw [noted] at rest ⊢
          simpa only [Turn.replay, asked, List.append_nil] using rest
      | some root =>
          obtain ⟨other, found, kept, keptToo, noted⟩ := reply_recorded name calls compiler recorder turn root asked same
            answer answered
          rw [held] at found noted
          cases found
          have rest := ih (name + 1) (recorder.reply (turn.recorded name calls)).world.calls _ _ kept
            (keptToo.trans kept.symm) onward
          rw [noted] at rest ⊢
          simpa only [Turn.replay, asked, rehearsed, List.nil_append] using rest

theorem run_append (compiler : Compiler) (before later : List (Turn σ)) :
    run compiler (before ++ later) = run (run compiler before) later := List.foldl_append

theorem record_quiet (name : Nat) (calls : List (Nat × Call)) (compiler recorder : Compiler)
    (before later : List (Turn σ)) (same : recorder.plan = compiler.plan) (quiet : ∀ turn ∈ before, turn.step.root? = none)
    (unharmed : Unharmed compiler (before ++ later)) :
    Unharmed (run compiler before) later ∧ (run compiler before).plan = compiler.plan ∧
      ∃ next, next.plan = compiler.plan ∧
        record name calls recorder (before ++ later) = record (name + before.length) calls next later := by
  induction before generalizing name compiler recorder with
  | nil => exact ⟨unharmed, rfl, recorder, same, rfl⟩
  | cons turn before ih =>
      have asked := quiet turn List.mem_cons_self
      have still := reply_keeps compiler turn asked
      obtain ⟨kept, noted⟩ := reply_recorded_quiet name calls recorder turn asked
      obtain ⟨onward, keeps, next, nextPlan, rest⟩ := ih (name + 1) (compiler.reply turn).self
        (recorder.reply (turn.recorded name calls)).self (kept.trans (same.trans still.symm))
        (fun other member => quiet other (List.mem_cons_of_mem turn member)) unharmed.2
      refine ⟨onward, keeps.trans still, next, nextPlan.trans still, ?_⟩
      rw [List.cons_append, record, noted, rest, List.length_cons, Nat.add_assoc, Nat.add_comm 1]

-- Playing the plan never comes to a node that was asked when it was built, not even in another tree.
theorem asked_not_replayed (root other : Node σ) (call : Call) (asked : root.Asked call) :
    call ∉ other.played root.livePaths := by
  intro member
  obtain ⟨path, kept, rfl⟩ := List.mem_map.mp member
  obtain ⟨⟨node, found, dynamic⟩, _⟩ := (Node.mem_livePaths root path).mp (List.mem_of_mem_filter kept)
  have still := Node.asked_spares_dynamic root (.render path) asked path node List.prefix_rfl found
  exact absurd (still.symm.trans dynamic) (by decide)

theorem replays_spare (root : Node σ) (plan : Plan) (paths : plan.paths = root.livePaths) (call : Call)
    (asked : root.Asked call) (turns : List (Turn σ)) (name : Nat) :
    call ∉ ((turns.zipIdx name).flatMap (Turn.replay plan)).map Prod.snd := by
  intro member
  obtain ⟨entry, replayed, same⟩ := List.mem_map.mp member
  obtain ⟨numbered, _, inside⟩ := List.mem_flatMap.mp replayed
  rw [Turn.replay] at inside
  cases rendered : numbered.1.step.root? with
  | none => simp [rendered] at inside
  | some other =>
      simp only [rendered, paths, tagged_root] at inside
      obtain ⟨below, played, rfl⟩ := List.mem_map.mp inside
      cases same
      exact asked_not_replayed root other below asked played

theorem run_calls (config : CompilerConfig) (turns : List (Turn σ)) (unharmed : Unharmed (.ofConfig config) turns) :
    let log := record 0 [] (.ofConfig config) turns
    ((∀ turn ∈ turns, turn.step.root? = none) → log = []) ∧
      ∀ before first later root, turns = before ++ first :: later → (∀ turn ∈ before, turn.step.root? = none) →
        first.step.root? = some root →
        ∃ plan, (Plan.build root first.world).plan = .ok plan ∧ (run (.ofConfig config) turns).plan = some plan ∧
          log = tagged before.length [] (root.calls ++ root.played plan.paths ++ root.played plan.paths) ++
            (later.zipIdx (before.length + 1)).flatMap (Turn.replay plan) ∧
          (∀ call, call ∈ root.calls ↔ root.Asked call) ∧ root.calls.Pairwise Call.Precedes ∧
          ∀ call ∈ root.calls, (log.map Prod.snd).count call = 1 ∧
            ∀ above node, above <+: call.path → root.resolve above = .ok node → node.isDynamic = false := by
  refine ⟨?quiet, ?first⟩
  case quiet =>
    intro quiet
    rw [← List.append_nil turns] at unharmed
    obtain ⟨_, _, _, _, same⟩ := record_quiet 0 [] (.ofConfig config) (.ofConfig config) turns [] rfl quiet unharmed
    rw [List.append_nil] at same
    exact same
  case first =>
    rintro before first later root rfl quiet asked
    obtain ⟨⟨⟨answer, answered⟩, onward⟩, keeps, next, fresh, same⟩ :=
      record_quiet 0 [] (.ofConfig config) (.ofConfig config) before (first :: later) rfl quiet unharmed
    obtain ⟨plan, found, kept, keptToo, noted⟩ := reply_recorded (0 + before.length) [] (run (.ofConfig config) before)
      next first root asked (fresh.trans keeps.symm) answer answered
    have absent : (run (.ofConfig config) before).plan = none := keeps
    rw [absent] at found noted
    obtain ⟨built, _⟩ := (rehearse_kept_iff root first.world plan).mp found
    obtain ⟨held, rest⟩ := record_planned (0 + before.length + 1) _ _ _ later plan kept (keptToo.trans kept.symm) onward
    have log := same.trans rest
    rw [noted, Nat.zero_add, List.nil_append, rehearsed] at log
    refine ⟨plan, built, ?held, log, Node.mem_calls root, Node.calls_ordered root, ?once⟩
    case held =>
      rw [run_append]
      exact held
    case once =>
      intro call member
      have called := (Node.mem_calls root call).mp member
      refine ⟨?_, Node.asked_spares_dynamic root call called⟩
      have paths := built_paths root first.world plan built
      have spared := asked_not_replayed root root call called
      have sparedLater := replays_spare root plan paths call called later (before.length + 1)
      rw [← paths] at spared
      rw [log, List.map_append, List.count_append, tagged_calls, List.count_append, List.count_append,
        List.count_eq_one_of_mem (Node.calls_nodup root) member, List.count_eq_zero_of_not_mem spared,
        List.count_eq_zero_of_not_mem sparedLater]

def visits : List (Turn Nat) :=
  [⟨.validate specimen, .empty, 0⟩, ⟨.render specimen, .empty, 0⟩, ⟨.configure .standard, .empty, 0⟩,
    ⟨.renderTo specimen ⟨none, some 0, true, 0⟩, .empty, 0⟩, ⟨.render (.text (.live "x")), .empty, 0⟩]

theorem visits_calls :
    Unharmed (.ofConfig .standard) visits ∧
      record 0 [] (.ofConfig .standard) visits =
        [(1, .openTag []), (1, .render [1]), (1, .render [2]), (1, .closeTag []), (1, .render [0]), (1, .render [0]),
          (3, .render [0])] := by
  have unharmed : Unharmed (.ofConfig .standard) visits :=
    ⟨⟨_, rfl⟩, ⟨_, rfl⟩, ⟨_, rfl⟩, ⟨_, rfl⟩, ⟨_, rfl⟩, trivial⟩
  obtain ⟨_, rendering⟩ := run_calls .standard visits unharmed
  obtain ⟨plan, built, _, log, _⟩ := rendering [⟨.validate specimen, .empty, 0⟩] _ _ specimen rfl
    (List.forall_mem_singleton.mpr rfl) rfl
  cases built.symm.trans (show _ = .ok ⟨[.static [60], .dynamic [0], .static [1, 2, 62]]⟩ from rfl)
  exact ⟨unharmed, log⟩

end Stencil.Compiler
