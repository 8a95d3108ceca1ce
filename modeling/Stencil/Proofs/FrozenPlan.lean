import Stencil.Proofs.CompilerTurn

set_option autoImplicit false

namespace Stencil.Compiler

variable {σ : Type}

def Turn.Completes (turn : Turn σ) (plan : Plan) : Prop :=
  ∃ root, turn.step.root? = some root ∧ (Plan.build root turn.world).plan = .ok plan ∧
    (plan.execute root (Plan.build root turn.world).world).fault = none

def Turn.candidate (turn : Turn σ) : Option Plan :=
  turn.step.root?.bind fun root => (rehearse none root turn.world).kept

theorem candidate_iff (turn : Turn σ) (plan : Plan) : turn.candidate = some plan ↔ turn.Completes plan := by
  simp only [Turn.candidate, Turn.Completes, Option.bind_eq_some_iff, rehearse_kept_iff]

theorem candidate_none (turn : Turn σ) (never : ∀ plan, ¬ turn.Completes plan) : turn.candidate = none := by
  apply Option.eq_none_iff_forall_ne_some.mpr
  intro plan made
  exact never plan ((candidate_iff turn plan).mp made)

theorem reply_plan (compiler : Compiler) (turn : Turn σ) :
    (compiler.reply turn).self.plan = compiler.plan.or turn.candidate := by
  cases asked : turn.step.root? with
  | none => rw [reply_keeps compiler turn asked, Turn.candidate, asked, Option.bind_none, Option.or_none]
  | some root =>
      obtain ⟨_, _, kept, _⟩ := reply_renders compiler turn root asked
      rw [kept, rehearse_kept, Turn.candidate, asked, Option.bind_some]

-- The state of a run that matters here, in closed form: a plan once there wins over all that later turns make.
theorem run_plan (compiler : Compiler) (turns : List (Turn σ)) :
    (run compiler turns).plan = compiler.plan.or (turns.findSome? Turn.candidate) := by
  induction turns generalizing compiler with
  | nil => exact (Option.or_none).symm
  | cons turn later ih =>
      have stepped : run compiler (turn :: later) = run (compiler.reply turn).self later := rfl
      rw [stepped, ih, reply_plan, Option.or_assoc, List.findSome?_cons]
      cases turn.candidate with
      | none => rw [Option.none_or]
      | some plan => rw [Option.some_or]

-- What a compiler does with a tree that it is asked to render. A rehearsal that fails ends the request; otherwise
-- the plan is there from now on, whether or not the rendering that follows comes through.
structure Serves (compiler : Compiler) (turn : Turn σ) (root : Node σ) : Prop where
  afresh : compiler.plan = none →
    ∃ later, (compiler.reply turn).events = (Plan.build root turn.world).events ++ later
  failed : ∀ message, (rehearse compiler.plan root turn.world).result = .error message →
    (compiler.reply turn).result = .error message ∧
      (compiler.reply turn).world = (rehearse compiler.plan root turn.world).world ∧
      (compiler.reply turn).self.plan = none
  played : ∀ plan, (rehearse compiler.plan root turn.world).result = .ok plan →
    let live := rendition root plan.pieces (rehearse compiler.plan root turn.world).world
    (compiler.reply turn).result = live.result.map turn.step.deliver ∧ (compiler.reply turn).world = live.world ∧
      (compiler.reply turn).self.plan = some plan

theorem reply_serves (compiler : Compiler) (turn : Turn σ) (root : Node σ) (asked : turn.step.root? = some root) :
    compiler.Serves turn root := by
  obtain ⟨result, left, kept, later, events⟩ := reply_renders compiler turn root asked
  refine ⟨?afresh, ?failed, ?played⟩
  case afresh =>
    intro absent
    obtain ⟨trial, built⟩ := compile_events compiler turn.pool root turn.world
    refine ⟨trial ++ later, ?_⟩
    rw [events, ← List.append_assoc, ← built]
    simp only [planFor, absent]
  case failed =>
    intro message fault
    simp only [Rehearsal.perform, fault] at result left
    rw [Rehearsal.kept, fault] at kept
    exact ⟨result, left, kept⟩
  case played =>
    intro plan found
    simp only [Rehearsal.perform, found] at result left
    rw [Rehearsal.kept, found] at kept
    exact ⟨result, left, kept⟩

-- `turns` may be any beginning of a longer run, so this speaks of the plan after each turn and of every request.
theorem run_freezes_first_plan (config : CompilerConfig) (turns : List (Turn σ)) :
    let compiler := run (.ofConfig config) turns
    ((∀ turn ∈ turns, ∀ plan, ¬ turn.Completes plan) → compiler.plan = none) ∧
      (∀ before turn later plan, turns = before ++ turn :: later →
        (∀ earlier ∈ before, ∀ other, ¬ earlier.Completes other) → turn.Completes plan → compiler.plan = some plan) ∧
      ∀ (turn : Turn σ) root, turn.step.root? = some root → compiler.Serves turn root := by
  have first : (run (.ofConfig config) turns).plan = turns.findSome? Turn.candidate := run_plan (.ofConfig config) turns
  refine ⟨?absent, ?frozen, fun turn root asked => reply_serves _ turn root asked⟩
  case absent =>
    intro never
    rw [first]
    apply List.findSome?_eq_none_iff.mpr
    intro turn member
    exact candidate_none turn (never turn member)
  case frozen =>
    intro before turn later plan split never completes
    have early : before.findSome? Turn.candidate = none := by
      apply List.findSome?_eq_none_iff.mpr
      intro earlier member
      exact candidate_none earlier (never earlier member)
    rw [first, split, List.findSome?_append, early, Option.none_or, List.findSome?_cons,
      (candidate_iff turn plan).mpr completes]

def faulty : Turn Nat := ⟨.render (.custom true none (.fail "closed") []), .empty, 0⟩

def framed : Turn Nat :=
  ⟨.render (.fragment [.custom false none (.write [1]) [], .custom true none (.write [7]) []]), .empty, 0⟩

def leafless : Turn Nat := ⟨.renderTo (.text (.live "x")) ⟨some 4, none, false, 2⟩, .empty, 0⟩

theorem framed_plan_stays :
    let compiler := run (.ofConfig .standard) [faulty, framed, ⟨.configure .standard, .empty, 0⟩]
    (run (.ofConfig .standard) [faulty]).plan = none ∧ compiler.plan = some ⟨[.static [1], .dynamic [1]]⟩ ∧
      (compiler.reply leafless).result = .ok (.written ⟨[1], none⟩) := by
  have never : ∀ other, ¬ faulty.Completes other := by
    intro other ⟨root, asked, built, unharmed⟩
    cases asked
    cases built
    cases unharmed
  obtain ⟨absent, _⟩ := run_freezes_first_plan .standard [faulty]
  obtain ⟨_, frozen, serves⟩ := run_freezes_first_plan .standard [faulty, framed, ⟨.configure .standard, .empty, 0⟩]
  have kept := frozen [faulty] framed [⟨.configure .standard, .empty, 0⟩] ⟨[.static [1], .dynamic [1]]⟩ rfl
    (List.forall_mem_singleton.mpr never) ⟨_, rfl, rfl, rfl⟩
  have played := (serves leafless _ rfl).played ⟨[.static [1], .dynamic [1]]⟩ (by rw [kept]; rfl)
  rw [kept] at played
  have written : Destination.writeAll ⟨some 4, none, false, 2⟩ [1] = ⟨[1], none⟩ := by cbv
  exact ⟨absent (List.forall_mem_singleton.mpr never), kept,
    played.1.trans (congrArg (fun written => Except.ok (Answer.written written)) written)⟩

end Stencil.Compiler
