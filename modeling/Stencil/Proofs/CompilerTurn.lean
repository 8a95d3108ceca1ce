import Stencil.Compiler
import Stencil.Proofs.Rendition

set_option autoImplicit false

namespace Stencil.Compiler

variable {σ : Type}

-- Between two requests anything may happen to the pool and to the world, so a turn names those that its
-- request finds. A run in which nothing else happens is one whose turns find what the turns before them left.
structure Turn (σ : Type) where
  step : Step σ
  pool : Pool
  world : σ

def reply (compiler : Compiler) (turn : Turn σ) : Reply Compiler σ Answer :=
  compiler.step turn.pool turn.world turn.step

def run (compiler : Compiler) (turns : List (Turn σ)) : Compiler :=
  turns.foldl (fun compiler turn => (compiler.reply turn).self) compiler

def Step.root? : Step σ → Option (Node σ)
  | .render root | .renderTo root _ => some root
  | .validate _ | .configure _ | .config | .plan | .sizer _ => none

def Step.deliver (step : Step σ) (bytes : Bytes) : Answer :=
  match step with
  | .renderTo _ destination => .written (destination.writeAll bytes)
  | .render _ | .validate _ | .configure _ | .config | .plan | .sizer _ => .rendered bytes

structure Rehearsal (σ : Type) where
  result : Except String Plan
  world : σ

def Rehearsal.kept (rehearsal : Rehearsal σ) : Option Plan := rehearsal.result.toOption

def rehearse (held : Option Plan) (root : Node σ) (world : σ) : Rehearsal σ :=
  match held with
  | some plan => ⟨.ok plan, world⟩
  | none =>
      let built := Plan.build root world
      match built.plan with
      | .error message => ⟨.error message, built.world⟩
      | .ok plan =>
          let seed := plan.execute root built.world
          match seed.fault with
          | some message => ⟨.error message, seed.world⟩
          | none => ⟨.ok plan, seed.world⟩

theorem rehearse_kept (held : Option Plan) (root : Node σ) (world : σ) :
    (rehearse held root world).kept = held.or (rehearse none root world).kept := by
  cases held with
  | some plan => rfl
  | none => rw [Option.none_or]

theorem rehearse_kept_iff (root : Node σ) (world : σ) (plan : Plan) :
    (rehearse none root world).kept = some plan ↔
      (Plan.build root world).plan = .ok plan ∧
        (plan.execute root (Plan.build root world).world).fault = none := by
  simp only [rehearse, Rehearsal.kept]
  cases built : (Plan.build root world).plan with
  | error message => simp [Except.toOption]
  | ok other =>
      simp only [Except.ok.injEq]
      cases faulted : (other.execute root (Plan.build root world).world).fault with
      | some message =>
          simp only [Except.toOption, reduceCtorEq, false_iff, not_and]
          intro same
          rw [← same, faulted]
          exact Option.some_ne_none message
      | none =>
          simp only [Except.toOption, Option.some.injEq]
          constructor
          · intro same
            rw [← same]
            exact ⟨rfl, faulted⟩
          · intro both
            exact both.1

theorem compile_content (compiler : Compiler) (pool : Pool) (root : Node σ) (world : σ)
    (absent : compiler.plan = none) :
    (compiler.compile pool root world).result = (rehearse none root world).result ∧
      (compiler.compile pool root world).world = (rehearse none root world).world ∧
      (compiler.compile pool root world).self.plan = (rehearse none root world).kept := by
  simp only [compile, rehearse, Rehearsal.kept]
  cases (Plan.build root world).plan with
  | error message => exact ⟨rfl, rfl, absent⟩
  | ok plan =>
      simp only
      cases (plan.execute root (Plan.build root world).world).fault with
      | some message => exact ⟨rfl, rfl, absent⟩
      | none => exact ⟨rfl, rfl, rfl⟩

theorem planFor_content (compiler : Compiler) (pool : Pool) (root : Node σ) (world : σ) :
    (compiler.planFor pool root world).result = (rehearse compiler.plan root world).result ∧
      (compiler.planFor pool root world).world = (rehearse compiler.plan root world).world ∧
      (compiler.planFor pool root world).self.plan = (rehearse compiler.plan root world).kept := by
  cases held : compiler.plan with
  | some plan =>
      simp only [planFor, held]
      exact ⟨rfl, rfl, rfl⟩
  | none =>
      simp only [planFor, held]
      exact compile_content compiler pool root world held

theorem compile_events (compiler : Compiler) (pool : Pool) (root : Node σ) (world : σ) :
    ∃ later, (compiler.compile pool root world).events = (Plan.build root world).events ++ later := by
  simp only [compile]
  cases (Plan.build root world).plan with
  | error message => exact ⟨[], (List.append_nil _).symm⟩
  | ok plan =>
      simp only
      cases (plan.execute root (Plan.build root world).world).fault with
      | some message => exact ⟨_, rfl⟩
      | none => exact ⟨_, List.append_assoc _ _ _⟩

def Rehearsal.perform (rehearsal : Rehearsal σ) (root : Node σ) : Outcome σ :=
  match rehearsal.result with
  | .error message => ⟨[], rehearsal.world, some message⟩
  | .ok plan => rendition root plan.pieces rehearsal.world

theorem render_content (compiler : Compiler) (pool : Pool) (root : Node σ) (world : σ) :
    (compiler.render pool root world).result = ((rehearse compiler.plan root world).perform root).result ∧
      (compiler.render pool root world).world = ((rehearse compiler.plan root world).perform root).world ∧
      (compiler.render pool root world).self.plan = (rehearse compiler.plan root world).kept := by
  obtain ⟨result, left, kept⟩ := planFor_content compiler pool root world
  simp only [render, Rehearsal.perform, ← result, ← left, ← kept]
  cases (compiler.planFor pool root world).result with
  | error message => exact ⟨rfl, rfl, rfl⟩
  | ok plan =>
      simp only [← execute_outcome, Outcome.result, Execution.outcome]
      cases (plan.execute root (compiler.planFor pool root world).world).fault with
      | some message => exact ⟨rfl, rfl, rfl⟩
      | none => exact ⟨rfl, rfl, rfl⟩

theorem renderTo_as_render (compiler : Compiler) (pool : Pool) (root : Node σ) (destination : Destination) (world : σ) :
    (compiler.renderTo pool root destination world).result =
        (compiler.render pool root world).result.map destination.writeAll ∧
      (compiler.renderTo pool root destination world).world = (compiler.render pool root world).world ∧
      (compiler.renderTo pool root destination world).self = (compiler.render pool root world).self ∧
      (compiler.renderTo pool root destination world).events = (compiler.render pool root world).events := by
  have last := compiler.renderInto_writes_last pool root Destination.writer destination.opened world
  exact ⟨Sent.written_result last, last.world, last.self, last.events⟩

theorem render_events (compiler : Compiler) (pool : Pool) (root : Node σ) (world : σ) :
    ∃ later, (compiler.render pool root world).events = (compiler.planFor pool root world).events ++ later := by
  simp only [render]
  cases (compiler.planFor pool root world).result with
  | error message => exact ⟨[], (List.append_nil _).symm⟩
  | ok plan =>
      simp only
      cases (plan.execute root (compiler.planFor pool root world).world).fault with
      | some message => exact ⟨_, rfl⟩
      | none => exact ⟨_, List.append_assoc _ _ _⟩

theorem reply_renders (compiler : Compiler) (turn : Turn σ) (root : Node σ) (asked : turn.step.root? = some root) :
    let rehearsal := rehearse compiler.plan root turn.world
    (compiler.reply turn).result = (rehearsal.perform root).result.map turn.step.deliver ∧
      (compiler.reply turn).world = (rehearsal.perform root).world ∧
      (compiler.reply turn).self.plan = rehearsal.kept ∧
      ∃ later, (compiler.reply turn).events = (compiler.planFor turn.pool root turn.world).events ++ later := by
  obtain ⟨step, pool, world⟩ := turn
  cases step with
  | render tree =>
      cases asked
      obtain ⟨result, left, kept⟩ := render_content compiler pool root world
      refine ⟨?result, left, kept, render_events compiler pool root world⟩
      case result =>
        simp only [reply, step, Reply.map, result]
        rfl
  | renderTo tree destination =>
      cases asked
      obtain ⟨result, left, kept⟩ := render_content compiler pool root world
      obtain ⟨sameResult, sameWorld, sameSelf, sameEvents⟩ := renderTo_as_render compiler pool root destination world
      obtain ⟨later, split⟩ := render_events compiler pool root world
      refine ⟨?result, sameWorld.trans left, ?kept, later, sameEvents.trans split⟩
      case result =>
        simp only [reply, step, Reply.map, sameResult, result]
        cases ((rehearse compiler.plan root world).perform root).result with
        | error message => rfl
        | ok bytes => rfl
      case kept =>
        simp only [reply, step, Reply.map, sameSelf]
        exact kept
  | validate tree => cases asked
  | configure config => cases asked
  | config => cases asked
  | plan => cases asked
  | sizer request => cases asked

theorem reply_keeps (compiler : Compiler) (turn : Turn σ) (idle : turn.step.root? = none) :
    (compiler.reply turn).self.plan = compiler.plan := by
  obtain ⟨step, pool, world⟩ := turn
  cases step with
  | render tree => cases idle
  | renderTo tree destination => cases idle
  | validate tree => rfl
  | configure config => rfl
  | config => rfl
  | plan => rfl
  | sizer request => rfl

end Stencil.Compiler
