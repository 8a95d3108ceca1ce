import Stencil.Proofs.Draws
import Stencil.Proofs.FrozenPlan
import Stencil.Proofs.SteadyOutput
import Stencil.Tuner

set_option autoImplicit false

namespace Stencil

variable {σ : Type}

structure Draw.Fills (draw : Draw) (pool : Pool) (ended : Buffer) : Prop where
  label : ended.label = pool.next.label
  bytes : ended.bytes = pool.next.bytes ++ draw.written
  asked : draw.asked ≤ ended.capacity
  written : ended.bytes.length ≤ ended.capacity
  kept : pool.next.capacity ≤ ended.capacity

-- Each drawn buffer is back before the next one is drawn, emptied, on top of the idle ones, unless it has grown too
-- large or enough of them are there.
inductive Returned : Pool → List Draw → Pool → Prop where
  | nothing (pool : Pool) : Returned pool [] pool
  | back (pool between after : Pool) (draw : Draw) (later : List Draw) (ended : Buffer) : draw.Fills pool ended →
      between.idle = (if ended.capacity ≤ 262144 ∧ pool.idle.tail.length < 64 then ended.clear :: pool.idle.tail
        else pool.idle.tail) →
      Returned between later after → Returned pool (draw :: later) after

namespace Loans

theorem runs_draw_fills (draw : Draw) (pool : Pool) (peak : Nat) (after : Loans)
    (ran : Runs ⟨pool, []⟩ draw.steps peak after) :
    ∃ ended, draw.Fills pool ended ∧ after = ⟨pool.rest.give ended, []⟩ := by
  simp only [Draw.steps, Draw.opening, List.cons_append, List.nil_append, runs_cons, runs_nil] at ran
  obtain ⟨_, _, ⟨_, _, taken, fresh⟩, ⟨_, _, written, ⟨_, _, ⟨_⟩, ⟨rfl, rfl⟩, rfl⟩, rfl⟩, rfl⟩ := ran
  cases written with
  | write _ _ room wider =>
      obtain ⟨label, bytes, enough, kept⟩ := wider taken
      refine ⟨(room taken).append draw.written, ⟨?label, ?bytes, ?asked, ?written, ?kept⟩, ?after⟩
      case label => exact label.trans fresh.label
      case bytes => rw [Buffer.append, bytes, fresh.bytes]
      case asked => exact Nat.le_trans (Nat.le_trans (Nat.le_add_left _ _) fresh.enough) kept
      case written =>
        rw [Buffer.append, List.length_append, bytes]
        exact enough
      case kept => exact Nat.le_trans fresh.kept kept
      case after => simp [amend, hand, giveBack, find?, drawing]

theorem runs_draws_returned (draws : List Draw) (pool : Pool) (peak : Nat) (after : Loans)
    (ran : Runs ⟨pool, []⟩ (draws.flatMap Draw.steps) peak after) :
    after.held = [] ∧ Returned pool draws after.pool := by
  induction draws generalizing pool peak with
  | nil =>
      obtain ⟨rfl, _⟩ := (runs_nil _ _ _).mp ran
      exact ⟨rfl, .nothing pool⟩
  | cons draw later ih =>
      obtain ⟨between, before, rest, first, onward, _⟩ := (runs_append _ _ draw.steps _ _).mp ran
      obtain ⟨ended, fills, rfl⟩ := runs_draw_fills draw pool before between first
      obtain ⟨held, returned⟩ := ih _ rest onward
      refine ⟨held, .back pool _ _ draw later ended fills ?_ returned⟩
      rw [Pool.give_eq, Pool.shelved, Pool.rest_idle]

end Loans

namespace Compiler

def seeded (compiler : Compiler) (plan : Plan) (root : Node σ) (world : σ) : Compiler :=
  let seed := plan.execute root (Plan.build root world).world
  { compiler with plan := some plan, sizer := (compiler.sizer.update (Sizer.measure seed.out)).1 }

inductive Readies (compiler : Compiler) (root : Node σ) (world : σ) :
    Compiler → Except String Plan → σ → List Draw → Prop where
  | held (plan : Plan) : compiler.plan = some plan → Readies compiler root world compiler (.ok plan) world []
  | building (message : String) : compiler.plan = none → (Plan.build root world).plan = .error message →
      Readies compiler root world compiler (.error message) (Plan.build root world).world []
  | seeding (plan : Plan) (message : String) : compiler.plan = none → (Plan.build root world).plan = .ok plan →
      (plan.execute root (Plan.build root world).world).fault = some message →
      Readies compiler root world compiler (.error message) (plan.execute root (Plan.build root world).world).world
        [⟨plan.staticLength, (plan.execute root (Plan.build root world).world).out⟩]
  | seeded (plan : Plan) : compiler.plan = none → (Plan.build root world).plan = .ok plan →
      (plan.execute root (Plan.build root world).world).fault = none →
      Readies compiler root world (compiler.seeded plan root world) (.ok plan)
        (plan.execute root (Plan.build root world).world).world
        [⟨plan.staticLength, (plan.execute root (Plan.build root world).world).out⟩]

theorem planFor_readies (compiler : Compiler) (pool : Pool) (root : Node σ) (world : σ) :
    let planned := compiler.planFor pool root world
    compiler.Readies root world planned.self planned.result planned.world (trialDraws compiler.plan root world) := by
  cases held : compiler.plan with
  | some plan =>
      simp only [planFor, held]
      exact .held plan held
  | none =>
      simp only [planFor, held, compile, trialDraws]
      cases built : (Plan.build root world).plan with
      | error message => exact .building message held built
      | ok plan =>
          simp only
          cases faulted : (plan.execute root (Plan.build root world).world).fault with
          | some message => exact .seeding plan message held built faulted
          | none => exact .seeded plan held built faulted

theorem readies_planFor (compiler : Compiler) (pool : Pool) (root : Node σ) (world : σ) (left : Compiler)
    (result : Except String Plan) (after : σ) (draws : List Draw)
    (readies : compiler.Readies root world left result after draws) :
    (compiler.planFor pool root world).self = left ∧ (compiler.planFor pool root world).result = result ∧
      (compiler.planFor pool root world).world = after ∧ trialDraws compiler.plan root world = draws := by
  cases readies with
  | held plan held => simp only [planFor, trialDraws, held, and_self]
  | building message absent failed => simp only [planFor, trialDraws, compile, absent, failed, and_self]
  | seeding plan message absent built failed =>
      simp only [planFor, trialDraws, compile, absent, built, failed, and_self]
  | seeded plan absent built calm =>
      simp only [planFor, trialDraws, compile, absent, built, calm, seeded, and_self]

def Step.liveDraws (step : Step σ) (hint : UInt64) (out : Bytes) : List Draw :=
  match step with
  | .renderTo _ _ => [⟨hint.toNat, out⟩]
  | .render _ | .validate _ | .configure _ | .config | .plan | .sizer _ => []

inductive Strikes (compiler : Compiler) (turn : Turn σ) (root : Node σ) (message : String) (left : Compiler) :
    List Draw → Prop where
  | ahead (world : σ) (draws : List Draw) : compiler.Readies root turn.world left (.error message) world draws →
      Strikes compiler turn root message left draws
  | live (plan : Plan) (world : σ) (draws : List Draw) :
      compiler.Readies root turn.world left (.ok plan) world draws →
      (plan.execute root world).fault = some message →
      Strikes compiler turn root message left
        (draws ++ turn.step.liveDraws left.sizer.baseline (plan.execute root world).out)

theorem render_faults (compiler : Compiler) (pool : Pool) (root : Node σ) (world : σ) (message : String)
    (faulted : (compiler.render pool root world).result = .error message) :
    let planned := compiler.planFor pool root world
    (compiler.render pool root world).self = planned.self ∧
      (planned.result = .error message ∨
        ∃ plan, planned.result = .ok plan ∧ (plan.execute root planned.world).fault = some message) := by
  simp only [render] at faulted ⊢
  cases found : (compiler.planFor pool root world).result with
  | error other =>
      simp only [found, Except.error.injEq] at faulted
      exact ⟨rfl, Or.inl (congrArg _ faulted)⟩
  | ok plan =>
      simp only [found] at faulted ⊢
      cases struck : (plan.execute root (compiler.planFor pool root world).world).fault with
      | none => simp [struck] at faulted
      | some other =>
          simp only [struck, Except.error.injEq] at faulted
          exact ⟨rfl, Or.inr ⟨plan, rfl, struck.trans (congrArg some faulted)⟩⟩

theorem reply_result (compiler : Compiler) (turn : Turn σ) (root : Node σ) (asked : turn.step.root? = some root)
    (message : String) :
    (compiler.reply turn).result = .error message ↔
      (compiler.render turn.pool root turn.world).result = .error message := by
  obtain ⟨result, _⟩ := reply_renders compiler turn root asked
  rw [result, ← (render_content compiler turn.pool root turn.world).1]
  cases (compiler.render turn.pool root turn.world).result with
  | error other => simp only [Except.map, Except.error.injEq]
  | ok bytes => exact iff_of_false nofun nofun

theorem draws_eq (compiler : Compiler) (turn : Turn σ) (root : Node σ) (asked : turn.step.root? = some root) :
    let planned := compiler.planFor turn.pool root turn.world
    compiler.draws turn = trialDraws compiler.plan root turn.world ++
      match planned.result with
      | .error _ => []
      | .ok plan => turn.step.liveDraws planned.self.sizer.baseline (plan.execute root planned.world).out := by
  obtain ⟨step, pool, world⟩ := turn
  cases step with
  | render tree =>
      cases asked
      simp only [draws, Step.liveDraws]
      cases (compiler.planFor pool root world).result <;> exact (List.append_nil _).symm
  | renderTo tree destination =>
      cases asked
      rfl
  | validate tree => cases asked
  | configure config => cases asked
  | config => cases asked
  | plan => cases asked
  | sizer request => cases asked

theorem faulted_strikes (compiler : Compiler) (turn : Turn σ) (root : Node σ) (message : String)
    (asked : turn.step.root? = some root) (faulted : (compiler.reply turn).result = .error message) :
    compiler.Strikes turn root message (compiler.reply turn).self (compiler.draws turn) := by
  obtain ⟨self, struck⟩ := render_faults compiler turn.pool root turn.world message
    ((reply_result compiler turn root asked message).mp faulted)
  have readies := planFor_readies compiler turn.pool root turn.world
  rw [reply_self compiler turn root asked, self, draws_eq compiler turn root asked]
  rcases struck with failed | ⟨plan, found, failed⟩
  · simp only [failed, List.append_nil] at readies ⊢
    exact .ahead _ _ readies
  · simp only [found] at readies ⊢
    exact .live plan _ _ readies failed

theorem strikes_faulted (compiler : Compiler) (turn : Turn σ) (root : Node σ) (message : String)
    (asked : turn.step.root? = some root) (left : Compiler) (draws : List Draw)
    (strikes : compiler.Strikes turn root message left draws) :
    (compiler.reply turn).result = .error message ∧ (compiler.reply turn).self = left ∧
      compiler.draws turn = draws := by
  have drawn := draws_eq compiler turn root asked
  have faulted : (compiler.render turn.pool root turn.world).result = .error message ∧
      (compiler.planFor turn.pool root turn.world).self = left ∧ compiler.draws turn = draws := by
    rcases strikes with ⟨world, _, readies⟩ | ⟨plan, world, _, readies, failed⟩
    · obtain ⟨self, result, _, trial⟩ := readies_planFor compiler turn.pool root _ _ _ _ _ readies
      simp only [result, trial, List.append_nil] at drawn
      refine ⟨?_, self, drawn⟩
      simp only [render, result]
    · obtain ⟨self, result, same, trial⟩ := readies_planFor compiler turn.pool root _ _ _ _ _ readies
      simp only [result, trial, self, same] at drawn
      refine ⟨?_, self, drawn⟩
      simp only [render, result, same, failed]
  obtain ⟨result, self, drawn⟩ := faulted
  obtain ⟨kept, _⟩ := render_faults compiler turn.pool root turn.world message result
  refine ⟨(reply_result compiler turn root asked message).mpr result, ?_, drawn⟩
  rw [reply_self compiler turn root asked, kept, self]

theorem strikes_trialled (compiler : Compiler) (turn : Turn σ) (root : Node σ) (message : String)
    (asked : turn.step.root? = some root) (left : Compiler) (draws : List Draw) (plan : Plan)
    (strikes : compiler.Strikes turn root message left draws) (absent : compiler.plan = none)
    (completes : turn.Completes plan) : left = compiler.seeded plan root turn.world := by
  obtain ⟨tree, same, made, calm⟩ := completes
  cases asked.symm.trans same
  rcases strikes with ⟨_, _, readies⟩ | ⟨_, _, _, readies, _⟩
  · cases readies with
    | building _ _ failed => cases made.symm.trans failed
    | seeding other _ _ built failed =>
        cases made.symm.trans built
        cases calm.symm.trans failed
  · cases readies with
    | held _ held => cases absent.symm.trans held
    | seeded other _ built _ =>
        cases made.symm.trans built
        rfl

theorem strikes_untouched (compiler : Compiler) (turn : Turn σ) (root : Node σ) (message : String)
    (asked : turn.step.root? = some root) (left : Compiler) (draws : List Draw)
    (strikes : compiler.Strikes turn root message left draws)
    (never : compiler.plan ≠ none ∨ ∀ plan, ¬ turn.Completes plan) : left = compiler := by
  rcases strikes with ⟨_, _, readies⟩ | ⟨_, _, _, readies, _⟩
  · cases readies <;> rfl
  · cases readies with
    | held _ _ => rfl
    | seeded _ absent built calm =>
        rcases never with held | never
        · exact absurd absent held
        · exact absurd ⟨root, asked, built, calm⟩ (never _)

structure Unwinds (compiler : Compiler) (turn : Turn σ) (root : Node σ) (message : String) (left : Compiler)
    (draws : List Draw) : Prop where
  result : (compiler.reply turn).result = .error message
  self : (compiler.reply turn).self = left
  trialled : ∀ plan, compiler.plan = none → turn.Completes plan → left = compiler.seeded plan root turn.world
  untouched : (compiler.plan ≠ none ∨ ∀ plan, ¬ turn.Completes plan) → left = compiler
  kept : left.plan ≠ none ↔ compiler.plan ≠ none ∨ ∃ plan, turn.Completes plan
  drawn : compiler.draws turn = draws
  undrawn : ∀ reason, compiler.plan = none → (Plan.build root turn.world).plan = .error reason →
    draws = [] ∧ (compiler.reply turn).pool = turn.pool
  returned : ∀ peak after, Loans.Runs ⟨turn.pool, []⟩ (compiler.loanSteps turn) peak after →
    after.held = [] ∧ Returned turn.pool draws after.pool
  own : Loans.Runs ⟨turn.pool, []⟩ (compiler.loanSteps turn) (Loans.peak (compiler.loanSteps turn) ⟨turn.pool, []⟩)
    ⟨(compiler.reply turn).pool, []⟩
  unwritten : ∀ (δ ε : Type) (writer : Writer δ ε) (sink : δ),
    let sent := compiler.renderInto turn.pool root writer sink turn.world
    sent.sink = sink ∧ sent.reply.result = .error message ∧ sent.reply.self = left
  replied : ∀ destination, turn.step = .renderTo root destination →
    compiler.reply turn =
      (compiler.renderInto turn.pool root Destination.writer destination.opened turn.world).written.map .written

theorem strikes_unwinds (compiler : Compiler) (turn : Turn σ) (root : Node σ) (message : String)
    (asked : turn.step.root? = some root) (left : Compiler) (draws : List Draw)
    (strikes : compiler.Strikes turn root message left draws) : compiler.Unwinds turn root message left draws := by
  obtain ⟨result, self, drawn⟩ := strikes_faulted compiler turn root message asked left draws strikes
  refine ⟨result, self, ?trialled, ?untouched, ?kept, drawn, ?undrawn, ?returned, ?own, ?unwritten, ?replied⟩
  case trialled =>
    intro plan absent completes
    exact strikes_trialled compiler turn root message asked left draws plan strikes absent completes
  case untouched => exact strikes_untouched compiler turn root message asked left draws strikes
  case kept =>
    rw [← self, reply_plan, ← Option.isSome_iff_ne_none, Option.isSome_or, Bool.or_eq_true, Option.isSome_iff_ne_none,
      Option.isSome_iff_exists]
    simp only [candidate_iff]
  case undrawn =>
    intro reason absent failed
    have nothing := (draws_nil_iff compiler turn).mpr (.unbuilt root reason asked absent failed)
    have lends := reply_lends compiler turn
    rw [nothing] at lends
    exact ⟨drawn.symm.trans nothing, Pool.lends_nothing lends⟩
  case returned =>
    intro peak after ran
    rw [← drawn]
    exact Loans.runs_draws_returned _ turn.pool peak after ran
  case own => exact Loans.lends_runs _ turn.pool _ (reply_lends compiler turn)
  case unwritten =>
    intro δ ε writer sink
    have last := compiler.renderInto_writes_last turn.pool root writer sink turn.world
    obtain ⟨untouched, faulted⟩ := last.faulted message ((reply_result compiler turn root asked message).mp result)
    refine ⟨untouched, faulted, ?_⟩
    rw [last.self, ← reply_self compiler turn root asked, self]
  case replied =>
    intro destination into
    rw [reply, into]
    rfl

end Compiler

namespace Tuner

def Step.root? : Step σ → Option (Node σ)
  | .render root | .renderTo root _ => some root
  | .configure _ | .reset | .sizer _ => none

structure Unwinds (tuner : Tuner) (pool : Pool) (world : σ) (step : Step σ) (root : Node σ) (message : String) :
    Prop where
  struck : (root.render world).fault = some message
  self : (tuner.step pool world step).self = tuner
  unwritten : ∀ (δ ε : Type) (writer : Writer δ ε) (sink : δ),
    let sent := tuner.renderInto pool root writer sink world
    sent.sink = sink ∧ sent.reply.result = .error message ∧ sent.reply.self = tuner
  replied : ∀ destination, step = .renderTo root destination →
    tuner.step pool world step =
      (tuner.renderInto pool root Destination.writer destination.opened world).written.map .written

theorem faulted_renders (tuner : Tuner) (pool : Pool) (world : σ) (step : Step σ) (message : String)
    (faulted : (tuner.step pool world step).result = .error message) :
    ∃ root, step.root? = some root ∧ (tuner.render pool root world).result = .error message := by
  cases step with
  | render root =>
      exact ⟨root, rfl, (Reply.map_faulted _ _ message).mp faulted⟩
  | renderTo root destination =>
      have last := tuner.renderInto_writes_last pool root Destination.writer destination.opened world
      have sent := (Reply.map_faulted _ _ message).mp ((Reply.map_faulted _ _ message).mp faulted)
      refine ⟨root, rfl, ?_⟩
      rw [last.result] at sent
      cases answered : (tuner.render pool root world).result with
      | error reason => simpa [answered, Except.map] using sent
      | ok bytes => simp [answered, Except.map] at sent
  | configure config => cases faulted
  | reset => cases faulted
  | sizer request => cases faulted

theorem render_faulted_self (tuner : Tuner) (pool : Pool) (root : Node σ) (world : σ) (message : String)
    (struck : (root.render world).fault = some message) : (tuner.render pool root world).self = tuner := by
  rw [render, struck]

theorem faulted_unwinds (tuner : Tuner) (pool : Pool) (world : σ) (step : Step σ) (message : String)
    (faulted : (tuner.step pool world step).result = .error message) :
    ∃ root, step.root? = some root ∧ tuner.Unwinds pool world step root message := by
  obtain ⟨root, asked, result⟩ := faulted_renders tuner pool world step message faulted
  have struck := (Outcome.result_error _ message).mp ((tuner.render_result pool root world).symm.trans result)
  have self := tuner.render_faulted_self pool root world message struck
  refine ⟨root, asked, struck, ?self, ?unwritten, ?replied⟩
  case self =>
    cases step with
    | render tree =>
        cases asked
        exact self
    | renderTo tree destination =>
        cases asked
        exact (tuner.renderInto_writes_last pool root Destination.writer destination.opened world).self.trans self
    | configure config => cases asked
    | reset => cases asked
    | sizer request => cases asked
  case unwritten =>
    intro δ ε writer sink
    have last := tuner.renderInto_writes_last pool root writer sink world
    obtain ⟨untouched, faulted⟩ := last.faulted message result
    exact ⟨untouched, faulted, last.self.trans self⟩
  case replied =>
    rintro destination rfl
    rfl

end Tuner

theorem faults_leave_instances_clean (message : String) :
    (∀ (compiler : Compiler) (turn : Compiler.Turn σ) (root : Node σ), turn.step.root? = some root →
      ((compiler.reply turn).result = .error message ↔
          ∃ left draws, compiler.Strikes turn root message left draws) ∧
        ∀ left draws, compiler.Strikes turn root message left draws →
          compiler.Unwinds turn root message left draws) ∧
      ∀ (tuner : Tuner) (pool : Pool) (world : σ) (step : Tuner.Step σ),
        (tuner.step pool world step).result = .error message →
          ∃ root, step.root? = some root ∧ tuner.Unwinds pool world step root message := by
  refine ⟨?compiler, fun tuner pool world step => tuner.faulted_unwinds pool world step message⟩
  case compiler =>
    intro compiler turn root asked
    refine ⟨⟨?strikes, ?faulted⟩, compiler.strikes_unwinds turn root message asked⟩
    case strikes => exact fun faulted => ⟨_, _, compiler.faulted_strikes turn root message asked faulted⟩
    case faulted =>
      rintro ⟨left, draws, strikes⟩
      exact (compiler.strikes_faulted turn root message asked left draws strikes).1

def brittle : Node Nat := .fragment [.text (.plain "ab"), .custom true none (.fail "closed") []]

theorem shaky_request_leaves_trial :
    let compiler := Compiler.ofConfig .standard
    let reply := compiler.reply Compiler.shaky
    let wide : Destination := ⟨some 2, none, false, 0⟩
    let sent := compiler.renderInto .empty Compiler.shakyTree Destination.writer wide.opened 0
    reply.result = .error "closed" ∧ reply.self.plan ≠ none ∧
      reply.self.sizer = (compiler.sizer.update 2).1 ∧ Returned .empty [⟨1, [1, 7]⟩, ⟨0, [1, 7, 8]⟩] reply.pool ∧
      sent.reply.result = .error "closed" ∧ sent.sink.received = [] ∧
      (Tuner.renderInto (.ofConfig .standard) .empty brittle Destination.writer wide.opened 0).sink.received = [] := by
  obtain ⟨struck, unwinds⟩ := (faults_leave_instances_clean "closed").1 (.ofConfig .standard) Compiler.shaky _ rfl
  obtain ⟨left, draws, strikes⟩ := struck.mp rfl
  have clean := unwinds left draws strikes
  have completes : Compiler.shaky.Completes ⟨[.static [1], .dynamic [1]]⟩ := ⟨_, rfl, rfl, rfl⟩
  have kept := clean.kept.mpr (Or.inr ⟨_, completes⟩)
  have seeded := clean.trialled _ rfl completes
  have drawn : [⟨1, [1, 7]⟩, ⟨0, [1, 7, 8]⟩] = draws := clean.drawn
  have returned := (clean.returned _ _ clean.own).2
  rw [← clean.self] at kept seeded
  rw [← drawn] at returned
  obtain ⟨unwritten, faulted, _⟩ := clean.unwritten _ _ Destination.writer (Destination.opened ⟨some 2, none, false, 0⟩)
  obtain ⟨_, asked, calm⟩ := (faults_leave_instances_clean "closed").2 (.ofConfig .standard) .empty 0 (.render brittle) rfl
  cases asked
  obtain ⟨untouched, _⟩ := calm.unwritten _ _ Destination.writer (Destination.opened ⟨some 2, none, false, 0⟩)
  exact ⟨clean.result, kept, by rw [seeded]; rfl, returned, faulted, congrArg Destination.Sink.received unwritten,
    congrArg Destination.Sink.received untouched⟩

end Stencil
