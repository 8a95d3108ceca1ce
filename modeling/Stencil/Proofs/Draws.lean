import Stencil.Proofs.CompilerTurn
import Stencil.Proofs.LoanRuns
import Stencil.Proofs.Room

set_option autoImplicit false

namespace Stencil

variable {σ : Type}

structure Draw where
  asked : Nat
  written : Bytes
deriving DecidableEq, Repr

def Draw.opening (draw : Draw) : List Loans.Step := [.checkOut "scratch" draw.asked, .write "scratch" draw.written]

def Draw.steps (draw : Draw) : List Loans.Step := draw.opening ++ [.giveBack "scratch"]

structure Draw.Ends (draw : Draw) (pool : Pool) (ended : Buffer) : Prop where
  bytes : ended.bytes = draw.written
  asked : draw.asked ≤ ended.capacity
  written : draw.written.length ≤ ended.capacity
  kept : ∀ spare ∈ pool.idle.head?, ended.label = spare.label ∧ spare.capacity ≤ ended.capacity

namespace Pool

inductive Lends : Pool → List Draw → Pool → Prop where
  | nothing (pool : Pool) : Lends pool [] pool
  | onward (pool after : Pool) (draw : Draw) (later : List Draw) (roomy : Buffer) :
      (pool.next.reserve draw.asked).Widened draw.written.length roomy →
      Lends (pool.rest.give (roomy.append draw.written)) later after → Lends pool (draw :: later) after

theorem lends_append {pool between after : Pool} {first second : List Draw} (begun : pool.Lends first between)
    (ended : between.Lends second after) : pool.Lends (first ++ second) after := by
  induction begun with
  | nothing _ => exact ended
  | onward pool _ draw later roomy wider _ ih => exact .onward pool after draw _ roomy wider (ih ended)

theorem lends_nothing {pool after : Pool} (lends : pool.Lends [] after) : after = pool := by
  cases lends
  rfl

theorem use_lends (pool : Pool) (draw : Draw) (grow : Room → Room)
    (took : ∀ room : Room, room.Took draw.written.length (grow room)) :
    pool.Lends [draw] (pool.use draw.asked draw.written grow) := by
  have grown := took (pool.next.reserve draw.asked).room
  have fits : (pool.next.reserve draw.asked).room.used ≤ (pool.next.reserve draw.asked).capacity :=
    Nat.le_trans (Nat.le_add_right _ _) (pool.next.room.reserve_enough draw.asked)
  have wider : (pool.next.reserve draw.asked).Widened draw.written.length
      { pool.next.reserve draw.asked with capacity := (grow (pool.next.reserve draw.asked).room).capacity } := by
    refine ⟨rfl, rfl, ?_, grown.kept⟩
    exact Nat.le_trans (Nat.le_of_eq grown.used.symm) (grown.fits fits)
  rw [use, take_eq]
  exact .onward pool _ draw [] _ wider (.nothing _)

end Pool

namespace Loans

theorem peak_draws (draws : List Draw) (pool : Pool) :
    peak (draws.flatMap Draw.steps) ⟨pool, []⟩ = if draws = [] then 0 else 1 := by
  induction draws generalizing pool with
  | nil => rfl
  | cons draw later ih =>
      have first : run draw.steps ⟨pool, []⟩ = ⟨(run draw.steps ⟨pool, []⟩).pool, []⟩ := by
        simp [Draw.steps, Draw.opening, run, step, checkOut, write, giveBack, find?]
      have most : peak (draw.steps ++ later.flatMap Draw.steps) ⟨pool, []⟩ =
          max 1 (peak (later.flatMap Draw.steps) (run draw.steps ⟨pool, []⟩)) := by
        simp [Draw.steps, Draw.opening, run, step, checkOut, write, giveBack, find?, peak, busiest]
      rw [List.flatMap_cons, most, first, ih]
      split <;> rfl

theorem lend_runs (draw : Draw) (pool : Pool) (roomy : Buffer)
    (wider : (pool.next.reserve draw.asked).Widened draw.written.length roomy) :
    Runs ⟨pool, []⟩ draw.steps 1 ⟨pool.rest.give (roomy.append draw.written), []⟩ := by
  let taken := pool.next.reserve draw.asked
  let room := fun buffer : Buffer => if buffer = taken then roomy else buffer.reserve draw.written.length
  have roomier : ∀ buffer : Buffer, buffer.Widened draw.written.length (room buffer) := by
    intro buffer
    by_cases same : buffer = taken
    · rw [same]
      simpa only [room, if_pos] using wider
    · simpa only [room, if_neg same] using buffer.reserve_widened draw.written.length
  have out : ((drawing ⟨pool, []⟩).giveBack "scratch").hand "scratch" taken = ⟨pool.rest, [("scratch", taken)]⟩ := by
    simp [hand, giveBack, find?, drawing]
  have full : amend "scratch" (fun buffer => (room buffer).append draw.written) ⟨pool.rest, [("scratch", taken)]⟩ =
      ⟨pool.rest, [("scratch", roomy.append draw.written)]⟩ := by
    simp [amend, room]
  have back : giveBack "scratch" ⟨pool.rest, [("scratch", roomy.append draw.written)]⟩ =
      ⟨pool.rest.give (roomy.append draw.written), []⟩ := by
    simp [giveBack, find?]
  have moved : Moves ⟨pool, []⟩ (.checkOut "scratch" draw.asked) ⟨pool.rest, [("scratch", taken)]⟩ :=
    out ▸ .checkOut "scratch" draw.asked taken (pool.next.reserve_widened draw.asked)
  have wrote : Moves ⟨pool.rest, [("scratch", taken)]⟩ (.write "scratch" draw.written)
      ⟨pool.rest, [("scratch", roomy.append draw.written)]⟩ := full ▸ .write "scratch" draw.written room roomier
  have returned : Moves ⟨pool.rest, [("scratch", roomy.append draw.written)]⟩ (.giveBack "scratch")
      ⟨pool.rest.give (roomy.append draw.written), []⟩ := back ▸ .giveBack "scratch"
  exact .onward _ _ _ _ _ 1 moved (.onward _ _ _ _ _ 1 wrote (.onward _ _ _ _ _ 0 returned (.done _)))

theorem lends_runs (draws : List Draw) (pool after : Pool) (lends : pool.Lends draws after) :
    Runs ⟨pool, []⟩ (draws.flatMap Draw.steps) (peak (draws.flatMap Draw.steps) ⟨pool, []⟩) ⟨after, []⟩ := by
  rw [peak_draws]
  induction lends with
  | nothing pool => exact .done _
  | onward pool after draw later roomy wider _ ih =>
      rw [List.flatMap_cons, if_neg (List.cons_ne_nil draw later), runs_append]
      refine ⟨_, 1, _, lend_runs draw pool roomy wider, ih, ?_⟩
      split <;> rfl

theorem runs_opening (draw : Draw) (pool : Pool) (orderly : Orderly ⟨pool, []⟩) (peak : Nat) (out : Loans)
    (ran : Runs ⟨pool, []⟩ draw.opening peak out) :
    peak = 1 ∧ ∃ ended, draw.Ends pool ended ∧ out = ⟨pool.rest, [("scratch", ended)]⟩ := by
  have drawn := drawn ⟨pool, []⟩ orderly
  simp only [Draw.opening, runs_cons, runs_nil] at ran
  obtain ⟨_, _, ⟨_, _, taken, fresh⟩, ⟨_, _, written, ⟨rfl, rfl⟩, rfl⟩, rfl⟩ := ran
  cases written with
  | write _ _ room wider =>
      obtain ⟨label, bytes, enough, kept⟩ := wider taken
      have clean : taken.bytes = [] := fresh.bytes.trans drawn.clean
      refine ⟨?peak, (room taken).append draw.written, ⟨?bytes, ?asked, ?written, ?kept⟩, ?out⟩
      case peak => simp [busiest, amend, hand, giveBack, find?, drawing]
      case bytes => rw [Buffer.append, bytes, clean, List.nil_append]
      case asked => exact Nat.le_trans (Nat.le_trans (Nat.le_add_left _ _) fresh.enough) kept
      case written => exact Nat.le_trans (Nat.le_add_left _ _) enough
      case kept =>
        intro spare top
        have same : pool.next = spare := drawn.reused spare top
        rw [← same]
        exact ⟨label.trans fresh.label, Nat.le_trans fresh.kept kept⟩
      case out => simp [amend, hand, giveBack, find?, drawing]

theorem giveBack_scratch (pool : Pool) (ended : Buffer) :
    giveBack "scratch" ⟨pool, [("scratch", ended)]⟩ = ⟨pool.give ended, []⟩ := by
  simp [giveBack, find?]

theorem runs_draw (draw : Draw) (pool : Pool) (orderly : Orderly ⟨pool, []⟩) (peak : Nat) (after : Loans)
    (ran : Runs ⟨pool, []⟩ draw.steps peak after) : peak = 1 ∧ after.held = [] := by
  obtain ⟨out, before, rest, opened, closed, rfl⟩ := (runs_append _ _ draw.opening _ _).mp ran
  obtain ⟨rfl, ended, _, rfl⟩ := runs_opening draw pool orderly before out opened
  simp only [runs_cons, runs_nil] at closed
  obtain ⟨_, _, ⟨_⟩, ⟨rfl, rfl⟩, rfl⟩ := closed
  rw [giveBack_scratch]
  exact ⟨rfl, rfl⟩

structure Tidy (loans : Loans) : Prop where
  held : loans.held = []
  orderly : loans.Orderly
  one : loans.pool.idle.length ≤ 1

theorem runs_one (loans after : Loans) (steps : List Step) (peak : Nat) (tidy : Tidy loans) (least : peak ≤ 1)
    (ran : loans.Runs steps peak after) : after.Orderly ∧ after.pool.idle.length + after.held.length ≤ 1 := by
  obtain ⟨ended, total⟩ := runs_orderly loans after steps peak tidy.orderly ran
  have before : loans.labels.length ≤ 1 := by
    rw [labels_length, tidy.held]
    exact tidy.one
  rw [labels_length after] at total
  exact ⟨ended, Nat.le_trans total (Nat.max_le.mpr ⟨before, least⟩)⟩

theorem runs_draws (draws : List Draw) (loans after : Loans) (peak : Nat) (tidy : Tidy loans)
    (ran : loans.Runs (draws.flatMap Draw.steps) peak after) : peak ≤ 1 ∧ Tidy after := by
  induction draws generalizing loans peak with
  | nil =>
      obtain ⟨rfl, rfl⟩ := (runs_nil _ _ _).mp ran
      rw [tidy.held]
      exact ⟨Nat.zero_le 1, tidy⟩
  | cons draw later ih =>
      -- A draw ends with nothing out, so the next one finds the loans as tidy as this one did.
      obtain ⟨between, before, rest, first, onward, rfl⟩ := (runs_append _ _ draw.steps _ _).mp ran
      have drawn : before = 1 ∧ between.held = [] := by
        obtain ⟨pool, held⟩ := loans
        cases tidy.held
        exact runs_draw draw pool tidy.orderly before between first
      obtain ⟨rfl, returned⟩ := drawn
      obtain ⟨still, one⟩ := runs_one loans between _ 1 tidy (Nat.le_refl 1) first
      obtain ⟨least, ended⟩ := ih between rest ⟨returned, still, Nat.le_of_add_right_le one⟩ onward
      exact ⟨Nat.max_le.mpr ⟨Nat.le_refl 1, least⟩, ended⟩

theorem give_one (pool : Pool) (one : pool.idle.length ≤ 1) (ended : Buffer) :
    (pool.rest.give ended).idle = if ended.capacity ≤ 262144 then [ended.clear] else [] := by
  have empty : pool.rest.idle = [] := by
    rw [Pool.rest_idle]
    exact List.eq_nil_of_length_eq_zero (by rw [List.length_tail]; omega)
  rw [Pool.give_eq, Pool.shelved, empty]
  simp

-- However the buffers grow, what is left after the last draw is decided by its buffer, as that is when it comes back.
def Decides (loans : Loans) (earlier : List Draw) (last : Draw) : Prop :=
  ∀ part before final out, loans.Runs (earlier.flatMap Draw.steps) part before → before.Runs last.opening final out →
    ∃ ended, out.held = [("scratch", ended)] ∧ last.Ends before.pool ended ∧ ∀ after,
      out.Moves (.giveBack "scratch") after →
        after.held = [] ∧ after.pool.idle = if ended.capacity ≤ 262144 then [ended.clear] else []

theorem last_decides (loans : Loans) (tidy : Tidy loans) (earlier : List Draw) (last : Draw) :
    loans.Decides earlier last := by
  intro part before final out began opened
  obtain ⟨pool, held⟩ := before
  obtain ⟨_, returned, still, one⟩ := runs_draws earlier loans _ part tidy began
  cases returned
  obtain ⟨_, ended, ends, rfl⟩ := runs_opening last pool still final out opened
  refine ⟨ended, rfl, ends, fun after back => ?_⟩
  cases back
  rw [giveBack_scratch]
  exact ⟨rfl, give_one pool one ended⟩

end Loans

namespace Compiler

def trialDraws (held : Option Plan) (root : Node σ) (world : σ) : List Draw :=
  match held with
  | some _ => []
  | none =>
      let built := Plan.build root world
      match built.plan with
      | .error _ => []
      | .ok plan => [⟨plan.staticLength, (plan.execute root built.world).out⟩]

def liveDraws (planned : Reply Compiler σ Plan) (root : Node σ) : List Draw :=
  match planned.result with
  | .error _ => []
  | .ok plan => [⟨planned.self.sizer.baseline.toNat, (plan.execute root planned.world).out⟩]

def draws (compiler : Compiler) (turn : Turn σ) : List Draw :=
  match turn.step with
  | .render root => trialDraws compiler.plan root turn.world
  | .renderTo root _ =>
      let planned := compiler.planFor turn.pool root turn.world
      trialDraws compiler.plan root turn.world ++ liveDraws planned root
  | .validate _ | .configure _ | .config | .plan | .sizer _ => []

theorem planFor_lends (compiler : Compiler) (pool : Pool) (root : Node σ) (world : σ) :
    pool.Lends (trialDraws compiler.plan root world) (compiler.planFor pool root world).pool := by
  simp only [planFor, trialDraws]
  cases compiler.plan with
  | some plan => exact .nothing pool
  | none =>
      simp only [compile]
      cases (Plan.build root world).plan with
      | error message => exact .nothing pool
      | ok plan =>
          have lends := pool.use_lends ⟨plan.staticLength, _⟩ _ (plan.grow_took root (Plan.build root world).world)
          simp only
          cases (plan.execute root (Plan.build root world).world).fault with
          | some message => exact lends
          | none => exact lends

theorem render_pool (compiler : Compiler) (pool : Pool) (root : Node σ) (world : σ) :
    (compiler.render pool root world).pool = (compiler.planFor pool root world).pool := by
  simp only [render]
  cases (compiler.planFor pool root world).result with
  | error message => rfl
  | ok plan =>
      simp only
      cases (plan.execute root (compiler.planFor pool root world).world).fault with
      | some message => rfl
      | none => rfl

theorem renderInto_lends {δ ε : Type} (compiler : Compiler) (pool : Pool) (root : Node σ) (writer : Writer δ ε)
    (sink : δ) (world : σ) :
    (compiler.planFor pool root world).pool.Lends (liveDraws (compiler.planFor pool root world) root)
      (compiler.renderInto pool root writer sink world).reply.pool := by
  simp only [renderInto, liveDraws]
  cases (compiler.planFor pool root world).result with
  | error message => exact .nothing _
  | ok plan =>
      have lends := (compiler.planFor pool root world).pool.use_lends
        ⟨(compiler.planFor pool root world).self.sizer.baseline.toNat, _⟩ _
        (plan.grow_took root (compiler.planFor pool root world).world)
      simp only
      cases (plan.execute root (compiler.planFor pool root world).world).fault with
      | some message => exact lends
      | none => exact lends

theorem reply_lends (compiler : Compiler) (turn : Turn σ) :
    turn.pool.Lends (compiler.draws turn) (compiler.reply turn).pool := by
  obtain ⟨step, pool, world⟩ := turn
  cases step with
  | render root =>
      have planned := planFor_lends compiler pool root world
      rwa [← render_pool] at planned
  | renderTo root destination =>
      exact Pool.lends_append (planFor_lends compiler pool root world)
        (renderInto_lends compiler pool root Destination.writer destination.opened world)
  | validate root => exact .nothing pool
  | configure config => exact .nothing pool
  | config => exact .nothing pool
  | plan => exact .nothing pool
  | sizer request => exact .nothing pool

-- Requests that need no buffer: those that render nothing, a plain rendering by a plan at hand, and one whose plan
-- cannot be built.
inductive DrawsNothing (compiler : Compiler) (turn : Turn σ) : Prop where
  | quiet : turn.step.root? = none → DrawsNothing compiler turn
  | planned (root : Node σ) : turn.step = .render root → compiler.plan ≠ none → DrawsNothing compiler turn
  | unbuilt (root : Node σ) (message : String) : turn.step.root? = some root → compiler.plan = none →
      (Plan.build root turn.world).plan = .error message → DrawsNothing compiler turn

theorem trialDraws_nil_iff (held : Option Plan) (root : Node σ) (world : σ) :
    trialDraws held root world = [] ↔ held ≠ none ∨ ∃ message, (Plan.build root world).plan = .error message := by
  cases held with
  | some plan => exact iff_of_true rfl (Or.inl (Option.some_ne_none plan))
  | none =>
      simp only [trialDraws]
      cases (Plan.build root world).plan with
      | error message => exact iff_of_true rfl (Or.inr ⟨message, rfl⟩)
      | ok plan => exact iff_of_false (List.cons_ne_nil _ _) (by simp)

-- A rendering into a destination draws nothing only if it never gets as far as that.
theorem renderTo_draws_nil_iff (compiler : Compiler) (root : Node σ) (destination : Destination) (pool : Pool)
    (world : σ) :
    compiler.draws ⟨.renderTo root destination, pool, world⟩ = [] ↔
      compiler.plan = none ∧ ∃ message, (Plan.build root world).plan = .error message := by
  obtain ⟨result, _, _⟩ := planFor_content compiler pool root world
  simp only [draws, liveDraws, List.append_eq_nil_iff, trialDraws_nil_iff, result, rehearse]
  cases compiler.plan with
  | some plan => simp
  | none =>
      cases (Plan.build root world).plan with
      | error message => simp
      | ok plan => simp

theorem draws_nil_iff (compiler : Compiler) (turn : Turn σ) : compiler.draws turn = [] ↔ compiler.DrawsNothing turn := by
  obtain ⟨step, pool, world⟩ := turn
  constructor
  · intro nothing
    cases step with
    | render root =>
        by_cases held : compiler.plan = none
        · rcases (trialDraws_nil_iff compiler.plan root world).mp nothing with planned | ⟨message, failed⟩
          · exact absurd held planned
          · exact .unbuilt root message rfl held failed
        · exact .planned root rfl held
    | renderTo root destination =>
        obtain ⟨held, message, failed⟩ := (renderTo_draws_nil_iff compiler root destination pool world).mp nothing
        exact .unbuilt root message rfl held failed
    | validate root => exact .quiet rfl
    | configure config => exact .quiet rfl
    | config => exact .quiet rfl
    | plan => exact .quiet rfl
    | sizer request => exact .quiet rfl
  · rintro (idle | ⟨root, rfl, planned⟩ | ⟨root, message, asked, held, failed⟩)
    · cases step <;> first | rfl | cases idle
    · exact (trialDraws_nil_iff compiler.plan root world).mpr (Or.inl planned)
    · cases step with
      | render tree =>
          cases asked
          exact (trialDraws_nil_iff compiler.plan root world).mpr (Or.inr ⟨message, failed⟩)
      | renderTo tree destination =>
          cases asked
          exact (renderTo_draws_nil_iff compiler root destination pool world).mpr ⟨held, message, failed⟩
      | validate tree => rfl
      | configure config => rfl
      | config => rfl
      | plan => rfl
      | sizer request => rfl

def loanSteps (compiler : Compiler) (turn : Turn σ) : List Loans.Step := (compiler.draws turn).flatMap Draw.steps

inductive Reached (σ : Type) (config : CompilerConfig) : Compiler → Loans → Prop where
  | fresh : Reached σ config (.ofConfig config) .empty
  | onward (compiler : Compiler) (loans after : Loans) (turn : Turn σ) (peak : Nat) : Reached σ config compiler loans →
      turn.pool = loans.pool → loans.Runs (compiler.loanSteps turn) peak after →
      Reached σ config (compiler.reply turn).self after

theorem reached_tidy (config : CompilerConfig) (compiler : Compiler) (loans : Loans)
    (reached : Reached σ config compiler loans) : loans.Tidy := by
  induction reached with
  | fresh => exact ⟨rfl, Loans.empty_orderly, Nat.zero_le 1⟩
  | onward compiler loans after turn peak _ _ ran ih => exact (Loans.runs_draws _ loans after peak ih ran).2

theorem runs_within (compiler : Compiler) (turn : Turn σ) (loans : Loans) (tidy : loans.Tidy)
    (done rest : List Loans.Step) (split : compiler.loanSteps turn = done ++ rest) (part : Nat) (mid : Loans)
    (ran : loans.Runs done part mid) : part ≤ 1 ∧ mid.pool.idle.length + mid.held.length ≤ 1 := by
  have whole : loans.Runs (compiler.loanSteps turn) (max part (Loans.peak rest mid)) (Loans.run rest mid) := by
    rw [split, Loans.runs_append]
    exact ⟨mid, part, _, ran, Loans.run_runs mid rest, rfl⟩
  have least := Nat.le_trans (Nat.le_max_left _ _) (Loans.runs_draws _ loans _ _ tidy whole).1
  exact ⟨least, (Loans.runs_one loans mid done part tidy least ran).2⟩

theorem requests_hoard_no_buffers (config : CompilerConfig) (compiler : Compiler) (loans : Loans)
    (reached : Reached σ config compiler loans) (turn : Turn σ) (found : turn.pool = loans.pool) :
    (loans.held = [] ∧ loans.pool.idle.length ≤ 1) ∧
      loans.Runs (compiler.loanSteps turn) (Loans.peak (compiler.loanSteps turn) loans)
        ⟨(compiler.reply turn).pool, []⟩ ∧
      (∀ done rest, compiler.loanSteps turn = done ++ rest → ∀ part mid, loans.Runs done part mid →
        part ≤ 1 ∧ mid.pool.idle.length + mid.held.length ≤ 1) ∧
      (compiler.draws turn = [] ↔ compiler.DrawsNothing turn) ∧
      (∀ peak after, loans.Runs (compiler.loanSteps turn) peak after →
        after.held = [] ∧ (compiler.DrawsNothing turn → after = loans)) ∧
      ∀ earlier last, compiler.draws turn = earlier ++ [last] → loans.Decides earlier last := by
  have tidy := reached_tidy config compiler loans reached
  refine ⟨⟨tidy.held, tidy.one⟩, ?own, runs_within compiler turn loans tidy, draws_nil_iff compiler turn, ?left,
    fun earlier last _ => Loans.last_decides loans tidy earlier last⟩
  case own =>
    obtain ⟨pool, held⟩ := loans
    cases tidy.held
    have lends := reply_lends compiler turn
    rw [found] at lends
    exact Loans.lends_runs _ pool _ lends
  case left =>
    intro peak after ran
    refine ⟨(Loans.runs_draws _ loans after peak tidy ran).2.held, fun quiet => ?_⟩
    rw [loanSteps, (draws_nil_iff compiler turn).mpr quiet] at ran
    exact ((Loans.runs_nil loans after peak).mp ran).1

def shakyTree : Node Nat :=
  .fragment [.custom false none (.write [1]) [],
    .custom true none (fun world => if world = 0 then ⟨[7], 1, none⟩ else ⟨[7, 8], world, some "closed"⟩) []]

def shaky : Turn Nat := ⟨.renderTo shakyTree ⟨some 2, some 3, false, 1⟩, .empty, 0⟩

theorem shaky_request_returns_both :
    let first : Draw := ⟨1, [1, 7]⟩
    let second : Draw := ⟨0, [1, 7, 8]⟩
    let compiler := ofConfig .standard
    compiler.draws shaky = [first] ++ [second] ∧ (compiler.reply shaky).result = .error "closed" ∧
      (compiler.reply shaky).pool.idle = [⟨0, [], 8⟩] ∧ Loans.empty.Decides [first] second := by
  have two : (ofConfig .standard).draws shaky = [⟨1, [1, 7]⟩] ++ [⟨0, [1, 7, 8]⟩] := by rfl
  obtain ⟨_, _, _, _, _, decides⟩ :=
    requests_hoard_no_buffers .standard _ _ (.fresh : Reached Nat _ _ _) shaky rfl
  exact ⟨two, by rfl, by rfl, decides _ _ two⟩

end Compiler

end Stencil
