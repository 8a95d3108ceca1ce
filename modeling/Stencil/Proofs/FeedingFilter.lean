import Stencil.Proofs.Deviation
import Stencil.Proofs.RunCalls

set_option autoImplicit false

namespace Stencil

-- What comes to a sizer in the service of a compiler. An output comes with the update threshold of its time.
inductive Load where
  | seed (size : UInt64)
  | output (threshold : UInt32) (size : UInt64)
  | request (step : Sizer.Step)
deriving DecidableEq, Repr

def Event.ofSizer : Event → Bool
  | .sizeDeviated _ _ | .baselineEstablished _ _ => true
  | .planBuilt _ _ _ | .pathUnresolved _ _ | .entryEvicted _ | .notFlattenable _ _ => false

namespace Sizer

-- Whether the sizer is in a new run beside an old baseline that predicts the size well enough.
def spared (sizer : Sizer) (threshold : UInt32) (size : UInt64) : Bool :=
  sizer.phase = .sampling && sizer.baseline ≠ 0 && !deviates sizer.baseline size threshold

def bear (sizer : Sizer) : Load → Sizer × List Event
  | .seed size => sizer.update size
  | .output threshold size => if sizer.spared threshold size then (sizer, []) else sizer.update size
  | .request step => sizer.step step

def follow : List Load → Sizer → Sizer × List Event
  | [], sizer => (sizer, [])
  | load :: later, sizer =>
      let after := sizer.bear load
      let rest := follow later after.1
      (rest.1, after.2 ++ rest.2)

theorem spared_iff (sizer : Sizer) (threshold : UInt32) (size : UInt64) :
    sizer.spared threshold size = true ↔
      sizer.phase = .sampling ∧ sizer.baseline ≠ 0 ∧ deviates sizer.baseline size threshold = false := by
  simp [spared, and_assoc]

theorem bear_sound (sizer : Sizer) (sound : sizer.Sound) (load : Load) : (sizer.bear load).1.Sound := by
  cases load with
  | seed size => exact update_sound size sizer sound
  | output threshold size =>
      rw [bear]
      split
      · exact sound
      · exact update_sound size sizer sound
  | request step => exact step_sound sizer sound step

theorem follow_append (before later : List Load) (sizer : Sizer) :
    follow (before ++ later) sizer =
      ((follow later (follow before sizer).1).1, (follow before sizer).2 ++ (follow later (follow before sizer).1).2) := by
  induction before generalizing sizer with
  | nil => rfl
  | cons load rest ih => rw [List.cons_append, follow, ih, follow, List.append_assoc]

theorem follow_sound (loads : List Load) (sizer : Sizer) (sound : sizer.Sound) : (follow loads sizer).1.Sound := by
  induction loads generalizing sizer with
  | nil => exact sound
  | cons load later ih => exact ih (sizer.bear load).1 (bear_sound sizer sound load)

theorem finish_events (sizer : Sizer) (event : Event) (member : event ∈ sizer.finishIfReady.2) :
    event.ofSizer = true := by
  rw [finishIfReady_eq] at member
  split at member
  · cases member
  · split at member
    · cases member
    · rw [List.mem_singleton.mp member]
      rfl

theorem update_events (size : UInt64) (sizer : Sizer) (event : Event) (member : event ∈ (sizer.update size).2) :
    event.ofSizer = true := by
  rw [update] at member
  cases phase : sizer.phase with
  | sampling =>
      rw [phase] at member
      exact finish_events _ event member
  | baseline =>
      simp only [phase, check] at member
      split at member
      · cases member
      · split at member
        · rcases List.mem_cons.mp member with same | later
          · rw [same]
            rfl
          · exact finish_events _ event later
        · cases member

theorem step_events (sizer : Sizer) (step : Step) : (sizer.step step).2.filter Event.ofSizer = (sizer.step step).2 := by
  apply List.filter_eq_self.mpr
  intro event member
  cases step with
  | update size => exact update_events size sizer event member
  | reset => cases member
  | configure config => cases member

end Sizer

variable {σ : Type}

theorem executePieces_unsized (root : Node σ) (pieces : List Piece) (world : σ) :
    (executePieces root pieces world).events.filter Event.ofSizer = [] := by
  induction pieces generalizing world with
  | nil => rfl
  | cons piece rest ih =>
      cases piece with
      | static bytes => exact ih world
      | dynamic path =>
          simp only [executePieces]
          cases root.resolve path with
          | error miss => exact ih world
          | ok node =>
              simp only
              cases (node.render world).fault with
              | some message => rfl
              | none => exact ih (node.render world).world

theorem execute_unsized (plan : Plan) (root : Node σ) (world : σ) :
    (plan.execute root world).events.filter Event.ofSizer = [] := executePieces_unsized root plan.pieces world

theorem build_unsized (root : Node σ) (world : σ) : (Plan.build root world).events.filter Event.ofSizer = [] := by
  simp only [Plan.build]
  cases ((Draft.start world).walk [] root).fault with
  | some message => rfl
  | none => rfl

namespace Compiler

def trial (held : Option Plan) (plan : Plan) (root : Node σ) (world : σ) : List Load :=
  match held with
  | some _ => []
  | none => [.seed (Sizer.measure (plan.execute root (Plan.build root world).world).out)]

def outputs (compiler : Compiler) (root : Node σ) (world : σ) : List Load :=
  let rehearsal := rehearse compiler.plan root world
  match rehearsal.result with
  | .error _ => []
  | .ok plan =>
      trial compiler.plan plan root world ++
        [.output compiler.updateThreshold (Sizer.measure (plan.execute root rehearsal.world).out)]

def turnLoads (compiler : Compiler) (turn : Turn σ) : List Load :=
  match turn.step with
  | .render root | .renderTo root _ => compiler.outputs root turn.world
  | .configure config => [.request (.configure config.sizer)]
  | .sizer step => [.request step]
  | .validate _ | .config | .plan => []

def loads : Compiler → List (Turn σ) → List Load
  | _, [] => []
  | compiler, turn :: later => compiler.turnLoads turn ++ loads (compiler.reply turn).self later

def log : Compiler → List (Turn σ) → List Event
  | _, [] => []
  | compiler, turn :: later => (compiler.reply turn).events ++ log (compiler.reply turn).self later

-- No size that the sizer would act on is near enough for the compiler to keep it back.
def Tolerant (compiler : Compiler) : Prop := compiler.updateThreshold ≤ compiler.sizer.config.variance

def StaysTolerant : Compiler → List (Turn σ) → Prop
  | compiler, [] => compiler.Tolerant
  | compiler, turn :: later => compiler.Tolerant ∧ StaysTolerant (compiler.reply turn).self later

theorem observe_bears (compiler : Compiler) (size : UInt64) (sound : compiler.sizer.Sound)
    (tolerant : compiler.Tolerant) :
    compiler.observe compiler.sizer.baseline size =
      compiler.sizer.bear (.output compiler.updateThreshold size) := by
  have observed : compiler.observe compiler.sizer.baseline size =
      if compiler.heeds size then compiler.sizer.update size else (compiler.sizer, []) := rfl
  rw [observed, Sizer.bear]
  by_cases heeds : compiler.heeds size = true
  · have taken : ¬ compiler.sizer.spared compiler.updateThreshold size = true := by
      rw [Sizer.spared_iff]
      rintro ⟨_, hint, close⟩
      rcases (heeds_iff compiler size).mp heeds with nothing | far
      · exact hint nothing
      · exact absurd (close.symm.trans far) (by decide)
    rw [if_pos heeds, if_neg taken]
  · rw [if_neg heeds]
    rw [heeds_iff, not_or, Bool.not_eq_true] at heeds
    cases phase : compiler.sizer.phase with
    | sampling => rw [if_pos ((Sizer.spared_iff _ _ _).mpr ⟨phase, heeds⟩)]
    | baseline =>
        -- The sizer itself would find nothing to do.
        have near := deviates_antitone _ _ _ _ tolerant heeds.2
        split
        · rfl
        · exact (Sizer.settled_update size compiler.sizer sound ⟨phase, near⟩).symm

def Follows (compiler after : Compiler) (events : List Event) (loads : List Load) : Prop :=
  Sizer.follow loads compiler.sizer = (after.sizer, events.filter Event.ofSizer)

theorem follows_append (compiler between after : Compiler) (before later : List Event) (first rest : List Load)
    (begun : compiler.Follows between before first) (ended : between.Follows after later rest) :
    compiler.Follows after (before ++ later) (first ++ rest) := by
  rw [Follows, Sizer.follow_append, begun, ended, List.filter_append]

theorem follows_nothing (compiler : Compiler) (events : List Event) (unsized : events.filter Event.ofSizer = []) :
    compiler.Follows compiler events [] := by
  rw [Follows, unsized, Sizer.follow]

theorem follows_unsized (compiler after : Compiler) (events later : List Event) (loads : List Load)
    (follows : compiler.Follows after events loads) (unsized : later.filter Event.ofSizer = []) :
    compiler.Follows after (events ++ later) loads := by
  rw [Follows, List.filter_append, unsized, List.append_nil]
  exact follows

theorem follows_sound (compiler after : Compiler) (events : List Event) (loads : List Load)
    (follows : compiler.Follows after events loads) (sound : compiler.sizer.Sound) : after.sizer.Sound := by
  have same : (Sizer.follow loads compiler.sizer).1 = after.sizer := congrArg Prod.fst follows
  rw [← same]
  exact Sizer.follow_sound loads compiler.sizer sound

theorem bear_events (sizer : Sizer) (load : Load) : (sizer.bear load).2.filter Event.ofSizer = (sizer.bear load).2 := by
  cases load with
  | seed size => exact Sizer.step_events sizer (.update size)
  | output threshold size =>
      rw [Sizer.bear]
      split
      · rfl
      · exact Sizer.step_events sizer (.update size)
  | request step => exact Sizer.step_events sizer step

theorem follows_one (compiler : Compiler) (load : Load) :
    compiler.Follows (compiler.sized (compiler.sizer.bear load)) (compiler.sizer.bear load).2 [load] := by
  rw [Follows, Sizer.follow, Sizer.follow, List.append_nil, bear_events]
  rfl

theorem planFor_follows (compiler : Compiler) (pool : Pool) (root : Node σ) (world : σ) (plan : Plan)
    (found : (compiler.planFor pool root world).result = .ok plan) :
    let planned := compiler.planFor pool root world
    compiler.Follows planned.self planned.events (trial compiler.plan plan root world) := by
  cases held : compiler.plan with
  | some other =>
      simp only [planFor, held]
      exact follows_nothing compiler [] rfl
  | none =>
      simp only [planFor, held, compile] at found ⊢
      cases built : (Plan.build root world).plan with
      | error message => simp [built] at found
      | ok other =>
          simp only [built] at found ⊢
          cases calm : (other.execute root (Plan.build root world).world).fault with
          | some message => simp [calm] at found
          | none =>
              simp only [calm] at found ⊢
              cases found
              have begun := follows_nothing compiler _ (build_unsized root world)
              have played := follows_unsized _ _ _ _ _ begun (execute_unsized plan root (Plan.build root world).world)
              exact follows_append _ _ _ _ _ _ _ played (follows_one compiler (.seed _))

theorem prepared_tolerant (compiler prepared : Compiler) (ready : Prepared compiler prepared)
    (sound : compiler.sizer.Sound) (tolerant : compiler.Tolerant) :
    prepared.sizer.Sound ∧ prepared.Tolerant ∧ prepared.updateThreshold = compiler.updateThreshold := by
  cases ready with
  | held _ => exact ⟨sound, tolerant, rfl⟩
  | seeded plan seed _ =>
      refine ⟨Sizer.update_sound seed compiler.sizer sound, ?_, rfl⟩
      rw [Tolerant, Sizer.update_config]
      exact tolerant

theorem render_follows (compiler : Compiler) (pool : Pool) (root : Node σ) (world : σ) (bytes : Bytes)
    (sound : compiler.sizer.Sound) (tolerant : compiler.Tolerant)
    (rendered : (compiler.render pool root world).result = .ok bytes) :
    let reply := compiler.render pool root world
    compiler.Follows reply.self reply.events (compiler.outputs root world) := by
  obtain ⟨result, left, _⟩ := planFor_content compiler pool root world
  simp only [render, outputs, ← result, ← left] at rendered ⊢
  cases found : (compiler.planFor pool root world).result with
  | error message => simp [found] at rendered
  | ok plan =>
      simp only [found] at rendered ⊢
      cases calm : (plan.execute root (compiler.planFor pool root world).world).fault with
      | some message => simp [calm] at rendered
      | none =>
          have begun := planFor_follows compiler pool root world plan found
          have ready := planFor_prepared compiler pool root world plan found
          obtain ⟨stillSound, stillTolerant, threshold⟩ := prepared_tolerant compiler _ ready sound tolerant
          have played := follows_unsized _ _ _ _ _ begun
            (execute_unsized plan root (compiler.planFor pool root world).world)
          have ended := follows_one (compiler.planFor pool root world).self
            (.output compiler.updateThreshold
              (Sizer.measure (plan.execute root (compiler.planFor pool root world).world).out))
          rw [← threshold, ← observe_bears _ _ stillSound stillTolerant, threshold] at ended
          exact follows_append _ _ _ _ _ _ _ played ended

theorem reply_follows (compiler : Compiler) (turn : Turn σ) (answer : Answer) (sound : compiler.sizer.Sound)
    (tolerant : compiler.Tolerant) (answered : (compiler.reply turn).result = .ok answer) :
    compiler.Follows (compiler.reply turn).self (compiler.reply turn).events (compiler.turnLoads turn) := by
  obtain ⟨step, pool, world⟩ := turn
  have renders : ∀ root, (∀ bytes, (compiler.render pool root world).result = .ok bytes →
      compiler.Follows (compiler.render pool root world).self (compiler.render pool root world).events
        (compiler.outputs root world)) :=
    fun root bytes rendered => render_follows compiler pool root world bytes sound tolerant rendered
  cases step with
  | render root =>
      cases rendered : (compiler.render pool root world).result with
      | error message => simp [reply, step, Reply.map, rendered, Except.map] at answered
      | ok bytes => exact renders root bytes rendered
  | renderTo root destination =>
      obtain ⟨result, _, self, events⟩ := renderTo_as_render compiler pool root destination world
      cases rendered : (compiler.render pool root world).result with
      | error message => simp [reply, step, Reply.map, result, rendered, Except.map] at answered
      | ok bytes =>
          simp only [reply, step, Reply.map, self, events]
          exact renders root bytes rendered
  | validate root => exact follows_nothing compiler [] rfl
  | configure config => exact follows_one compiler (.request (.configure config.sizer))
  | config => exact follows_nothing compiler [] rfl
  | plan => exact follows_nothing compiler [] rfl
  | sizer request => exact follows_one compiler (.request request)

theorem run_follows (compiler : Compiler) (turns : List (Turn σ)) (sound : compiler.sizer.Sound)
    (unharmed : Unharmed compiler turns) (tolerant : StaysTolerant compiler turns) :
    compiler.Follows (run compiler turns) (log compiler turns) (loads compiler turns) := by
  induction turns generalizing compiler with
  | nil => exact follows_nothing compiler [] rfl
  | cons turn later ih =>
      obtain ⟨⟨answer, answered⟩, onward⟩ := unharmed
      have first := reply_follows compiler turn answer sound tolerant.1 answered
      have still := follows_sound _ _ _ _ first sound
      exact follows_append _ _ _ _ _ _ _ first (ih (compiler.reply turn).self still onward tolerant.2)

theorem unharmed_before (compiler : Compiler) (before later : List (Turn σ))
    (unharmed : Unharmed compiler (before ++ later)) : Unharmed compiler before := by
  induction before generalizing compiler with
  | nil => trivial
  | cons turn rest ih => exact ⟨unharmed.1, ih (compiler.reply turn).self unharmed.2⟩

theorem tolerant_before (compiler : Compiler) (before later : List (Turn σ))
    (tolerant : StaysTolerant compiler (before ++ later)) : StaysTolerant compiler before := by
  induction before generalizing compiler with
  | nil =>
      cases later with
      | nil => exact tolerant
      | cons turn rest => exact tolerant.1
  | cons turn rest ih => exact ⟨tolerant.1, ih (compiler.reply turn).self tolerant.2⟩

theorem bear_taken (sizer : Sizer) (threshold : UInt32) (size : UInt64)
    (met : sizer.phase = .baseline ∨ sizer.baseline = 0) :
    sizer.bear (.output threshold size) = sizer.update size := by
  rw [Sizer.bear, if_neg]
  rw [Sizer.spared_iff]
  rintro ⟨sampling, hint, _⟩
  rcases met with established | nothing
  · exact absurd (established.symm.trans sampling) (by decide)
  · exact hint nothing

-- A run of samples has the same baseline beside it from its first sample on, so a run that starts from none is one
-- that is found without one.
theorem feeding_loses_predicted_sizes (config : CompilerConfig) (turns : List (Turn σ))
    (unharmed : Unharmed (.ofConfig config) turns) (tolerant : StaysTolerant (.ofConfig config) turns) :
    let bare := fun loads => Sizer.follow loads (.ofConfig config.sizer)
    (∀ before later, turns = before ++ later →
        (run (.ofConfig config) before).sizer = (bare (loads (.ofConfig config) before)).1 ∧
          (log (.ofConfig config) before).filter Event.ofSizer = (bare (loads (.ofConfig config) before)).2) ∧
      ∀ before threshold size later, loads (.ofConfig config) turns = before ++ .output threshold size :: later →
        let met := (bare before).1
        (met.phase = .baseline → deviates met.baseline size met.config.variance = true →
            met.bear (.output threshold size) =
              ((met.reopened size).finishIfReady.1,
                .sizeDeviated size met.baseline :: (met.reopened size).finishIfReady.2)) ∧
          (met.phase = .sampling → met.baseline = 0 →
            met.bear (.output threshold size) = (met.counting size).finishIfReady) := by
  refine ⟨?together, ?taken⟩
  case together =>
    rintro before later rfl
    have follows := run_follows (.ofConfig config) before (Sizer.ofConfig_sound config.sizer)
      (unharmed_before _ before later unharmed) (tolerant_before _ before later tolerant)
    exact ⟨(congrArg Prod.fst follows).symm, (congrArg Prod.snd follows).symm⟩
  case taken =>
    intro before threshold size later _ met
    have sound : met.Sound := Sizer.follow_sound before _ (Sizer.ofConfig_sound config.sizer)
    constructor
    · intro established far
      rw [bear_taken met threshold size (Or.inl established)]
      rcases Sizer.update_cases size met sound with ⟨sampling, _⟩ | ⟨_, ⟨near, _⟩ | ⟨_, same⟩⟩
      · exact absurd (established.symm.trans sampling) (by decide)
      · exact absurd (near.symm.trans far) (by decide)
      · exact same
    · intro sampling nothing
      rw [bear_taken met threshold size (Or.inr nothing)]
      rcases Sizer.update_cases size met sound with ⟨_, same⟩ | ⟨established, _⟩
      · exact same
      · exact absurd (established.symm.trans sampling) (by decide)

-- After the outlier of 40 bytes the sizer is spared the 20 bytes that its baseline of 23 predicts, but not the 30.
theorem opening_spares_twenty :
    let turns := opening ++ [sizedTurn 20, sizedTurn 30]
    Unharmed (.ofConfig .standard) turns ∧ StaysTolerant (.ofConfig .standard) turns ∧
      (run (.ofConfig .standard) turns).sizer =
        (Sizer.run ([20, 20, 20, 20, 20, 40, 30].map .update) (.ofConfig .standard)).1 := by
  have within : (15 : UInt32) ≤ 20 := by decide
  have unharmed : Unharmed (.ofConfig .standard) (opening ++ [sizedTurn 20, sizedTurn 30]) :=
    ⟨⟨_, rfl⟩, ⟨_, rfl⟩, ⟨_, rfl⟩, ⟨_, rfl⟩, ⟨_, rfl⟩, ⟨_, rfl⟩, ⟨_, rfl⟩, trivial⟩
  have tolerant : StaysTolerant (.ofConfig .standard) (opening ++ [sizedTurn 20, sizedTurn 30]) :=
    ⟨within, within, within, within, within, within, within, within⟩
  obtain ⟨together, _⟩ := feeding_loses_predicted_sizes .standard _ unharmed tolerant
  refine ⟨unharmed, tolerant, ?_⟩
  rw [(together _ [] (List.append_nil _).symm).1]
  decide +kernel

end Compiler

end Stencil
