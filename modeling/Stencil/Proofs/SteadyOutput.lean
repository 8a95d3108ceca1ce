import Stencil.Proofs.CompilerTurn
import Stencil.Proofs.Settling

set_option autoImplicit false

namespace Stencil.Compiler

variable {σ : Type}

def heeds (compiler : Compiler) (size : UInt64) : Bool :=
  compiler.sizer.baseline = 0 || deviates compiler.sizer.baseline size compiler.updateThreshold

theorem heeds_iff (compiler : Compiler) (size : UInt64) :
    compiler.heeds size = true ↔
      compiler.sizer.baseline = 0 ∨ deviates compiler.sizer.baseline size compiler.updateThreshold = true := by
  rw [heeds, Bool.or_eq_true, decide_eq_true_iff]

-- A new run is open beside an old baseline, and the old baseline predicts the size well enough.
structure Stalls (compiler : Compiler) (size : UInt64) : Prop where
  sampling : compiler.sizer.phase = .sampling
  hint : compiler.sizer.baseline ≠ 0
  close : deviates compiler.sizer.baseline size compiler.updateThreshold = false

theorem stalls_iff (compiler : Compiler) (size : UInt64) :
    compiler.Stalls size ↔ compiler.sizer.phase = .sampling ∧ ¬ compiler.heeds size = true := by
  rw [heeds_iff, not_or, Bool.not_eq_true]
  constructor
  · intro stalls
    exact ⟨stalls.sampling, stalls.hint, stalls.close⟩
  · rintro ⟨sampling, hint, close⟩
    exact ⟨sampling, hint, close⟩

def noting (size : UInt64) (compiler : Compiler) : Compiler :=
  compiler.sized (compiler.observe compiler.sizer.baseline size)

theorem noting_eq (size : UInt64) (compiler : Compiler) :
    compiler.noting size =
      if compiler.heeds size then { compiler with sizer := (compiler.sizer.update size).1 } else compiler := by
  change compiler.sized (if compiler.heeds size = true then _ else _) = _
  split <;> rfl

theorem finish_open (sizer : Sizer) (sampled : sizer.Sampled) (sampling : sizer.finishIfReady.1.phase = .sampling) :
    sizer.finishIfReady.1.baseline = 0 ∨ sizer.finishIfReady.1.baseline = sizer.baseline := by
  rcases Sizer.finish_cases sizer sampled with ⟨_, same⟩ | ⟨_, ⟨_, same⟩ | ⟨_, same⟩⟩ <;> rw [same] at sampling ⊢
  · exact Or.inr rfl
  · exact Or.inl (Sizer.baseline_reset sizer)
  · rw [Sizer.phase_publish _ _ (Sizer.forecast_fits sizer)] at sampling
    cases sampling

theorem update_open (size : UInt64) (sizer : Sizer) (sound : sizer.Sound)
    (sampling : (sizer.update size).1.phase = .sampling) :
    (sizer.update size).1.baseline = 0 ∨ (sizer.update size).1.baseline = sizer.baseline := by
  rcases Sizer.update_cases size sizer sound with ⟨open_, same⟩ | ⟨established, ⟨_, same⟩ | ⟨_, same⟩⟩ <;>
    rw [same] at sampling ⊢
  · exact finish_open _ (Sizer.counting_sampled size sizer sound open_) sampling
  · exact Or.inr rfl
  · have hint := Sizer.baseline_publish ⟨sizer.baseline, .sampling⟩ { sizer with sum := size, count := 1 } sound.fits
    rcases finish_open _ (Sizer.reopened_sampled size sizer sound) sampling with nothing | same
    · exact Or.inl nothing
    · exact Or.inr (same.trans hint)

inductive Awaits (size : UInt64) (left : Nat) (compiler : Compiler) : Prop where
  | rested : compiler.sizer.phase = .baseline →
      deviates compiler.sizer.baseline size compiler.sizer.config.variance = false ∨ ¬ compiler.heeds size = true →
      Awaits size left compiler
  | due : ¬ compiler.Stalls size → Sizer.Due size left compiler.sizer → Awaits size left compiler

theorem awaits_nothing (size : UInt64) (compiler : Compiler) (sound : compiler.sizer.Sound)
    (awaits : Awaits size 0 compiler) : compiler.sizer.phase = .baseline := by
  cases awaits with
  | rested established _ => exact established
  | due _ due => exact (Sizer.due_nothing size compiler.sizer sound due).established

theorem awaits_noting (size : UInt64) (left : Nat) (compiler : Compiler) (sound : compiler.sizer.Sound)
    (suits : compiler.sizer.config.Suits size) (awaits : Awaits size (left + 1) compiler) :
    Awaits size left (compiler.noting size) := by
  rw [noting_eq]
  cases awaits with
  | rested established rests =>
      split
      · rename_i heeds
        have settled : compiler.sizer.Settled size := ⟨established, rests.resolve_right (not_not_intro heeds)⟩
        rw [Sizer.settled_update size compiler.sizer sound settled]
        exact .rested established rests
      · exact .rested established rests
  | due free due =>
      split
      · rename_i heeds
        refine .due ?_ (Sizer.due_update size compiler.sizer sound suits left due)
        intro stalls
        rcases update_open size compiler.sizer sound stalls.sampling with nothing | same
        · exact stalls.hint nothing
        · have close := stalls.close
          have hint := stalls.hint
          simp only [same] at close hint
          rcases (heeds_iff compiler size).mp heeds with nothing | far
          · exact hint nothing
          · exact absurd (close.symm.trans far) (by decide)
      · rename_i ignores
        cases phase : compiler.sizer.phase with
        | sampling => exact absurd ((stalls_iff compiler size).mpr ⟨phase, ignores⟩) free
        | baseline => exact .rested phase (Or.inr ignores)

theorem planFor_failed (compiler : Compiler) (pool : Pool) (root : Node σ) (world : σ) (message : String)
    (failed : (compiler.planFor pool root world).result = .error message) :
    (compiler.planFor pool root world).self = compiler := by
  cases held : compiler.plan with
  | some plan => simp only [planFor, held]
  | none =>
      simp only [planFor, held, compile] at failed ⊢
      cases built : (Plan.build root world).plan with
      | error message => rfl
      | ok plan =>
          simp only [built] at failed ⊢
          cases calm : (plan.execute root (Plan.build root world).world).fault with
          | some message => rfl
          | none => simp [calm] at failed

-- The compiler that goes on to render: it has its plan, and a first rendering has also seeded the sizer.
inductive Prepared (compiler : Compiler) : Compiler → Prop where
  | held : compiler.plan ≠ none → Prepared compiler compiler
  | seeded (plan : Plan) (seed : UInt64) : compiler.plan = none →
      Prepared compiler { compiler with plan := some plan, sizer := (compiler.sizer.update seed).1 }

theorem planFor_prepared (compiler : Compiler) (pool : Pool) (root : Node σ) (world : σ) (plan : Plan)
    (found : (compiler.planFor pool root world).result = .ok plan) :
    Prepared compiler (compiler.planFor pool root world).self := by
  cases held : compiler.plan with
  | some plan =>
      simp only [planFor, held]
      exact .held (by rw [held]; exact Option.some_ne_none plan)
  | none =>
      simp only [planFor, held, compile] at found ⊢
      cases built : (Plan.build root world).plan with
      | error message => simp [built] at found
      | ok plan =>
          simp only [built] at found ⊢
          cases calm : (plan.execute root (Plan.build root world).world).fault with
          | some message => simp [calm] at found
          | none => exact .seeded plan _ held

theorem render_cases (compiler : Compiler) (pool : Pool) (root : Node σ) (world : σ) :
    let planned := compiler.planFor pool root world
    (∃ message, (compiler.render pool root world).result = .error message) ∧
        (compiler.render pool root world).self = planned.self ∨
      ∃ plan bytes, planned.result = .ok plan ∧ (compiler.render pool root world).result = .ok bytes ∧
        (compiler.render pool root world).self = planned.self.noting (Sizer.measure bytes) := by
  simp only [render]
  cases found : (compiler.planFor pool root world).result with
  | error message => exact Or.inl ⟨⟨message, rfl⟩, rfl⟩
  | ok plan =>
      simp only
      cases (plan.execute root (compiler.planFor pool root world).world).fault with
      | some message => exact Or.inl ⟨⟨message, rfl⟩, rfl⟩
      | none => exact Or.inr ⟨plan, _, rfl, rfl, rfl⟩

theorem reply_self (compiler : Compiler) (turn : Turn σ) (root : Node σ) (asked : turn.step.root? = some root) :
    (compiler.reply turn).self = (compiler.render turn.pool root turn.world).self := by
  obtain ⟨step, pool, world⟩ := turn
  cases step with
  | render tree => cases asked; rfl
  | renderTo tree destination =>
      cases asked
      exact (renderTo_as_render compiler pool root destination world).2.2.1
  | validate tree => cases asked
  | configure config => cases asked
  | config => cases asked
  | plan => cases asked
  | sizer request => cases asked

structure Tended (config : CompilerConfig) (compiler : Compiler) : Prop where
  sound : compiler.sizer.Sound
  configured : compiler.config = config
  fresh : compiler.plan = none → compiler.sizer = .ofConfig config.sizer

theorem tended_update (config : CompilerConfig) (compiler : Compiler) (plan : Option Plan) (size : UInt64)
    (tended : Tended config compiler) (planned : plan ≠ none) :
    Tended config { compiler with plan := plan, sizer := (compiler.sizer.update size).1 } where
  sound := Sizer.update_sound size compiler.sizer tended.sound
  configured := by
    rw [← tended.configured]
    simp only [Compiler.config, Sizer.update_config]
  fresh absent := absurd absent planned

theorem tended_prepared (config : CompilerConfig) (compiler prepared : Compiler) (tended : Tended config compiler)
    (ready : Prepared compiler prepared) : Tended config prepared ∧ prepared.plan ≠ none := by
  cases ready with
  | held planned => exact ⟨tended, planned⟩
  | seeded plan seed absent =>
      have planned : some plan ≠ none := Option.some_ne_none plan
      exact ⟨tended_update config compiler (some plan) seed tended planned, planned⟩

theorem tended_noting (config : CompilerConfig) (compiler : Compiler) (size : UInt64) (tended : Tended config compiler)
    (planned : compiler.plan ≠ none) :
    Tended config (compiler.noting size) ∧ (compiler.noting size).plan ≠ none := by
  rw [noting_eq]
  split
  · exact ⟨tended_update config compiler compiler.plan size tended planned, planned⟩
  · exact ⟨tended, planned⟩

theorem tended_reply (config : CompilerConfig) (compiler : Compiler) (turn : Turn σ) (tended : Tended config compiler)
    (renders : turn.step.root? ≠ none) : Tended config (compiler.reply turn).self := by
  obtain ⟨root, asked⟩ := Option.ne_none_iff_exists'.mp renders
  rw [reply_self compiler turn root asked]
  have planning : Tended config (compiler.planFor turn.pool root turn.world).self := by
    cases found : (compiler.planFor turn.pool root turn.world).result with
    | error message =>
        rw [planFor_failed compiler turn.pool root turn.world message found]
        exact tended
    | ok plan => exact (tended_prepared config _ _ tended (planFor_prepared _ _ _ _ plan found)).1
  rcases render_cases compiler turn.pool root turn.world with ⟨_, same⟩ | ⟨plan, bytes, found, _, same⟩ <;> rw [same]
  · exact planning
  · have prepared := tended_prepared config _ _ tended (planFor_prepared compiler turn.pool root turn.world plan found)
    exact (tended_noting config _ _ prepared.1 prepared.2).1

theorem tended_run (config : CompilerConfig) (compiler : Compiler) (turns : List (Turn σ))
    (tended : Tended config compiler) (renders : ∀ turn ∈ turns, turn.step.root? ≠ none) :
    Tended config (run compiler turns) := by
  induction turns generalizing compiler with
  | nil => exact tended
  | cons turn later ih =>
      apply ih (compiler.reply turn).self (tended_reply config compiler turn tended (renders turn List.mem_cons_self))
      exact fun other member => renders other (List.mem_cons_of_mem turn member)

def Outputs (compiler : Compiler) (turn : Turn σ) (size : UInt64) : Prop :=
  ∃ root bytes, turn.step.root? = some root ∧ (compiler.render turn.pool root turn.world).result = .ok bytes ∧
    bytes.length = size.toNat

def Steady (size : UInt64) : Compiler → List (Turn σ) → Prop
  | _, [] => True
  | compiler, turn :: later => compiler.Outputs turn size ∧ Steady size (compiler.reply turn).self later

theorem outputs_noting (compiler : Compiler) (turn : Turn σ) (size : UInt64) (outputs : compiler.Outputs turn size) :
    ∃ prepared, Prepared compiler prepared ∧ (compiler.reply turn).self = prepared.noting size := by
  obtain ⟨root, bytes, asked, rendered, length⟩ := outputs
  rw [reply_self compiler turn root asked]
  rcases render_cases compiler turn.pool root turn.world with ⟨⟨_, failed⟩, _⟩ | ⟨plan, other, found, same, self⟩
  · cases rendered.symm.trans failed
  · cases rendered.symm.trans same
    have measured : Sizer.measure bytes = size := by
      rw [← UInt64.toNat_inj, Sizer.measure, Saturating.toNat_ofNat, length]
      exact Saturating.below_limit _ size.toNat_lt
    rw [measured] at self
    exact ⟨_, planFor_prepared compiler turn.pool root turn.world plan found, self⟩

theorem noting_stalled (size : UInt64) (compiler : Compiler) (stalls : compiler.Stalls size) :
    compiler.noting size = compiler := by
  rw [noting_eq, if_neg ((stalls_iff compiler size).mp stalls).2]

theorem stalled_run (size : UInt64) (compiler : Compiler) (later : List (Turn σ)) (planned : compiler.plan ≠ none)
    (stalls : compiler.Stalls size) (steady : Steady size compiler later) : run compiler later = compiler := by
  induction later with
  | nil => rfl
  | cons turn later ih =>
      obtain ⟨prepared, ready, same⟩ := outputs_noting compiler turn size steady.1
      cases ready with
      | seeded plan seed absent => exact absurd absent planned
      | held _ =>
          rw [noting_stalled size compiler stalls] at same
          have onward := steady.2
          rw [same] at onward
          change run (compiler.reply turn).self later = compiler
          rw [same]
          exact ih onward

theorem awaited_run (config : CompilerConfig) (size : UInt64) (suits : config.sizer.Suits size) (compiler : Compiler)
    (later : List (Turn σ)) (tended : Tended config compiler) (planned : compiler.plan ≠ none)
    (awaits : Awaits size later.length compiler) (steady : Steady size compiler later) :
    (run compiler later).sizer.phase = .baseline := by
  induction later generalizing compiler with
  | nil => exact awaits_nothing size compiler tended.sound awaits
  | cons turn later ih =>
      obtain ⟨prepared, ready, same⟩ := outputs_noting compiler turn size steady.1
      cases ready with
      | seeded plan seed absent => exact absurd absent planned
      | held _ =>
          obtain ⟨stillTended, stillPlanned⟩ := tended_noting config compiler size tended planned
          have suitsNow : compiler.sizer.config.Suits size := by
            rw [← tended.configured] at suits
            exact suits
          have next := awaits_noting size later.length compiler tended.sound suitsNow awaits
          have onward := steady.2
          change (run (compiler.reply turn).self later).sizer.phase = .baseline
          rw [same] at onward ⊢
          exact ih (compiler.noting size) stillTended stillPlanned next onward

theorem prepared_free (config : CompilerConfig) (size : UInt64) (compiler prepared : Compiler)
    (tended : Tended config compiler) (ready : Prepared compiler prepared) (free : ¬ compiler.Stalls size) :
    ¬ prepared.Stalls size := by
  cases ready with
  | held _ => exact free
  | seeded plan seed absent =>
      -- Without a plan the sizer has seen nothing, so the seed cannot leave an old baseline.
      intro stalls
      have nothing : compiler.sizer.baseline = 0 := by
        rw [tended.fresh absent]
        exact Sizer.baseline_reset (.ofConfig config.sizer)
      rcases update_open seed compiler.sizer tended.sound stalls.sampling with zero | same
      · exact stalls.hint zero
      · exact stalls.hint (same.trans nothing)

theorem stalls_planned (config : CompilerConfig) (size : UInt64) (compiler : Compiler) (tended : Tended config compiler)
    (stalls : compiler.Stalls size) : compiler.plan ≠ none := by
  intro absent
  apply stalls.hint
  rw [tended.fresh absent]
  exact Sizer.baseline_reset (.ofConfig config.sizer)

theorem ofConfig_tended (config : CompilerConfig) : Tended config (.ofConfig config) :=
  ⟨Sizer.ofConfig_sound config.sizer, rfl, fun _ => rfl⟩

theorem steady_output_settles (config : CompilerConfig) (before later : List (Turn σ)) (size : UInt64)
    (renders : ∀ turn ∈ before, turn.step.root? ≠ none) (suits : config.sizer.Suits size)
    (steady : Steady size (run (.ofConfig config) before) later) :
    let compiler := run (.ofConfig config) before
    (¬ compiler.Stalls size → 2 * config.sizer.runLength ≤ later.length →
        (run compiler later).sizer.phase = .baseline) ∧
      (compiler.Stalls size → run compiler later = compiler) := by
  have tended := tended_run config (.ofConfig config) before (ofConfig_tended config) renders
  refine ⟨?settles, ?stalls⟩
  case settles =>
    intro free enough
    cases later with
    | nil =>
        have positive := Sizer.runLength_pos config.sizer
        simp only [List.length_nil] at enough
        omega
    | cons turn later =>
        obtain ⟨prepared, ready, same⟩ := outputs_noting _ turn size steady.1
        obtain ⟨stillTended, planned⟩ := tended_prepared config _ prepared tended ready
        have freed := prepared_free config size _ prepared tended ready free
        have configured : prepared.sizer.config = config.sizer := congrArg CompilerConfig.sizer stillTended.configured
        have due : Sizer.Due size (later.length + 1) prepared.sizer :=
          Sizer.due_twice size (later.length + 1) prepared.sizer (by rw [configured]; exact enough)
        have next := awaits_noting size later.length prepared stillTended.sound (by rw [configured]; exact suits)
          (.due freed due)
        obtain ⟨notedTended, notedPlanned⟩ := tended_noting config prepared size stillTended planned
        have onward := steady.2
        change (run (Compiler.reply _ turn).self later).sizer.phase = .baseline
        rw [same] at onward ⊢
        exact awaited_run config size suits (prepared.noting size) later notedTended notedPlanned next onward
  case stalls =>
    intro stalls
    exact stalled_run size _ later (stalls_planned config size _ tended stalls) stalls steady

def sizedTurn (size : Nat) : Turn Nat := ⟨.render (.custom true none (.write (List.replicate size 120)) []), .empty, 0⟩

def opening : List (Turn Nat) := List.replicate 4 (sizedTurn 20) ++ [sizedTurn 40]

def opened : Compiler := ⟨some ⟨[.dynamic []]⟩, ⟨Published.pack ⟨23, .sampling⟩, 40, 1, .standard⟩, 15⟩

theorem run_opening : run (.ofConfig .standard) opening = opened := by decide +kernel

-- The next 20 bytes are near enough to 23 not to be handed on, and so are all that follow.
theorem outlier_leaves_run_open :
    let later := List.replicate (2 * SizerConfig.standard.runLength) (sizedTurn 20)
    (∀ turn ∈ opening, turn.step.root? ≠ none) ∧ SizerConfig.standard.Suits 20 ∧
      Steady 20 (run (.ofConfig .standard) opening) later ∧
      (run (run (.ofConfig .standard) opening) later).sizer.phase ≠ .baseline := by
  have stalls : opened.Stalls 20 := ⟨by decide, by decide, by decide⟩
  have stays : (opened.reply (sizedTurn 20)).self = opened := by decide +kernel
  have steady : ∀ times, Steady 20 opened (List.replicate times (sizedTurn 20)) := by
    intro times
    induction times with
    | zero => trivial
    | succ times ih =>
        refine ⟨⟨_, List.replicate 20 120, rfl, rfl, rfl⟩, ?_⟩
        rw [stays]
        exact ih
  rw [run_opening]
  refine ⟨by simp [opening, sizedTurn, Step.root?], standard_suits 20 (by decide) (by decide), steady _, ?_⟩
  rw [stalled_run 20 opened _ (Option.some_ne_none _) stalls (steady _), stalls.sampling]
  decide

theorem new_size_settles :
    SizerConfig.Suits ⟨2, 20, 100⟩ 20 ∧
      ¬ (run (.ofConfig ⟨15, ⟨2, 20, 100⟩⟩) [sizedTurn 10, sizedTurn 20]).Stalls 20 ∧
      (run (run (.ofConfig ⟨15, ⟨2, 20, 100⟩⟩) [sizedTurn 10, sizedTurn 20])
        (List.replicate 4 (sizedTurn 20))).sizer.phase = .baseline := by
  have suits : SizerConfig.Suits ⟨2, 20, 100⟩ 20 := ⟨by decide, by decide, by decide, by decide⟩
  have renders : ∀ turn ∈ [sizedTurn 10, sizedTurn 20], turn.step.root? ≠ none := by simp [sizedTurn, Step.root?]
  have steady : Steady 20 (run (.ofConfig ⟨15, ⟨2, 20, 100⟩⟩) [sizedTurn 10, sizedTurn 20])
      (List.replicate 4 (sizedTurn 20)) :=
    ⟨⟨_, _, rfl, rfl, rfl⟩, ⟨_, _, rfl, rfl, rfl⟩, ⟨_, _, rfl, rfl, rfl⟩, ⟨_, _, rfl, rfl, rfl⟩, trivial⟩
  have free : ¬ (run (.ofConfig ⟨15, ⟨2, 20, 100⟩⟩) [sizedTurn 10, sizedTurn 20]).Stalls 20 := by
    intro stalls
    exact absurd stalls.close (by decide)
  obtain ⟨settles, _⟩ := steady_output_settles ⟨15, ⟨2, 20, 100⟩⟩ [sizedTurn 10, sizedTurn 20]
    (List.replicate 4 (sizedTurn 20)) 20 renders suits steady
  exact ⟨suits, free, settles free (by decide)⟩

end Stencil.Compiler
