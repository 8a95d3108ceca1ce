import Mathlib.Data.Nat.Bitwise
import Stencil.Sizer

set_option autoImplicit false

namespace Stencil

namespace Published

theorem below_top_bit (number : Nat) (below : number < 2 ^ 63) :
    (number ||| 2 ^ 63) % 2 ^ 63 = number ∧ (number ||| 2 ^ 63).testBit 63 = true ∧ number.testBit 63 = false := by
  have sum : number ||| 2 ^ 63 = 2 ^ 63 + number := by
    rw [Nat.or_comm]
    simpa using (Nat.two_pow_add_eq_or_of_lt below 1).symm
  have clear : number.testBit 63 = false := Nat.testBit_lt_two_pow below
  refine ⟨?_, ?_, clear⟩
  · rw [sum, Nat.add_mod_left, Nat.mod_eq_of_lt below]
  · rw [Nat.testBit_or, Nat.testBit_two_pow_self, Bool.or_true]

theorem unmasked (word : UInt64) : (word &&& largest).toNat = word.toNat % 2 ^ 63 := by
  rw [UInt64.toNat_and]
  exact Nat.and_two_pow_sub_one_eq_mod word.toNat 63

theorem marked_iff (word : UInt64) : word &&& samplingBit ≠ 0 ↔ word.toNat.testBit 63 = true := by
  have bit : (word &&& samplingBit).toNat = (word.toNat.testBit 63).toNat * 2 ^ 63 := by
    rw [UInt64.toNat_and]
    exact Nat.and_two_pow word.toNat 63
  rw [ne_eq, ← UInt64.toNat_inj, bit]
  cases word.toNat.testBit 63 <;> simp

theorem unpack_pack (published : Published) (fits : published.baseline.toNat < 2 ^ 63) :
    unpack published.pack = published := by
  obtain ⟨baseline, phase⟩ := published
  obtain ⟨kept, set, clear⟩ := below_top_bit baseline.toNat fits
  have whole : baseline ≤ largest := UInt64.le_iff_toNat_le.mpr (Nat.le_pred_of_lt fits)
  cases phase with
  | sampling =>
      have word : pack ⟨baseline, .sampling⟩ = baseline ||| samplingBit := by simp only [pack, if_pos whole]
      have number : (baseline ||| samplingBit).toNat = baseline.toNat ||| 2 ^ 63 := UInt64.toNat_or _ _
      have same : (baseline ||| samplingBit) &&& largest = baseline := by
        rw [← UInt64.toNat_inj, unmasked, number, kept]
      have marked : (baseline ||| samplingBit) &&& samplingBit ≠ 0 := by rw [marked_iff, number, set]
      rw [word, unpack, same, if_pos marked]
  | baseline =>
      have word : pack ⟨baseline, .baseline⟩ = baseline := by simp only [pack, if_pos whole]
      have same : baseline &&& largest = baseline := by
        rw [← UInt64.toNat_inj, unmasked, Nat.mod_eq_of_lt fits]
      have unmarked : ¬ baseline &&& samplingBit ≠ 0 := by simp [marked_iff, clear]
      rw [word, unpack, same, if_neg unmarked]

end Published

-- The samples in a full run. Even with none asked for, a run has the one that starts it.
def SizerConfig.runLength (config : SizerConfig) : Nat := max 1 config.maxSamples.toNat

namespace Sizer

theorem published_publish (published : Published) (sizer : Sizer) (fits : published.baseline.toNat < 2 ^ 63) :
    (sizer.publish published).published = published := Published.unpack_pack published fits

theorem baseline_publish (published : Published) (sizer : Sizer) (fits : published.baseline.toNat < 2 ^ 63) :
    (sizer.publish published).baseline = published.baseline :=
  congrArg Published.baseline (published_publish published sizer fits)

theorem phase_publish (published : Published) (sizer : Sizer) (fits : published.baseline.toNat < 2 ^ 63) :
    (sizer.publish published).phase = published.phase :=
  congrArg Published.phase (published_publish published sizer fits)

theorem baseline_reset (sizer : Sizer) : sizer.reset.baseline = 0 := baseline_publish ⟨0, .sampling⟩ _ (by decide)

theorem phase_reset (sizer : Sizer) : sizer.reset.phase = .sampling := phase_publish ⟨0, .sampling⟩ _ (by decide)

def forecast (sizer : Sizer) : UInt64 :=
  Saturating.mul (sizer.sum / sizer.count.toUInt64) sizer.config.growth.toUInt64 / 100

theorem forecast_toNat (sizer : Sizer) :
    sizer.forecast.toNat =
      min (sizer.sum.toNat / sizer.count.toNat * sizer.config.growth.toNat) Saturating.limit / 100 := by
  rw [forecast, UInt64.toNat_div, Saturating.toNat_mul, UInt64.toNat_div, UInt32.toNat_toUInt64, UInt32.toNat_toUInt64]
  rfl

def largestForecast : Nat := Saturating.limit / 100

theorem largestForecast_fits : largestForecast < 2 ^ 63 := by decide

theorem forecast_small (sizer : Sizer) : sizer.forecast.toNat ≤ largestForecast := by
  rw [forecast_toNat]
  exact Nat.div_le_div_right (Nat.min_le_right _ _)

theorem forecast_fits (sizer : Sizer) : sizer.forecast.toNat < 2 ^ 63 :=
  Nat.lt_of_le_of_lt (forecast_small sizer) largestForecast_fits

theorem finishIfReady_eq (sizer : Sizer) :
    sizer.finishIfReady =
      if sizer.count < sizer.config.maxSamples then (sizer, [])
      else if sizer.forecast = 0 then (sizer.reset, [])
      else (sizer.publish ⟨sizer.forecast, .baseline⟩, [.baselineEstablished sizer.forecast sizer.count]) := rfl

structure Sound (sizer : Sizer) : Prop where
  small : sizer.baseline.toNat ≤ largestForecast
  established : sizer.phase = .baseline →
    sizer.count.toNat = sizer.config.runLength ∧ sizer.baseline = sizer.forecast ∧ sizer.baseline ≠ 0
  unfinished : sizer.phase = .sampling →
    sizer.count.toNat < sizer.config.runLength ∧ (sizer.count = 0 → sizer.sum = 0 ∧ sizer.baseline = 0)

theorem Sound.fits (sizer : Sizer) (sound : sizer.Sound) : sizer.baseline.toNat < 2 ^ 63 :=
  Nat.lt_of_le_of_lt sound.small largestForecast_fits

structure Sampled (sizer : Sizer) : Prop where
  small : sizer.baseline.toNat ≤ largestForecast
  sampling : sizer.phase = .sampling
  begun : 0 < sizer.count.toNat
  within : sizer.count.toNat ≤ sizer.config.runLength

theorem finish_cases (sizer : Sizer) (sampled : sizer.Sampled) :
    sizer.count.toNat < sizer.config.runLength ∧ sizer.finishIfReady = (sizer, []) ∨
      sizer.count.toNat = sizer.config.runLength ∧
        (sizer.forecast = 0 ∧ sizer.finishIfReady = (sizer.reset, []) ∨
          sizer.forecast ≠ 0 ∧ sizer.finishIfReady =
            (sizer.publish ⟨sizer.forecast, .baseline⟩, [.baselineEstablished sizer.forecast sizer.count])) := by
  have within := sampled.within
  have begun := sampled.begun
  rw [finishIfReady_eq]
  unfold SizerConfig.runLength at within ⊢
  by_cases short : sizer.count < sizer.config.maxSamples
  · have less := UInt32.lt_iff_toNat_lt.mp short
    exact Or.inl ⟨by omega, if_pos short⟩
  · have enough : ¬ sizer.count.toNat < sizer.config.maxSamples.toNat := mt UInt32.lt_iff_toNat_lt.mpr short
    refine Or.inr ⟨by omega, ?_⟩
    rw [if_neg short]
    by_cases nothing : sizer.forecast = 0
    · exact Or.inl ⟨nothing, if_pos nothing⟩
    · exact Or.inr ⟨nothing, if_neg nothing⟩

theorem reset_sound (sizer : Sizer) : sizer.reset.Sound where
  small := by
    rw [baseline_reset]
    exact Nat.zero_le _
  established established := by
    rw [phase_reset] at established
    cases established
  unfinished _ := ⟨Nat.lt_of_lt_of_le Nat.one_pos (Nat.le_max_left _ _), fun _ => ⟨rfl, baseline_reset sizer⟩⟩

theorem publish_sound (sizer : Sizer) (complete : sizer.count.toNat = sizer.config.runLength)
    (worth : sizer.forecast ≠ 0) : (sizer.publish ⟨sizer.forecast, .baseline⟩).Sound := by
  have baseline := baseline_publish ⟨sizer.forecast, .baseline⟩ sizer (forecast_fits sizer)
  have phase := phase_publish ⟨sizer.forecast, .baseline⟩ sizer (forecast_fits sizer)
  refine ⟨?small, fun _ => ⟨complete, baseline, ?nonzero⟩, ?unfinished⟩
  case small =>
    rw [baseline]
    exact forecast_small sizer
  case nonzero =>
    rw [baseline]
    exact worth
  case unfinished =>
    intro sampling
    rw [phase] at sampling
    cases sampling

theorem finish_sound (sizer : Sizer) (sampled : sizer.Sampled) : sizer.finishIfReady.1.Sound := by
  rcases finish_cases sizer sampled with ⟨short, same⟩ | ⟨complete, ⟨_, same⟩ | ⟨worth, same⟩⟩ <;> rw [same]
  · refine ⟨sampled.small, ?_, fun _ => ⟨short, ?_⟩⟩
    · intro established
      rw [sampled.sampling] at established
      cases established
    · intro zero
      exact absurd (congrArg UInt32.toNat zero) (Nat.pos_iff_ne_zero.mp sampled.begun)
  · exact reset_sound sizer
  · exact publish_sound sizer complete worth

def counting (size : UInt64) (sizer : Sizer) : Sizer :=
  { sizer with sum := Saturating.add sizer.sum size, count := sizer.count + 1 }

def reopened (size : UInt64) (sizer : Sizer) : Sizer :=
  publish ⟨sizer.baseline, .sampling⟩ { sizer with sum := size, count := 1 }

theorem counting_count (size : UInt64) (sizer : Sizer) (sound : sizer.Sound) (sampling : sizer.phase = .sampling) :
    sizer.count.toNat + 1 < 2 ^ 32 ∧ (sizer.counting size).count.toNat = sizer.count.toNat + 1 := by
  have short := (sound.unfinished sampling).1
  have bound := sizer.config.maxSamples.toNat_lt
  have room : sizer.count.toNat + 1 < 2 ^ 32 := by
    unfold SizerConfig.runLength at short
    omega
  refine ⟨room, ?_⟩
  change (sizer.count + 1).toNat = _
  rw [UInt32.toNat_add]
  exact Nat.mod_eq_of_lt room

theorem counting_sampled (size : UInt64) (sizer : Sizer) (sound : sizer.Sound) (sampling : sizer.phase = .sampling) :
    (sizer.counting size).Sampled := by
  obtain ⟨_, count⟩ := counting_count size sizer sound sampling
  refine ⟨sound.small, sampling, ?_, ?_⟩
  · rw [count]
    exact Nat.succ_pos _
  · rw [count]
    exact (sound.unfinished sampling).1

theorem reopened_sampled (size : UInt64) (sizer : Sizer) (sound : sizer.Sound) : (sizer.reopened size).Sampled := by
  have baseline := baseline_publish ⟨sizer.baseline, .sampling⟩ { sizer with sum := size, count := 1 } sound.fits
  refine ⟨?_, phase_publish _ _ sound.fits, Nat.one_pos, Nat.le_max_left _ _⟩
  rw [reopened, baseline]
  exact sound.small

theorem update_cases (size : UInt64) (sizer : Sizer) (sound : sizer.Sound) :
    sizer.phase = .sampling ∧ sizer.update size = (sizer.counting size).finishIfReady ∨
      sizer.phase = .baseline ∧
        (deviates sizer.baseline size sizer.config.variance = false ∧ sizer.update size = (sizer, []) ∨
          deviates sizer.baseline size sizer.config.variance = true ∧
            sizer.update size =
              ((sizer.reopened size).finishIfReady.1,
                .sizeDeviated size sizer.baseline :: (sizer.reopened size).finishIfReady.2)) := by
  cases phase : sizer.phase with
  | sampling =>
      refine Or.inl ⟨rfl, ?_⟩
      rw [update, phase]
      rfl
  | baseline =>
      obtain ⟨_, _, nonzero⟩ := sound.established phase
      refine Or.inr ⟨rfl, ?_⟩
      rw [update, phase]
      simp only [check, if_neg nonzero]
      cases far : deviates sizer.baseline size sizer.config.variance with
      | false => exact Or.inl ⟨rfl, rfl⟩
      | true => exact Or.inr ⟨rfl, rfl⟩

theorem update_sound (size : UInt64) (sizer : Sizer) (sound : sizer.Sound) : (sizer.update size).1.Sound := by
  rcases update_cases size sizer sound with ⟨sampling, same⟩ | ⟨_, ⟨_, same⟩ | ⟨_, same⟩⟩ <;> rw [same]
  · exact finish_sound _ (counting_sampled size sizer sound sampling)
  · exact sound
  · exact finish_sound _ (reopened_sampled size sizer sound)

theorem ofConfig_sound (config : SizerConfig) : (ofConfig config).Sound := reset_sound (ofConfig config)

theorem step_sound (sizer : Sizer) (sound : sizer.Sound) (step : Step) : (sizer.step step).1.Sound := by
  cases step with
  | update size => exact update_sound size sizer sound
  | reset => exact reset_sound sizer
  | configure config => exact reset_sound { sizer with config := config }

theorem run_sound (steps : List Step) (sizer : Sizer) (sound : sizer.Sound) : (run steps sizer).1.Sound := by
  induction steps generalizing sizer with
  | nil => exact sound
  | cons step later ih => exact ih (sizer.step step).1 (step_sound sizer sound step)

-- The steps again, with no result where a count would wrap, a divisor is zero, or the published word would
-- not be read back as it was meant.
namespace Strict

def publish (published : Published) (sizer : Sizer) : Option Sizer :=
  if Published.unpack published.pack = published then some (sizer.publish published) else none

def reset (sizer : Sizer) : Option Sizer := publish ⟨0, .sampling⟩ { sizer with sum := 0, count := 0 }

def finishIfReady (sizer : Sizer) : Option (Sizer × List Event) :=
  if sizer.count < sizer.config.maxSamples then some (sizer, [])
  else if sizer.count = 0 then none
  else
    let average := sizer.sum / sizer.count.toUInt64
    let baseline := Saturating.mul average sizer.config.growth.toUInt64 / 100
    if baseline = 0 then (reset sizer).map fun after => (after, [])
    else (publish ⟨baseline, .baseline⟩ sizer).map fun after => (after, [.baselineEstablished baseline sizer.count])

def sample (size : UInt64) (sizer : Sizer) : Option (Sizer × List Event) :=
  if sizer.count.toNat + 1 < 2 ^ 32 then
    finishIfReady { sizer with sum := Saturating.add sizer.sum size, count := sizer.count + 1 }
  else none

def check (size : UInt64) (sizer : Sizer) : Option (Sizer × List Event) :=
  let baseline := sizer.baseline
  if baseline = 0 then some (sizer, [])
  else if deviates baseline size sizer.config.variance then
    (publish ⟨baseline, .sampling⟩ { sizer with sum := size, count := 1 }).bind fun reopened =>
      (finishIfReady reopened).map fun after => (after.1, .sizeDeviated size baseline :: after.2)
  else some (sizer, [])

def update (size : UInt64) (sizer : Sizer) : Option (Sizer × List Event) :=
  match sizer.phase with
  | .sampling => sample size sizer
  | .baseline => check size sizer

def step (sizer : Sizer) : Step → Option (Sizer × List Event)
  | .update size => update size sizer
  | .reset => (reset sizer).map fun after => (after, [])
  | .configure config => (reset { sizer with config := config }).map fun after => (after, [])

theorem publish_exact (published : Published) (sizer : Sizer) (fits : published.baseline.toNat < 2 ^ 63) :
    publish published sizer = some (sizer.publish published) := if_pos (Published.unpack_pack published fits)

theorem reset_exact (sizer : Sizer) : reset sizer = some sizer.reset := publish_exact _ _ (by decide)

theorem finishIfReady_exact (sizer : Sizer) (begun : 0 < sizer.count.toNat) :
    finishIfReady sizer = some sizer.finishIfReady := by
  have counted : sizer.count ≠ 0 := by
    intro zero
    rw [zero] at begun
    exact Nat.lt_irrefl 0 begun
  have established := publish_exact ⟨sizer.forecast, .baseline⟩ sizer (forecast_fits sizer)
  rw [finishIfReady_eq, finishIfReady, if_neg counted, reset_exact]
  change (if _ then _ else if sizer.forecast = 0 then _ else Option.map _ (publish ⟨sizer.forecast, .baseline⟩ sizer)) = _
  rw [established]
  split
  · rfl
  · split <;> rfl

theorem step_exact (sizer : Sizer) (sound : sizer.Sound) (request : Step) :
    step sizer request = some (sizer.step request) := by
  cases request with
  | reset => simp only [step, reset_exact, Option.map_some, Sizer.step]
  | configure config => simp only [step, reset_exact, Option.map_some, Sizer.step, Sizer.configure]
  | update size =>
      change update size sizer = some (sizer.update size)
      cases phase : sizer.phase with
      | sampling =>
          obtain ⟨room, _⟩ := counting_count size sizer sound phase
          rw [update, phase, Sizer.update, phase]
          exact (if_pos room).trans (finishIfReady_exact _ (counting_sampled size sizer sound phase).begun)
      | baseline =>
          have reopening := publish_exact ⟨sizer.baseline, .sampling⟩ { sizer with sum := size, count := 1 } sound.fits
          have finishing := finishIfReady_exact _ (reopened_sampled size sizer sound).begun
          rw [reopened] at finishing
          simp only [update, Sizer.update, phase, check, Sizer.check, reopening, Option.bind_some, finishing]
          split
          · rfl
          · split <;> rfl

end Strict

theorem run_stays_consistent (config : SizerConfig) (steps : List Step) :
    let sizer := (run steps (.ofConfig config)).1
    (sizer.phase = .baseline →
        sizer.count.toNat = sizer.config.runLength ∧
          sizer.baseline.toNat =
            min (sizer.sum.toNat / sizer.count.toNat * sizer.config.growth.toNat) Saturating.limit / 100 ∧
          1 ≤ sizer.baseline.toNat) ∧
      (sizer.phase = .sampling →
        sizer.count.toNat < sizer.config.runLength ∧ (sizer.count = 0 → sizer.sum = 0 ∧ sizer.baseline = 0)) ∧
      (sizer.baseline = 0 → sizer.phase = .sampling) ∧
      sizer.baseline.toNat ≤ Saturating.limit / 100 ∧ Saturating.limit / 100 < 2 ^ 63 ∧
      ∀ request, Strict.step sizer request = some (sizer.step request) := by
  have sound := run_sound steps (.ofConfig config) (ofConfig_sound config)
  refine ⟨?established, sound.unfinished, ?zero, sound.small, largestForecast_fits, Strict.step_exact _ sound⟩
  case established =>
    intro phase
    obtain ⟨complete, baseline, nonzero⟩ := sound.established phase
    refine ⟨complete, ?_, Nat.one_le_iff_ne_zero.mpr fun zero => nonzero (UInt64.toNat_inj.mp zero)⟩
    rw [baseline, forecast_toNat]
  case zero =>
    intro zero
    cases phase : (run steps (.ofConfig config)).1.phase with
    | sampling => rfl
    | baseline => exact absurd zero (sound.established phase).2.2

end Sizer

end Stencil
