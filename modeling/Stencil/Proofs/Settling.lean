import Stencil.Proofs.SizerState

set_option autoImplicit false

namespace Stencil

theorem deviates_iff (predicted actual : UInt64) (percent : UInt32) :
    deviates predicted actual percent = true ↔
      min (predicted.toNat * percent.toNat) Saturating.limit <
        min (((predicted.toNat - actual.toNat) + (actual.toNat - predicted.toNat)) * 100) Saturating.limit := by
  rw [deviates, decide_eq_true_iff, UInt64.lt_iff_toNat_lt, Saturating.toNat_mul, Saturating.toNat_mul,
    Saturating.toNat_distance, UInt32.toNat_toUInt64]
  rfl

theorem Saturating.below_limit (number : Nat) (below : number < 2 ^ 64) : min number limit = number :=
  Nat.min_eq_left (Nat.le_pred_of_lt below)

-- A size that fits its own forecast, and that a whole run can add up without reaching the largest word.
structure SizerConfig.Suits (config : SizerConfig) (size : UInt64) : Prop where
  summed : config.runLength * size.toNat < 2 ^ 64
  grown : size.toNat * config.growth.toNat < 2 ^ 64
  worth : 1 ≤ size.toNat * config.growth.toNat / 100
  near : deviates (UInt64.ofNat (size.toNat * config.growth.toNat / 100)) size config.variance = false

theorem standard_suits (size : UInt64) (positive : 1 ≤ size.toNat) (bounded : size.toNat ≤ Saturating.limit / 115) :
    SizerConfig.standard.Suits size := by
  have growth : SizerConfig.standard.growth.toNat = 115 := rfl
  have variance : SizerConfig.standard.variance.toNat = 20 := rfl
  have length : SizerConfig.standard.runLength = 5 := rfl
  have limit : Saturating.limit = 2 ^ 64 - 1 := rfl
  rw [limit] at bounded
  have forecast : (UInt64.ofNat (size.toNat * 115 / 100)).toNat = size.toNat * 115 / 100 :=
    UInt64.toNat_ofNat_of_lt' (by simp only [UInt64.size]; omega)
  refine ⟨?summed, ?grown, ?worth, ?near⟩
  case summed => rw [length]; omega
  case grown => rw [growth]; omega
  case worth => rw [growth]; omega
  case near =>
    rw [growth, ← Bool.not_eq_true, deviates_iff, forecast, variance, limit]
    omega

namespace Sizer

structure Settled (size : UInt64) (sizer : Sizer) : Prop where
  established : sizer.phase = .baseline
  near : deviates sizer.baseline size sizer.config.variance = false

structure Even (size : UInt64) (sizer : Sizer) : Prop where
  sampling : sizer.phase = .sampling
  sum : sizer.sum.toNat = sizer.count.toNat * size.toNat

-- So many more updates with the size are enough to settle. A run that has seen other sizes may have to be
-- followed by an even one.
inductive Due (size : UInt64) (left : Nat) (sizer : Sizer) : Prop where
  | settled : sizer.Settled size → Due size left sizer
  | even : sizer.Even size → sizer.config.runLength ≤ sizer.count.toNat + left → Due size left sizer
  | stale : sizer.phase = .baseline → sizer.config.runLength ≤ left → Due size left sizer
  | mixed : sizer.phase = .sampling → 2 * sizer.config.runLength ≤ sizer.count.toNat + left → Due size left sizer

theorem runLength_pos (config : SizerConfig) : 0 < config.runLength :=
  Nat.lt_of_lt_of_le Nat.one_pos (Nat.le_max_left 1 config.maxSamples.toNat)

theorem due_twice (size : UInt64) (left : Nat) (sizer : Sizer) (enough : 2 * sizer.config.runLength ≤ left) :
    Due size left sizer := by
  cases phase : sizer.phase with
  | sampling => exact .mixed phase (Nat.le_add_left_of_le enough)
  | baseline => exact .stale phase (Nat.le_trans (Nat.le_mul_of_pos_left _ Nat.two_pos) enough)

theorem due_nothing (size : UInt64) (sizer : Sizer) (sound : sizer.Sound) (due : Due size 0 sizer) :
    sizer.Settled size := by
  have positive := runLength_pos sizer.config
  cases due with
  | settled settled => exact settled
  | even even enough =>
      have short := (sound.unfinished even.sampling).1
      omega
  | stale established enough => omega
  | mixed sampling enough =>
      have short := (sound.unfinished sampling).1
      omega

theorem even_forecast (size : UInt64) (sizer : Sizer) (suits : sizer.config.Suits size) (even : sizer.Even size)
    (begun : 0 < sizer.count.toNat) : sizer.forecast.toNat = size.toNat * sizer.config.growth.toNat / 100 := by
  have average : sizer.sum.toNat / sizer.count.toNat = size.toNat := by
    rw [even.sum]
    exact Nat.mul_div_cancel_left _ begun
  rw [forecast_toNat, average, Saturating.below_limit _ suits.grown]

theorem even_finish (size : UInt64) (sizer : Sizer) (suits : sizer.config.Suits size) (even : sizer.Even size)
    (sampled : sizer.Sampled) (left : Nat) (enough : sizer.config.runLength ≤ sizer.count.toNat + left) :
    Due size left sizer.finishIfReady.1 := by
  have forecast := even_forecast size sizer suits even sampled.begun
  rcases finish_cases sizer sampled with ⟨_, same⟩ | ⟨_, ⟨nothing, _⟩ | ⟨_, same⟩⟩
  · rw [same]
    exact .even even enough
  · have worth := suits.worth
    rw [← forecast, nothing] at worth
    exact absurd worth (Nat.not_succ_le_zero 0)
  · have near := suits.near
    rw [← forecast, UInt64.ofNat_toNat] at near
    rw [same]
    refine .settled ⟨phase_publish _ _ (forecast_fits sizer), ?_⟩
    rw [baseline_publish _ _ (forecast_fits sizer)]
    exact near

theorem mixed_finish (size : UInt64) (sizer : Sizer) (sampled : sizer.Sampled) (left : Nat)
    (enough : 2 * sizer.config.runLength ≤ sizer.count.toNat + left) : Due size left sizer.finishIfReady.1 := by
  rcases finish_cases sizer sampled with ⟨_, same⟩ | ⟨complete, ⟨_, same⟩ | ⟨_, same⟩⟩ <;> rw [same]
  · exact .mixed sampled.sampling enough
  · have fresh : sizer.reset.sum.toNat = sizer.reset.count.toNat * size.toNat := (Nat.zero_mul _).symm
    refine .even ⟨phase_reset sizer, fresh⟩ ?_
    change sizer.config.runLength ≤ 0 + left
    omega
  · refine .stale (phase_publish _ _ (forecast_fits sizer)) ?_
    change sizer.config.runLength ≤ left
    omega

theorem counting_even (size : UInt64) (sizer : Sizer) (sound : sizer.Sound) (suits : sizer.config.Suits size)
    (even : sizer.Even size) : (sizer.counting size).Even size := by
  obtain ⟨_, count⟩ := counting_count size sizer sound even.sampling
  have short := (sound.unfinished even.sampling).1
  have product : (sizer.count.toNat + 1) * size.toNat ≤ sizer.config.runLength * size.toNat :=
    Nat.mul_le_mul_right _ short
  have total : sizer.sum.toNat + size.toNat = (sizer.count.toNat + 1) * size.toNat := by
    rw [even.sum, Nat.succ_mul]
  refine ⟨even.sampling, ?_⟩
  rw [count]
  change (Saturating.add sizer.sum size).toNat = _
  rw [Saturating.toNat_add, total]
  exact Saturating.below_limit _ (Nat.lt_of_le_of_lt product suits.summed)

theorem reopened_even (size : UInt64) (sizer : Sizer) (sound : sizer.Sound) : (sizer.reopened size).Even size :=
  ⟨(reopened_sampled size sizer sound).sampling, (Nat.one_mul size.toNat).symm⟩

theorem settled_update (size : UInt64) (sizer : Sizer) (sound : sizer.Sound) (settled : sizer.Settled size) :
    sizer.update size = (sizer, []) := by
  rcases update_cases size sizer sound with ⟨sampling, _⟩ | ⟨_, ⟨_, same⟩ | ⟨far, _⟩⟩
  · exact absurd (sampling.symm.trans settled.established) (by decide)
  · exact same
  · exact absurd (settled.near.symm.trans far) (by decide)

theorem due_update (size : UInt64) (sizer : Sizer) (sound : sizer.Sound) (suits : sizer.config.Suits size) (left : Nat)
    (due : Due size (left + 1) sizer) : Due size left (sizer.update size).1 := by
  rcases update_cases size sizer sound with ⟨sampling, same⟩ | ⟨established, ⟨near, same⟩ | ⟨far, same⟩⟩ <;> rw [same]
  · obtain ⟨_, count⟩ := counting_count size sizer sound sampling
    have sampled := counting_sampled size sizer sound sampling
    cases due with
    | settled settled => exact absurd (sampling.symm.trans settled.established) (by decide)
    | even even enough =>
        refine even_finish size (sizer.counting size) suits (counting_even size sizer sound suits even) sampled left ?_
        rw [count, Nat.succ_add_eq_add_succ]
        exact enough
    | stale established _ => exact absurd (sampling.symm.trans established) (by decide)
    | mixed _ enough =>
        refine mixed_finish size _ sampled left ?_
        rw [count, Nat.succ_add_eq_add_succ]
        exact enough
  · exact .settled ⟨established, near⟩
  · have sampled := reopened_sampled size sizer sound
    cases due with
    | settled settled => exact absurd (settled.near.symm.trans far) (by decide)
    | even even _ => exact absurd (even.sampling.symm.trans established) (by decide)
    | stale _ enough =>
        refine even_finish size (sizer.reopened size) suits (reopened_even size sizer sound) sampled left ?_
        rw [Nat.add_comm]
        exact enough
    | mixed sampling _ => exact absurd (sampling.symm.trans established) (by decide)

theorem finish_config (sizer : Sizer) : sizer.finishIfReady.1.config = sizer.config := by
  rw [finishIfReady_eq]
  split
  · rfl
  · split <;> rfl

theorem update_config (size : UInt64) (sizer : Sizer) : (sizer.update size).1.config = sizer.config := by
  unfold update sample check
  cases sizer.phase with
  | sampling => exact finish_config _
  | baseline =>
      simp only
      split
      · rfl
      · split
        · exact finish_config _
        · rfl

def feed (size : UInt64) (times : Nat) (sizer : Sizer) : Sizer := (run (List.replicate times (.update size)) sizer).1

theorem feed_succ (size : UInt64) (times : Nat) (sizer : Sizer) :
    feed size (times + 1) sizer = feed size times (sizer.update size).1 := rfl

theorem feed_settled (size : UInt64) (times : Nat) (sizer : Sizer) (sound : sizer.Sound) (settled : sizer.Settled size) :
    feed size times sizer = sizer := by
  induction times with
  | zero => rfl
  | succ times ih => rw [feed_succ, settled_update size sizer sound settled, ih]

theorem feed_settles (size : UInt64) (times : Nat) (sizer : Sizer) (sound : sizer.Sound)
    (suits : sizer.config.Suits size) (due : Due size times sizer) :
    (feed size times sizer).Sound ∧ (feed size times sizer).Settled size := by
  induction times generalizing sizer with
  | zero => exact ⟨sound, due_nothing size sizer sound due⟩
  | succ times ih =>
      rw [feed_succ]
      refine ih _ (update_sound size sizer sound) ?_ (due_update size sizer sound suits times due)
      rw [update_config]
      exact suits

theorem run_config (steps : List Step) (sizer : Sizer)
    (untouched : ∀ step ∈ steps, ∀ config, step ≠ .configure config) : (run steps sizer).1.config = sizer.config := by
  induction steps generalizing sizer with
  | nil => rfl
  | cons step later ih =>
      have stepped : (sizer.step step).1.config = sizer.config := by
        cases step with
        | update size => exact update_config size sizer
        | reset => rfl
        | configure config => exact absurd rfl (untouched _ List.mem_cons_self config)
      rw [← stepped]
      exact ih _ fun other member => untouched other (List.mem_cons_of_mem step member)

theorem steady_load_settles (config : SizerConfig) (history : List Step) (size : UInt64)
    (untouched : ∀ step ∈ history, ∀ other, step ≠ .configure other) (suits : config.Suits size) :
    let settled := feed size (2 * config.runLength) (run history (.ofConfig config)).1
    settled.phase = .baseline ∧ (∀ more, feed size more settled = settled) ∧
      ∀ other : UInt64, 1 ≤ other.toNat → other.toNat ≤ Saturating.limit / 115 → SizerConfig.standard.Suits other := by
  have sound := run_sound history (.ofConfig config) (ofConfig_sound config)
  have kept : (run history (.ofConfig config)).1.config = config := run_config history (.ofConfig config) untouched
  have due := due_twice size (2 * config.runLength) (run history (.ofConfig config)).1 (by rw [kept])
  obtain ⟨soundAfter, settled⟩ := feed_settles size _ _ sound (by rw [kept]; exact suits) due
  exact ⟨settled.established, fun more => feed_settled size more _ soundAfter settled, standard_suits⟩

def disturbed : Sizer := (run [.update 10, .reset, .update 70, .update 80] (.ofConfig ⟨2, 20, 100⟩)).1

theorem load_after_outlier_settles :
    SizerConfig.Suits ⟨2, 20, 100⟩ 10 ∧ disturbed.baseline = 75 ∧ (feed 10 4 disturbed).phase = .baseline ∧
      feed 10 6 disturbed = feed 10 4 disturbed := by
  have suits : SizerConfig.Suits ⟨2, 20, 100⟩ 10 := ⟨by decide, by decide, by decide, by decide⟩
  have untouched : ∀ step ∈ [Step.update 10, .reset, .update 70, .update 80], ∀ other, step ≠ .configure other := by
    simp
  obtain ⟨phase, fixed, _⟩ := steady_load_settles ⟨2, 20, 100⟩ _ 10 untouched suits
  exact ⟨suits, by decide, phase, fixed 2⟩

end Sizer

end Stencil
