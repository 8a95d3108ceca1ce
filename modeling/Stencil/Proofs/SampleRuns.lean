import Stencil.Proofs.Settling

set_option autoImplicit false

namespace Stencil

def total (sizes : List UInt64) : Nat := (sizes.map UInt64.toNat).sum

def SizerConfig.estimate (config : SizerConfig) (sizes : List UInt64) : Nat :=
  min (min (total sizes) Saturating.limit / config.runLength * config.growth.toNat) Saturating.limit / 100

theorem total_append (left right : List UInt64) : total (left ++ right) = total left + total right := by
  rw [total, List.map_append, List.sum_append]
  rfl

theorem total_perm (left right : List UInt64) (same : left.Perm right) : total left = total right :=
  (same.map UInt64.toNat).sum_nat

theorem Saturating.ofNat_toNat (word : UInt64) : ofNat word.toNat = word := by
  rw [← UInt64.toNat_inj, toNat_ofNat, below_limit word.toNat word.toNat_lt]

theorem Saturating.add_ofNat (number : Nat) (word : UInt64) : add (ofNat number) word = ofNat (number + word.toNat) := by
  rw [← UInt64.toNat_inj, toNat_add, toNat_ofNat, toNat_ofNat]
  omega

theorem SizerConfig.estimate_small (config : SizerConfig) (sizes : List UInt64) :
    config.estimate sizes ≤ Sizer.largestForecast := Nat.div_le_div_right (Nat.min_le_right _ _)

theorem SizerConfig.runLength_lt (config : SizerConfig) : config.runLength < 2 ^ 32 :=
  Nat.max_lt.mpr ⟨by decide, config.maxSamples.toNat_lt⟩

namespace Sizer

inductive Fresh (config : SizerConfig) : Sizer → Prop where
  | built : Fresh config (.ofConfig config)
  | cleared (old : Sizer) : old.config = config → Fresh config old.reset
  | configured (old : Sizer) : Fresh config (old.configure config)

theorem fresh_eq (config : SizerConfig) (sizer : Sizer) (fresh : Fresh config sizer) : sizer = .ofConfig config := by
  cases fresh with
  | built => rfl
  | cleared old same => rw [← same]; rfl
  | configured old => rfl

theorem run_append (before later : List Step) (sizer : Sizer) :
    run (before ++ later) sizer =
      ((run later (run before sizer).1).1, (run before sizer).2 ++ (run later (run before sizer).1).2) := by
  induction before generalizing sizer with
  | nil => rfl
  | cons step rest ih => rw [List.cons_append, run, ih, run, List.append_assoc]

theorem run_update (size : UInt64) (sizer : Sizer) : run [.update size] sizer = sizer.update size := by
  rw [run, run, List.append_nil]
  rfl

def gathering (config : SizerConfig) (hint : UInt64) (sizes : List UInt64) : Sizer :=
  ⟨Published.pack ⟨hint, .sampling⟩, Saturating.ofNat (total sizes), UInt32.ofNat sizes.length, config⟩

-- What a run that is complete comes to. A baseline of zero is not served, and leaves no trace of the run.
def concluded (config : SizerConfig) (sizes : List UInt64) : Sizer × List Event :=
  let baseline := UInt64.ofNat (config.estimate sizes)
  if config.estimate sizes = 0 then (.ofConfig config, [])
  else ((gathering config 0 sizes).publish ⟨baseline, .baseline⟩,
    [.baselineEstablished baseline (UInt32.ofNat config.runLength)])

variable (config : SizerConfig) (hint : UInt64) (sizes : List UInt64)

theorem gathering_nothing : gathering config 0 [] = .ofConfig config := rfl

theorem gathering_published (fits : hint.toNat ≤ largestForecast) :
    (gathering config hint sizes).published = ⟨hint, .sampling⟩ :=
  Published.unpack_pack ⟨hint, .sampling⟩ (Nat.lt_of_le_of_lt fits largestForecast_fits)

theorem gathering_count (short : sizes.length ≤ config.runLength) :
    (gathering config hint sizes).count.toNat = sizes.length :=
  UInt32.toNat_ofNat_of_lt' (Nat.lt_of_le_of_lt short config.runLength_lt)

theorem gathering_perm (other : List UInt64) (same : other.Perm sizes) :
    gathering config hint other = gathering config hint sizes := by
  rw [gathering, gathering, total_perm other sizes same, same.length_eq]

theorem counting_gathering (size : UInt64) :
    (gathering config hint sizes).counting size = gathering config hint (sizes ++ [size]) := by
  have sum : Saturating.add (Saturating.ofNat (total sizes)) size = Saturating.ofNat (total (sizes ++ [size])) := by
    rw [Saturating.add_ofNat, total_append]
    rfl
  have count : UInt32.ofNat sizes.length + 1 = UInt32.ofNat (sizes ++ [size]).length := by
    rw [List.length_append, UInt32.ofNat_add]
    rfl
  simp only [counting, gathering, sum, count]

theorem reopened_gathering (size : UInt64) (sizer : Sizer) :
    sizer.reopened size = gathering sizer.config sizer.baseline [size] := by
  have sum : Saturating.ofNat (total [size]) = size := Saturating.ofNat_toNat size
  rw [gathering, sum]
  rfl

theorem gathering_forecast (complete : sizes.length = config.runLength) :
    (gathering config hint sizes).forecast.toNat = config.estimate sizes := by
  rw [forecast_toNat, gathering_count config hint sizes (Nat.le_of_eq complete), complete]
  change min ((Saturating.ofNat (total sizes)).toNat / _ * _) _ / 100 = _
  rw [Saturating.toNat_ofNat]
  rfl

theorem gathering_sampled (fits : hint.toNat ≤ largestForecast) (begun : sizes ≠ [])
    (within : sizes.length ≤ config.runLength) : (gathering config hint sizes).Sampled where
  small := by
    rw [baseline, gathering_published config hint sizes fits]
    exact fits
  sampling := congrArg Published.phase (gathering_published config hint sizes fits)
  begun := by
    rw [gathering_count config hint sizes within]
    exact List.length_pos_iff.mpr begun
  within := by
    rw [gathering_count config hint sizes within]
    exact within

theorem gathering_goes_on (fits : hint.toNat ≤ largestForecast) (begun : sizes ≠ [])
    (short : sizes.length < config.runLength) :
    (gathering config hint sizes).finishIfReady = (gathering config hint sizes, []) := by
  have within := Nat.le_of_lt short
  have count := gathering_count config hint sizes within
  rcases finish_cases _ (gathering_sampled config hint sizes fits begun within) with ⟨_, same⟩ | ⟨complete, _⟩
  · exact same
  · exact absurd (count.symm.trans complete) (Nat.ne_of_lt short)

theorem gathering_concludes (fits : hint.toNat ≤ largestForecast) (complete : sizes.length = config.runLength) :
    (gathering config hint sizes).finishIfReady = concluded config sizes := by
  have begun : sizes ≠ [] := List.length_pos_iff.mp (complete ▸ runLength_pos config)
  have count := gathering_count config hint sizes (Nat.le_of_eq complete)
  have forecast := gathering_forecast config hint sizes complete
  have word : UInt64.ofNat (config.estimate sizes) = (gathering config hint sizes).forecast := by
    rw [← forecast, UInt64.ofNat_toNat]
  rcases finish_cases _ (gathering_sampled config hint sizes fits begun (Nat.le_of_eq complete)) with
    ⟨short, _⟩ | ⟨_, ⟨nothing, same⟩ | ⟨worth, same⟩⟩
  · exact absurd (count.trans complete) (Nat.ne_of_lt short)
  · have zero : config.estimate sizes = 0 := by
      rw [← forecast, nothing]
      rfl
    rw [same, concluded, if_pos zero]
    rfl
  · have nonzero : ¬ config.estimate sizes = 0 := by
      rw [← forecast]
      exact fun zero => worth (UInt64.toNat_inj.mp zero)
    rw [same, concluded, if_neg nonzero, word, ← complete]
    rfl

theorem update_gathering (fits : hint.toNat ≤ largestForecast) (size : UInt64) (short : sizes.length < config.runLength) :
    (gathering config hint sizes).update size =
      if sizes.length + 1 = config.runLength then concluded config (sizes ++ [size])
      else (gathering config hint (sizes ++ [size]), []) := by
  have longer : (sizes ++ [size]).length = sizes.length + 1 := List.length_append
  have sampling : (gathering config hint sizes).phase = .sampling :=
    congrArg Published.phase (gathering_published config hint sizes fits)
  have sampled : (gathering config hint sizes).update size = (gathering config hint (sizes ++ [size])).finishIfReady := by
    rw [update, sampling, ← counting_gathering]
    rfl
  rw [sampled]
  split
  · exact gathering_concludes config hint _ fits (by omega)
  · exact gathering_goes_on config hint _ fits (by simp) (by omega)

theorem run_gathers (fits : hint.toNat ≤ largestForecast) (later : List UInt64)
    (short : sizes.length + later.length < config.runLength) :
    run (later.map .update) (gathering config hint sizes) = (gathering config hint (sizes ++ later), []) := by
  induction later generalizing sizes with
  | nil => rw [List.append_nil]; rfl
  | cons size rest ih =>
      rw [List.length_cons] at short
      have goesOn : ¬ sizes.length + 1 = config.runLength := by omega
      rw [List.map_cons, run, step, update_gathering config hint sizes fits size (by omega), if_neg goesOn, ih]
      · rw [List.append_assoc]
        rfl
      · rw [List.length_append, List.length_singleton]
        omega

theorem run_short (short : sizes.length < config.runLength) :
    run (sizes.map .update) (.ofConfig config) = (gathering config 0 sizes, []) := by
  have gathers := run_gathers config 0 [] (Nat.zero_le _) sizes (by rw [List.length_nil, Nat.zero_add]; exact short)
  rw [gathering_nothing, List.nil_append] at gathers
  exact gathers

theorem run_concludes (complete : sizes.length = config.runLength) :
    run (sizes.map .update) (.ofConfig config) = concluded config sizes := by
  rcases List.eq_nil_or_concat sizes with nothing | ⟨front, last, split⟩
  · rw [nothing] at complete
    exact absurd complete (Nat.ne_of_lt (runLength_pos config))
  · rw [List.concat_eq_append] at split
    rw [split, List.length_append, List.length_singleton] at complete
    have short : front.length < config.runLength := by omega
    rw [split, List.map_append, run_append, run_short config front short, List.map_singleton, run_update,
      update_gathering config 0 front (Nat.zero_le _) last short, if_pos complete]
    rfl

theorem concluded_perm (other : List UInt64) (same : other.Perm sizes) :
    concluded config other = concluded config sizes := by
  have alike : config.estimate other = config.estimate sizes := by
    rw [SizerConfig.estimate, total_perm other sizes same]
    rfl
  rw [concluded, concluded, alike, gathering_perm config 0 sizes other same]

theorem concluded_published (worth : config.estimate sizes ≠ 0) :
    (concluded config sizes).1.published = ⟨UInt64.ofNat (config.estimate sizes), .baseline⟩ ∧
      (UInt64.ofNat (config.estimate sizes)).toNat = config.estimate sizes := by
  have fits : config.estimate sizes < 2 ^ 63 := Nat.lt_of_le_of_lt (config.estimate_small sizes) largestForecast_fits
  have word : (UInt64.ofNat (config.estimate sizes)).toNat = config.estimate sizes :=
    UInt64.toNat_ofNat_of_lt' (Nat.lt_trans fits (by decide))
  refine ⟨?_, word⟩
  rw [concluded, if_neg worth]
  exact published_publish _ _ (by rw [word]; exact fits)

theorem sample_order_lost (config : SizerConfig) (start : Sizer) (fresh : Fresh config start) (sizes : List UInt64)
    (complete : sizes.length = config.runLength) :
    let average := min (total sizes) Saturating.limit / config.runLength
    let baseline := min (average * config.growth.toNat) Saturating.limit / 100
    let after := (run (sizes.map .update) start).1
    (∀ anew (other : List UInt64), Fresh config anew → other.Perm sizes →
        run (other.map .update) anew = run (sizes.map .update) start) ∧
      (1 ≤ baseline →
        after.phase = .baseline ∧ after.baseline.toNat = baseline ∧ after.count.toNat = config.runLength ∧
          after.sum.toNat = min (total sizes) Saturating.limit) ∧
      (baseline = 0 → after.phase = .sampling ∧ after.baseline = 0 ∧ after.count = 0 ∧ after.sum = 0) ∧
      ∀ front later : List UInt64, sizes = front ++ later → later ≠ [] →
        let meanwhile := (run (front.map .update) start).1
        meanwhile.phase = .sampling ∧ meanwhile.baseline = 0 ∧ meanwhile.count.toNat = front.length := by
  have begun : ∀ anew, Fresh config anew → anew = .ofConfig config := fun anew => fresh_eq config anew
  have ends := run_concludes config sizes complete
  rw [begun start fresh, ends]
  refine ⟨?order, ?worth, ?nothing, ?meanwhile⟩
  case order =>
    intro anew other freshAnew same
    rw [begun anew freshAnew, run_concludes config other (same.length_eq.trans complete)]
    exact concluded_perm config sizes other same
  case worth =>
    intro (worth : 1 ≤ config.estimate sizes)
    have nonzero := Nat.one_le_iff_ne_zero.mp worth
    obtain ⟨published, word⟩ := concluded_published config sizes nonzero
    refine ⟨congrArg Published.phase published, ?baseline, ?count, ?sum⟩
    case baseline => exact (congrArg (UInt64.toNat ∘ Published.baseline) published).trans word
    case count =>
      rw [concluded, if_neg nonzero, ← complete]
      exact gathering_count config 0 sizes (Nat.le_of_eq complete)
    case sum =>
      rw [concluded, if_neg nonzero]
      exact Saturating.toNat_ofNat (total sizes)
  case nothing =>
    intro (nothing : config.estimate sizes = 0)
    rw [concluded, if_pos nothing]
    exact ⟨phase_reset (.ofConfig config), baseline_reset (.ofConfig config), rfl, rfl⟩
  case meanwhile =>
    intro front later split remain
    have longer : front.length < config.runLength := by
      rw [← complete, split, List.length_append]
      exact Nat.lt_add_of_pos_right (List.length_pos_iff.mpr remain)
    have published := gathering_published config 0 front (Nat.zero_le _)
    rw [run_short config front longer]
    exact ⟨congrArg Published.phase published, congrArg Published.baseline published,
      gathering_count config 0 front (Nat.le_of_lt longer)⟩

-- The total stops at the largest word, wherever the largest size stands, and a third of it grows beyond that word again.
theorem flooded_run_settles :
    let config : SizerConfig := ⟨3, 20, 115⟩
    let after := (run ([0xFFFFFFFFFFFFFFFF, 7, 9].map .update) (configure config disturbed)).1
    run ([7, 9, 0xFFFFFFFFFFFFFFFF].map .update) (.ofConfig config) =
        run ([0xFFFFFFFFFFFFFFFF, 7, 9].map .update) (configure config disturbed) ∧
      after.phase = .baseline ∧ after.baseline.toNat = Saturating.limit / 100 ∧
      (run ([0xFFFFFFFFFFFFFFFF, 7].map .update) (configure config disturbed)).1.count.toNat = 2 := by
  obtain ⟨order, worth, _, meanwhile⟩ :=
    sample_order_lost ⟨3, 20, 115⟩ (configure ⟨3, 20, 115⟩ disturbed) (.configured disturbed)
      [0xFFFFFFFFFFFFFFFF, 7, 9] (by decide)
  obtain ⟨phase, baseline, _⟩ := worth (by decide)
  obtain ⟨_, _, count⟩ := meanwhile [0xFFFFFFFFFFFFFFFF, 7] [9] rfl (List.cons_ne_nil 9 [])
  exact ⟨order _ [7, 9, 0xFFFFFFFFFFFFFFFF] .built (by decide), phase, baseline.trans (by decide), count⟩

end Sizer

end Stencil
