import Stencil.Proofs.SteadyOutput

set_option autoImplicit false

namespace Stencil

def gap (predicted actual : UInt64) : Nat := ((actual.toNat : Int) - predicted.toNat).natAbs

def Misses (predicted actual : UInt64) (percent : UInt32) : Prop :=
  predicted.toNat * percent.toNat < 100 * gap predicted actual

instance (predicted actual : UInt64) (percent : UInt32) : Decidable (Misses predicted actual percent) :=
  inferInstanceAs (Decidable (_ < _))

theorem deviates_by_gap (predicted actual : UInt64) (percent : UInt32) :
    deviates predicted actual percent = true ↔
      min (predicted.toNat * percent.toNat) Saturating.limit < min (100 * gap predicted actual) Saturating.limit := by
  have distance : (predicted.toNat - actual.toNat) + (actual.toNat - predicted.toNat) = gap predicted actual := by
    unfold gap
    omega
  rw [deviates_iff, distance, Nat.mul_comm (gap predicted actual) 100]

theorem misses_of_deviates (predicted actual : UInt64) (percent : UInt32)
    (deviating : deviates predicted actual percent = true) : Misses predicted actual percent := by
  rw [deviates_by_gap] at deviating
  unfold Misses
  omega

theorem deviates_of_misses (predicted actual : UInt64) (percent : UInt32)
    (room : predicted.toNat * percent.toNat < Saturating.limit) (misses : Misses predicted actual percent) :
    deviates predicted actual percent = true := by
  rw [deviates_by_gap]
  unfold Misses at misses
  omega

theorem deviates_antitone (predicted actual : UInt64) (low high : UInt32) (within : low ≤ high)
    (near : deviates predicted actual low = false) : deviates predicted actual high = false := by
  rw [← Bool.not_eq_true, deviates_iff] at near ⊢
  have scaled : predicted.toNat * low.toNat ≤ predicted.toNat * high.toNat :=
    Nat.mul_le_mul_left _ (UInt32.le_iff_toNat_le.mp within)
  omega

theorem deviates_monotone (predicted near far : UInt64) (percent : UInt32)
    (further : gap predicted near ≤ gap predicted far) (deviating : deviates predicted near percent = true) :
    deviates predicted far percent = true := by
  rw [deviates_by_gap] at deviating ⊢
  omega

theorem sound_allowance_fits (sizer : Sizer) (sound : sizer.Sound) (percent : UInt32)
    (modest : percent.toNat ≤ 100 ∨ sizer.baseline.toNat ≤ 2 ^ 32) :
    sizer.baseline.toNat * percent.toNat < Saturating.limit := by
  rcases modest with hundred | short
  · calc sizer.baseline.toNat * percent.toNat
        ≤ Sizer.largestForecast * 100 := Nat.mul_le_mul sound.small hundred
      _ < Saturating.limit := by decide
  · calc sizer.baseline.toNat * percent.toNat
        ≤ 2 ^ 32 * (2 ^ 32 - 1) := Nat.mul_le_mul short (Nat.le_pred_of_lt percent.toNat_lt)
      _ < Saturating.limit := by decide

theorem sound_deviates_iff (sizer : Sizer) (sound : sizer.Sound) (size : UInt64) (percent : UInt32)
    (modest : percent.toNat ≤ 100 ∨ sizer.baseline.toNat ≤ 2 ^ 32) :
    deviates sizer.baseline size percent = true ↔ Misses sizer.baseline size percent :=
  ⟨misses_of_deviates _ _ _, deviates_of_misses _ _ _ (sound_allowance_fits sizer sound percent modest)⟩

namespace Compiler

theorem reply_sound {σ : Type} (compiler : Compiler) (turn : Turn σ) (sound : compiler.sizer.Sound) :
    (compiler.reply turn).self.sizer.Sound := by
  cases asked : turn.step.root? with
  | some root =>
      have planned : (compiler.planFor turn.pool root turn.world).self.sizer.Sound := by
        cases found : (compiler.planFor turn.pool root turn.world).result with
        | error message =>
            rw [planFor_failed compiler turn.pool root turn.world message found]
            exact sound
        | ok plan =>
            have ready := planFor_prepared compiler turn.pool root turn.world plan found
            generalize (compiler.planFor turn.pool root turn.world).self = prepared at ready ⊢
            cases ready with
            | held _ => exact sound
            | seeded plan seed _ => exact Sizer.update_sound seed compiler.sizer sound
      rw [reply_self compiler turn root asked]
      rcases render_cases compiler turn.pool root turn.world with ⟨_, same⟩ | ⟨_, bytes, _, _, same⟩ <;> rw [same]
      · exact planned
      · rw [noting_eq]
        split
        · exact Sizer.update_sound _ _ planned
        · exact planned
  | none =>
      obtain ⟨step, pool, world⟩ := turn
      cases step with
      | render root => cases asked
      | renderTo root destination => cases asked
      | validate root => exact sound
      | configure config => exact Sizer.reset_sound { compiler.sizer with config := config.sizer }
      | config => exact sound
      | plan => exact sound
      | sizer request => exact Sizer.step_sound compiler.sizer sound request

theorem run_sound {σ : Type} (compiler : Compiler) (turns : List (Turn σ)) (sound : compiler.sizer.Sound) :
    (run compiler turns).sizer.Sound := by
  induction turns generalizing compiler with
  | nil => exact sound
  | cons turn later ih => exact ih (compiler.reply turn).self (reply_sound compiler turn sound)

end Compiler

theorem deviation_test_exact {σ : Type} :
    (∀ predicted actual percent, deviates predicted actual percent = true → Misses predicted actual percent) ∧
      (∀ predicted actual percent, predicted.toNat * percent.toNat < Saturating.limit →
        Misses predicted actual percent → deviates predicted actual percent = true) ∧
      (∀ config steps size percent,
        let baseline := (Sizer.run steps (.ofConfig config)).1.baseline
        percent.toNat ≤ 100 ∨ baseline.toNat ≤ 2 ^ 32 →
          (deviates baseline size percent = true ↔ Misses baseline size percent)) ∧
      (∀ config (turns : List (Compiler.Turn σ)) size percent,
        let baseline := (Compiler.run (.ofConfig config) turns).sizer.baseline
        percent.toNat ≤ 100 ∨ baseline.toNat ≤ 2 ^ 32 →
          (deviates baseline size percent = true ↔ Misses baseline size percent)) ∧
      (∀ predicted actual low high, low ≤ high → deviates predicted actual high = true →
        deviates predicted actual low = true) ∧
      ∀ predicted near far percent, gap predicted near ≤ gap predicted far →
        deviates predicted near percent = true → deviates predicted far percent = true := by
  refine ⟨misses_of_deviates, deviates_of_misses, ?alone, ?serving, ?antitone, deviates_monotone⟩
  case alone =>
    intro config steps size percent baseline modest
    exact sound_deviates_iff _ (Sizer.run_sound steps _ (Sizer.ofConfig_sound config)) size percent modest
  case serving =>
    intro config turns size percent baseline modest
    exact sound_deviates_iff _ (Compiler.run_sound _ turns (Sizer.ofConfig_sound config.sizer)) size percent modest
  case antitone =>
    intro predicted actual low high within deviating
    by_contra near
    rw [Bool.not_eq_true] at near
    exact absurd ((deviates_antitone predicted actual low high within near).symm.trans deviating) (by decide)

-- The largest baseline that there is. From one percent more on, both sides of the test may stop at the largest word.
def loftiest : Sizer := (Sizer.run [.update 0xFFFFFFFFFFFFFFFF] (.ofConfig ⟨1, 20, 0xFFFFFFFF⟩)).1

theorem loftiest_tested_to_a_hundred :
    loftiest.baseline.toNat = Saturating.limit / 100 ∧
      (∀ size, deviates loftiest.baseline size 100 = true ↔ Misses loftiest.baseline size 100) ∧
      deviates loftiest.baseline 0 100 = false ∧ deviates loftiest.baseline 0xFFFFFFFFFFFFFFFF 99 = true ∧
      deviates loftiest.baseline 0xFFFFFFFFFFFFFFFF 101 = false ∧ Misses loftiest.baseline 0xFFFFFFFFFFFFFFFF 101 := by
  have far : Misses loftiest.baseline 0xFFFFFFFFFFFFFFFF 100 := by decide
  obtain ⟨_, converse, alone, _, antitone, _⟩ := deviation_test_exact (σ := Nat)
  have hundred := fun size => alone ⟨1, 20, 0xFFFFFFFF⟩ [.update 0xFFFFFFFFFFFFFFFF] size 100 (Or.inl (by decide))
  have nearly := antitone _ _ 99 100 (by decide) (converse _ _ 100 (by decide) far)
  exact ⟨by decide, hundred, by decide, nearly, by decide, by decide⟩

end Stencil
