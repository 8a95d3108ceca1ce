import Mathlib.Algebra.Order.Ring.Nat
import Stencil.Proofs.JsonGrammar

set_option autoImplicit false

namespace Stencil.Json.Numeral

def significant (n : Numeral) : Nat := Decimal.value (n.whole ++ n.fraction.getD [])

def power (n : Numeral) : Int :=
  match n.exponent with
  | none => 0
  | some e => if e.negative then -(Decimal.value e.digits : Int) else Decimal.value e.digits

def weight (n : Numeral) : Int := n.power - (n.fraction.getD []).length

-- The exact size of a literal is at most the bound; a negative power of ten is moved to the other side.
def AtMost (n : Numeral) (bound : Nat) : Prop :=
  n.significant * 10 ^ n.weight.toNat ≤ bound * 10 ^ (-n.weight).toNat

def Modest (n : Numeral) : Prop := ∀ e ∈ n.exponent, e.negative = false → Decimal.value e.digits < 2 ^ 31

instance (n : Numeral) (bound : Nat) : Decidable (n.AtMost bound) := inferInstanceAs (Decidable (_ ≤ _))

instance (n : Numeral) : Decidable n.Modest := inferInstanceAs (Decidable (∀ e ∈ n.exponent, _ → _))

def largest : Nat := (Nat.pow 2 53 - 1) * Nat.pow 2 971

def extend (sum : Nat) (digits : List Char) : Nat := digits.foldl (fun sum c => 10 * sum + Decimal.digitValue c) sum

theorem extend_cons (sum : Nat) (c : Char) (rest : List Char) :
    extend sum (c :: rest) = extend (10 * sum + Decimal.digitValue c) rest := List.foldl_cons ..

theorem extend_least (sum : Nat) (digits : List Char) : sum * 10 ^ digits.length ≤ extend sum digits := by
  induction digits generalizing sum with
  | nil => exact Nat.le_of_eq (Nat.mul_one sum)
  | cons c rest ih =>
      calc sum * 10 ^ (rest.length + 1) = 10 * sum * 10 ^ rest.length := by
            rw [Nat.pow_succ, Nat.mul_comm (10 ^ rest.length) 10, ← Nat.mul_assoc, Nat.mul_comm sum 10]
        _ ≤ (10 * sum + Decimal.digitValue c) * 10 ^ rest.length := Nat.mul_le_mul_right _ (Nat.le_add_right _ _)
        _ ≤ extend sum (c :: rest) := ih _

theorem value_append (front back : List Char) : Decimal.value (front ++ back) = extend (Decimal.value front) back :=
  List.foldl_append

-- Either every digit before the point fits, or some digit is the first not to and counts with all later ones as a power.
theorem addWhole_cases (sum : Nat) (digits : List Char) (decimal : ∀ c ∈ digits, Decimal.digitValue c ≤ 9) :
    addWhole sum digits = ⟨extend sum digits, 0⟩ ∨
      ∃ kept dropped first, addWhole sum digits = ⟨kept, (dropped + 1 : Nat)⟩ ∧ first ≤ 9 ∧
        UInt64.size ≤ 10 * kept + first ∧ (10 * kept + first) * 10 ^ dropped ≤ extend sum digits := by
  induction digits generalizing sum with
  | nil => exact .inl rfl
  | cons c rest ih =>
      rw [addWhole, extend_cons]
      by_cases fits : 10 * sum + Decimal.digitValue c < UInt64.size
      · rw [if_pos fits]
        exact ih _ fun digit member => decimal digit (List.mem_cons_of_mem c member)
      · rw [if_neg fits]
        refine .inr ⟨sum, rest.length, Decimal.digitValue c, rfl, decimal c List.mem_cons_self, Nat.le_of_not_lt fits, ?_⟩
        exact extend_least _ rest

theorem addFraction_below (s : Scaled) (digits : List Char) :
    ∃ used ≤ digits.length, (addFraction s digits).scale = s.scale - used ∧
      (addFraction s digits).significand * 10 ^ (digits.length - used) ≤ extend s.significand digits := by
  induction digits generalizing s with
  | nil => exact ⟨0, Nat.le_refl 0, (Int.sub_zero s.scale).symm, Nat.le_of_eq (Nat.mul_one s.significand)⟩
  | cons c rest ih =>
      rw [addFraction, extend_cons]
      by_cases fits : 10 * s.significand + Decimal.digitValue c < UInt64.size
      · rw [if_pos fits]
        obtain ⟨used, within, scale, below⟩ := ih ⟨10 * s.significand + Decimal.digitValue c, s.scale - 1⟩
        refine ⟨used + 1, Nat.succ_le_succ within, by simp only [scale]; omega, ?_⟩
        rw [List.length_cons, Nat.add_sub_add_right]
        exact below
      · rw [if_neg fits]
        exact ⟨0, Nat.zero_le _, (Int.sub_zero s.scale).symm, extend_least s.significand (c :: rest)⟩

theorem addFraction_full (s : Scaled) (digits : List Char) (full : UInt64.size ≤ 10 * s.significand) :
    addFraction s digits = s := by
  cases digits with
  | nil => rfl
  | cons c rest => rw [addFraction, if_neg (by omega)]

-- Once a digit before the point did not fit, at most one smaller digit after the point is still taken.
theorem addFraction_over (s : Scaled) (digits : List Char) (first : Nat) (small : first ≤ 9)
    (full : UInt64.size ≤ 10 * s.significand + first) :
    addFraction s digits = s ∨
      ((addFraction s digits).scale = s.scale - 1 ∧ (addFraction s digits).significand ≤ 10 * s.significand + first) := by
  cases digits with
  | nil => exact .inl rfl
  | cons c rest =>
      rw [addFraction]
      by_cases fits : 10 * s.significand + Decimal.digitValue c < UInt64.size
      · have size : UInt64.size = 18446744073709551616 := rfl
        have stops := addFraction_full ⟨10 * s.significand + Decimal.digitValue c, s.scale - 1⟩ rest (by
          simp only
          omega)
        rw [if_pos fits, stops]
        exact .inr ⟨rfl, by simp only; omega⟩
      · rw [if_neg fits]
        exact .inl rfl

theorem scaled_below (n : Numeral) (decimal : ∀ c ∈ n.whole, Decimal.digitValue c ≤ 9) :
    0 ≤ n.scaled.scale + (n.fraction.getD []).length ∧
      n.scaled.significand * 10 ^ (n.scaled.scale + (n.fraction.getD []).length).toNat ≤ n.significant := by
  rw [significant, value_append, scaled]
  generalize n.fraction.getD [] = fraction
  rcases addWhole_cases 0 n.whole decimal with exact | ⟨kept, dropped, first, capped, small, full, total⟩
  · obtain ⟨used, within, scale, below⟩ := addFraction_below ⟨extend 0 n.whole, 0⟩ fraction
    have remaining : (0 - (used : Int) + fraction.length).toNat = fraction.length - used := by omega
    rw [exact, scale]
    dsimp only at below ⊢
    rw [remaining]
    exact ⟨by omega, below⟩
  · have spread : (10 * kept + first) * 10 ^ (dropped + fraction.length) ≤ extend (Decimal.value n.whole) fraction :=
      calc (10 * kept + first) * 10 ^ (dropped + fraction.length)
          = (10 * kept + first) * 10 ^ dropped * 10 ^ fraction.length := by rw [Nat.pow_add, Nat.mul_assoc]
        _ ≤ extend 0 n.whole * 10 ^ fraction.length := Nat.mul_le_mul_right _ total
        _ ≤ extend (Decimal.value n.whole) fraction := extend_least _ fraction
    rw [capped]
    rcases addFraction_over ⟨kept, (dropped + 1 : Nat)⟩ fraction first small full with same | ⟨scale, taken⟩
    · rw [same]
      dsimp only
      have remaining : (((dropped + 1 : Nat) : Int) + fraction.length).toNat = dropped + fraction.length + 1 := by omega
      refine ⟨by omega, ?_⟩
      rw [remaining, Nat.pow_succ, Nat.mul_comm _ 10, ← Nat.mul_assoc, Nat.mul_comm kept 10]
      exact Nat.le_trans (Nat.mul_le_mul_right _ (Nat.le_add_right _ _)) spread
    · have remaining : (((dropped + 1 : Nat) : Int) - 1 + fraction.length).toNat = dropped + fraction.length := by omega
      rw [scale]
      dsimp only at taken ⊢
      rw [remaining]
      exact ⟨by omega, Nat.le_trans (Nat.mul_le_mul_right _ taken) spread⟩

theorem round53_le (n : Nat) : 2 ^ 53 * round53 n ≤ (2 ^ 53 + 1) * n := by
  -- Rounding adds at most half of a unit, and a unit is at most the 2^52-th part of the number.
  have fine : Nat.pow 2 (n.log2 + 1 - 53) = 1 ∨ 2 ^ 52 * Nat.pow 2 (n.log2 + 1 - 53) ≤ n := by
    by_cases short : n.log2 + 1 ≤ 53
    · exact .inl (by rw [Nat.sub_eq_zero_of_le short])
    · have positive : n ≠ 0 := by
        rintro rfl
        contradiction
      have exponents : 52 + (n.log2 + 1 - 53) = n.log2 := by omega
      refine .inr ?_
      rw [Nat.pow_eq, ← Nat.pow_add, exponents]
      exact Nat.log2_self_le positive
  have parts := Nat.div_add_mod n (Nat.pow 2 (n.log2 + 1 - 53))
  have positive : 0 < Nat.pow 2 (n.log2 + 1 - 53) := Nat.pow_pos (by decide)
  unfold round53
  generalize Nat.pow 2 (n.log2 + 1 - 53) = unit at fine parts positive ⊢
  dsimp only
  rw [Nat.mul_comm unit] at parts
  split
  · rename_i up
    have half : unit ≤ 2 * (n % unit) ∧ 0 < n % unit := by
      simp only [Bool.or_eq_true, Bool.and_eq_true, decide_eq_true_eq, beq_iff_eq] at up
      omega
    have whole : unit ≠ 1 := by
      rintro rfl
      rw [Nat.mod_one] at half
      exact absurd half.2 (Nat.lt_irrefl 0)
    have share := fine.resolve_left whole
    rw [Nat.succ_mul (n / unit)]
    omega
  · omega

theorem product_below (unit more front front' back back' product : Nat) (left : unit * front' ≤ more * front)
    (right : unit * back' ≤ more * back) (outer : unit * product ≤ more * (front' * back')) :
    unit * unit * unit * product ≤ more * more * more * (front * back) :=
  calc unit * unit * unit * product
      = unit * unit * (unit * product) := by rw [Nat.mul_assoc (unit * unit)]
    _ ≤ unit * unit * (more * (front' * back')) := Nat.mul_le_mul_left _ outer
    _ = more * (unit * front' * (unit * back')) := by ac_rfl
    _ ≤ more * (more * front * (more * back)) := Nat.mul_le_mul_left _ (Nat.mul_le_mul left right)
    _ = more * more * more * (front * back) := by ac_rfl

-- Up to here, rounding three times does not carry a product beyond the largest double.
def safe : Nat := 1797693134862315 * Nat.pow 10 293

def Safe (n : Numeral) : Prop := n.AtMost safe ∧ n.Modest

instance (n : Numeral) : Decidable n.Safe := inferInstanceAs (Decidable (_ ∧ _))

theorem product_finite (front back : Nat) (small : front * back ≤ safe) :
    round53 (round53 front * round53 back) < Nat.pow 2 1024 := by
  have below := product_below (2 ^ 53) (2 ^ 53 + 1) front _ back _ _ (round53_le front) (round53_le back)
    (round53_le (round53 front * round53 back))
  have room : (2 ^ 53 + 1) * (2 ^ 53 + 1) * (2 ^ 53 + 1) * safe < 2 ^ 53 * 2 ^ 53 * 2 ^ 53 * Nat.pow 2 1024 := by
    decide +kernel
  exact Nat.lt_of_mul_lt_mul_left
    (Nat.lt_of_le_of_lt below (Nat.lt_of_le_of_lt (Nat.mul_le_mul_left _ small) room))

theorem scaled_finite (s : Scaled) (small : 0 ≤ s.scale → s.significand * 10 ^ s.scale.toNat ≤ safe) :
    s.finite = true := by
  unfold Scaled.finite
  split
  · rfl
  · rename_i kept
    simp only [Bool.or_eq_true, decide_eq_true_eq, not_or, Int.not_lt] at kept
    have bound := small kept.2
    have near : ¬ 308 < s.scale := by
      intro far
      have beyond : ∀ least, safe < 10 ^ least → least ≤ s.scale.toNat → safe < 10 ^ s.scale.toNat :=
        fun least above within => Nat.lt_of_lt_of_le above (Nat.pow_le_pow_right (by decide) within)
      have factor := Nat.le_mul_of_pos_left (10 ^ s.scale.toNat) (Nat.pos_of_ne_zero kept.1)
      exact Nat.not_lt_of_le (Nat.le_trans factor bound) (beyond 309 (by decide +kernel) (by omega))
    rw [if_neg near]
    exact decide_eq_true (product_finite s.significand (Nat.pow 10 s.scale.toNat) bound)

-- The bound carries over from the literal to what is kept of it, unless its power of ten is negative.
theorem scaled_small (n : Numeral) (bound : Nat) (decimal : ∀ c ∈ n.whole, Decimal.digitValue c ≤ 9)
    (small : n.AtMost bound) (upward : 0 ≤ n.scaled.scale + n.power) :
    n.scaled.significand * 10 ^ (n.scaled.scale + n.power).toNat ≤ bound := by
  obtain ⟨nonnegative, below⟩ := scaled_below n decimal
  have exponents : (n.scaled.scale + n.power).toNat + (-n.weight).toNat =
      (n.scaled.scale + (n.fraction.getD []).length).toNat + n.weight.toNat := by
    unfold weight
    omega
  refine Nat.le_of_mul_le_mul_right ?_ (Nat.pow_pos (n := (-n.weight).toNat) (show 0 < 10 by decide))
  calc n.scaled.significand * 10 ^ (n.scaled.scale + n.power).toNat * 10 ^ (-n.weight).toNat
      = n.scaled.significand * 10 ^ (n.scaled.scale + (n.fraction.getD []).length).toNat * 10 ^ n.weight.toNat := by
        rw [Nat.mul_assoc, ← Nat.pow_add, exponents, Nat.pow_add, ← Nat.mul_assoc]
    _ ≤ n.significant * 10 ^ n.weight.toNat := Nat.mul_le_mul_right _ below
    _ ≤ bound * 10 ^ (-n.weight).toNat := small

theorem finite_small (n : Numeral) (decimal : ∀ c ∈ n.whole, Decimal.digitValue c ≤ 9) (small : n.AtMost safe)
    (modest : n.Modest) : n.finite = true := by
  have kept := scaled_small n safe decimal small
  unfold power at kept
  unfold finite
  dsimp only
  cases written : n.exponent with
  | none =>
      simp only [written, Int.add_zero] at kept
      exact scaled_finite n.scaled kept
  | some e =>
      simp only [written] at kept
      dsimp only
      split
      · refine scaled_finite _ ?_
        dsimp only
        cases negative : e.negative with
        | true =>
            simp only [negative, if_true] at kept ⊢
            exact kept
        | false =>
            simp only [negative, Bool.false_eq_true, if_false] at kept ⊢
            exact kept
      · rename_i long
        cases negative : e.negative with
        | true => rfl
        | false => exact absurd (modest e written negative) long

theorem digitValue_le (c : Char) (digit : c.isDigit = true) : Decimal.digitValue c ≤ 9 := by
  have bound : c.toNat ≤ 57 := by
    simp only [Char.isDigit, Bool.and_eq_true, decide_eq_true_eq] at digit
    exact digit.2
  rw [Decimal.digitValue]
  omega

theorem finite_spelled (n : Numeral) (chars : List Char) (spelled : SpellsNumeral n chars) (ranged : n.Safe) :
    n.finite = true := by
  refine finite_small n ?_ ranged.1 ranged.2
  cases spelled with
  | intro _ _ _ _ _ _ run => exact fun c member => digitValue_le c (run.2 c member)

end Stencil.Json.Numeral
