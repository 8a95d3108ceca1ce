set_option autoImplicit false

namespace Stencil.Decimal

def digit (n : Nat) : Char := Char.ofNat (48 + n)

def digitValue (c : Char) : Nat := c.toNat - 48

def digits (n : Nat) : List Char :=
  if n < 10 then [digit n] else digits (n / 10) ++ [digit (n % 10)]
termination_by n
decreasing_by omega

def value (chars : List Char) : Nat := chars.foldl (fun sum c => 10 * sum + digitValue c) 0

theorem digitValue_digit (n : Nat) (small : n < 10) : digitValue (digit n) = n := by
  have all : ∀ k : Fin 10, digitValue (digit k.val) = k.val := by decide
  exact all ⟨n, small⟩

theorem digit_isDigit (n : Nat) (small : n < 10) : (digit n).isDigit = true := by
  have all : ∀ k : Fin 10, (digit k.val).isDigit = true := by decide
  exact all ⟨n, small⟩

theorem value_snoc (chars : List Char) (c : Char) : value (chars ++ [c]) = 10 * value chars + digitValue c := by
  simp [value]

theorem value_digits (n : Nat) : value (digits n) = n := by
  induction n using Nat.strongRecOn with
  | ind n ih =>
      rw [digits]
      by_cases small : n < 10
      · simp [small, value, digitValue_digit n small]
      · rw [if_neg small, value_snoc, ih (n / 10) (by omega), digitValue_digit _ (by omega)]
        omega

theorem digits_all_isDigit (n : Nat) : ∀ c ∈ digits n, c.isDigit = true := by
  induction n using Nat.strongRecOn with
  | ind n ih =>
      intro c member
      rw [digits] at member
      by_cases small : n < 10
      · rw [if_pos small] at member
        rw [List.mem_singleton.mp member]
        exact digit_isDigit n small
      · rw [if_neg small, List.mem_append] at member
        cases member with
        | inl front => exact ih (n / 10) (by omega) c front
        | inr last =>
            rw [List.mem_singleton.mp last]
            exact digit_isDigit _ (by omega)

end Stencil.Decimal
