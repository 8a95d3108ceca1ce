set_option autoImplicit false

namespace Stencil.Saturating

def limit : Nat := 0xFFFFFFFFFFFFFFFF

def ofNat (n : Nat) : UInt64 := UInt64.ofNat (min n limit)

def add (a b : UInt64) : UInt64 := ofNat (a.toNat + b.toNat)

def mul (a b : UInt64) : UInt64 := ofNat (a.toNat * b.toNat)

def distance (a b : UInt64) : UInt64 := if a < b then b - a else a - b

theorem toNat_ofNat (n : Nat) : (ofNat n).toNat = min n limit := by
  have bound : min n limit < 2 ^ 64 := by simp only [limit]; omega
  simp only [ofNat, UInt64.toNat_ofNat']
  exact Nat.mod_eq_of_lt bound

theorem toNat_add (a b : UInt64) : (add a b).toNat = min (a.toNat + b.toNat) limit := toNat_ofNat _

theorem toNat_mul (a b : UInt64) : (mul a b).toNat = min (a.toNat * b.toNat) limit := toNat_ofNat _

theorem toNat_distance (a b : UInt64) :
    (distance a b).toNat = (a.toNat - b.toNat) + (b.toNat - a.toNat) := by
  unfold distance
  split
  · rename_i less
    have : a.toNat < b.toNat := less
    rw [UInt64.toNat_sub_of_le _ _ (by simp only [UInt64.le_iff_toNat_le]; omega)]
    omega
  · rename_i notLess
    have : ¬ a.toNat < b.toNat := notLess
    rw [UInt64.toNat_sub_of_le _ _ (by simp only [UInt64.le_iff_toNat_le]; omega)]
    omega

end Stencil.Saturating
