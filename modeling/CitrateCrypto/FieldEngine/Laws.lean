import CitrateCrypto.FieldEngine.Ops
import Mathlib.Algebra.GroupWithZero.Basic
import Mathlib.Algebra.Order.Field.Power

namespace CitrateCrypto.FieldEngine

namespace GF

theorem pow_255 {a : GF} (ha : a ≠ 0) : a ^ 255 = 1 := by
  ext
  rw [val_pow_of_ne_zero ha, ← genPow_mod, Nat.mul_mod_left]
  rfl

theorem zpow_emod {a : GF} (ha : a ≠ 0) (e : ℤ) : a ^ e = a ^ (e % 255).toNat := by
  calc a ^ e = a ^ (e % 255 + 255 * (e / 255)) := by rw [Int.emod_add_ediv]
    _ = a ^ (e % 255) * ((a ^ (255 : ℕ)) ^ (e / 255)) := by
      rw [zpow_add₀ ha, zpow_mul, zpow_ofNat]
    _ = a ^ (e % 255).toNat := by
      rw [pow_255 ha, one_zpow, mul_one, ← zpow_natCast,
        Int.toNat_of_nonneg (Int.emod_nonneg e (by decide))]

end GF

namespace GF256

theorem multiply_divide (a b : GF) :
    (divide a.val b.val >>= fun q => multiply q b.val) =
      if b = 0 then throw (.zeroDivisionError "Division by zero in GF(2^8)") else .ok a.val := by
  by_cases hb : b = 0
  · rw [if_pos hb, divide, if_pos (GF.natCast_val_eq_zero.mpr hb)]
    rfl
  · rw [if_neg hb, divide_val a hb, ok_bind, multiply_val, div_mul_cancel₀ a hb]

theorem multiply_inverse (a : GF) :
    (inverse a.val >>= multiply a.val) =
      if a = 0 then throw (.zeroDivisionError "Zero has no inverse in GF(2^8)") else .ok 1 := by
  by_cases ha : a = 0
  · rw [if_pos ha, inverse, if_pos (GF.natCast_val_eq_zero.mpr ha)]
    rfl
  · rw [if_neg ha, inverse_val ha, ok_bind, multiply_val, mul_inv_cancel₀ ha]
    rfl

theorem mul_emod_eq (d : ℕ) (e : ℤ) :
    (d : ℤ) * e % 255 = ((d * (e % 255).toNat % 255 : ℕ) : ℤ) := by
  have hr : ((e % 255).toNat : ℤ) = e % 255 := Int.toNat_of_nonneg (Int.emod_nonneg e (by decide))
  push_cast [hr]
  rw [Int.mul_emod, Int.mul_emod (d : ℤ) (e % 255), Int.emod_emod]

/-- `power(a, exp)` is the field's `a ^ exp` for every byte and every integer exponent; in
particular `power(a, -1)` is `inverse(a)` for `a ≠ 0`, while `power(0, exp)` is `0` for every
`exp ≠ 0`, negative ones included, where `inverse(0)` raises. -/
theorem power_val_zpow (a : GF) (e : ℤ) : power a.val e = .ok (a ^ e).val := by
  by_cases he : e = 0
  · rw [he, zpow_zero]
    rfl
  by_cases ha : a = 0
  · rw [power, if_neg he, if_pos (GF.natCast_val_eq_zero.mpr ha), ha, zero_zpow e he]
    rfl
  rw [power, if_neg he, if_neg (mt GF.natCast_val_eq_zero.mp ha), getItem_logTable ha, ok_bind,
    mul_emod_eq, getItem_expTable (by omega), genPow_mod, GF.zpow_emod ha,
    GF.val_pow_of_ne_zero ha]

end GF256

end CitrateCrypto.FieldEngine
