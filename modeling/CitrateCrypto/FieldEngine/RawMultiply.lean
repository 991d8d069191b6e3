import CitrateCrypto.FieldEngine.Ops
import Mathlib.Tactic.Ring

namespace CitrateCrypto.FieldEngine

/-- `a <<= 1; if a & 0x100: a ^= 0x11b`, the doubling of `a` in a round of `_multiply_raw`. -/
def xtime (a : ℕ) : ℕ :=
  let a := a <<< 1
  if a &&& 0x100 ≠ 0 then a ^^^ 0x11b else a

theorem multiplyRawLoop_succ (fuel result a : ℕ) {b : ℕ} (hb : b ≠ 0) :
    multiplyRawLoop (fuel + 1) result a b =
      multiplyRawLoop fuel (if b &&& 1 ≠ 0 then result ^^^ a else result) (xtime a) (b >>> 1) := by
  rw [multiplyRawLoop, if_neg hb]
  rfl

set_option maxRecDepth 10000 in
theorem mulThree_eq_xtime_xor : ∀ a < 256, mulThree a = xtime a ^^^ a := by decide

set_option maxRecDepth 10000 in
theorem eq_bit_xor_xtime : ∀ b < 256, b = (if b &&& 1 ≠ 0 then 1 else 0) ^^^ xtime (b >>> 1) := by
  decide

theorem shiftRight_one_lt {b : ℕ} (hb : b < 256) : b >>> 1 < 256 := by
  rw [Nat.shiftRight_eq_div_pow]
  omega

namespace GF

/-- The generator of the tables. -/
def three : GF := ⟨3, by decide⟩

/-- The root `x` of `0x11b`. -/
def two : GF := ⟨2, by decide⟩

theorem val_three_mul (x : GF) : (three * x).val = mulThree x.val := by
  rw [val_mul_of_ne_zero (by decide)]
  rfl

theorem val_two_mul (x : GF) : (two * x).val = xtime x.val := by
  rw [show two = three + 1 from rfl, add_mul, one_mul, val_add, val_three_mul,
    mulThree_eq_xtime_xor _ x.lt, Nat.xor_assoc, Nat.xor_self, Nat.xor_zero]

theorem eq_bit_add_two_mul (b : GF) :
    b = (if b.val &&& 1 ≠ 0 then 1 else 0) + two * ⟨b.val >>> 1, shiftRight_one_lt b.lt⟩ := by
  ext
  rw [val_add, val_two_mul, apply_ite GF.val, val_one, val_zero]
  exact eq_bit_xor_xtime b.val b.lt

theorem val_add_bit_mul (r a : GF) (c : Prop) [Decidable c] :
    (r + (if c then 1 else 0) * a).val = if c then r.val ^^^ a.val else r.val := by
  split <;> simp

theorem multiplyRawLoop_val : ∀ (fuel : ℕ) (r a b : GF), b.val ≤ fuel →
    multiplyRawLoop fuel r.val a.val b.val = (r + a * b).val
  | 0, r, a, b, hb => by
    rw [(eq_zero_iff b).mpr (by omega), mul_zero, add_zero]
    rfl
  | fuel + 1, r, a, b, hb => by
    by_cases h0 : b = 0
    · rw [h0, mul_zero, add_zero]
      rfl
    have hhalf : b.val >>> 1 ≤ fuel := by
      have := (eq_zero_iff b).not.mp h0
      rw [Nat.shiftRight_eq_div_pow]
      omega
    rw [multiplyRawLoop_succ _ _ _ ((eq_zero_iff b).not.mp h0), ← val_add_bit_mul, ← val_two_mul,
      multiplyRawLoop_val fuel _ _ ⟨b.val >>> 1, shiftRight_one_lt b.lt⟩ hhalf]
    conv_rhs => rw [eq_bit_add_two_mul b]
    congr 1
    ring

theorem multiplyRaw_val (a b : GF) : multiplyRaw a.val b.val = (a * b).val := by
  have h := multiplyRawLoop_val b.val 0 a b le_rfl
  rw [val_zero, zero_add] at h
  rw [multiplyRaw, h]
  exact Nat.and_pow_two_sub_one_of_lt_two_pow (n := 8) (a * b).lt

end GF

namespace GF256

theorem multiply_eq_multiplyRaw (a b : GF) : multiply a.val b.val = .ok (multiplyRaw a.val b.val) := by
  rw [multiply_val, GF.multiplyRaw_val]

end GF256

end CitrateCrypto.FieldEngine
