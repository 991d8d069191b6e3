import CitrateCrypto.FieldEngine.Tables
import Mathlib.Algebra.Field.Defs
import Mathlib.Data.Fintype.Card
import Mathlib.Data.Finset.Card

namespace CitrateCrypto.FieldEngine

/-- Search for `a` among `genPow k, genPow (k + 1), ...`, starting from `x = genPow k`. -/
def dlogFrom (a : ℕ) : ℕ → ℕ → ℕ → ℕ
  | 0, k, _ => k
  | fuel + 1, k, x => if x = a then k else dlogFrom a fuel (k + 1) (mulThree x)

/-- The discrete logarithm to base `3`, the number that `_initialize_tables` stores at `log[a]`. -/
def dlog (a : ℕ) : ℕ := dlogFrom a 255 0 1

theorem dlogFrom_genPow {j : ℕ} (hj : j < 255) :
    ∀ fuel k, k ≤ j → j < k + fuel → dlogFrom (genPow j) fuel k (genPow k) = j
  | 0, k, hk, hf => by omega
  | fuel + 1, k, hk, hf => by
    rw [dlogFrom]
    split
    · next h => exact genPow_injOn (by omega) hj h
    · next h =>
      have hkj : k ≠ j := fun e => h (e ▸ rfl)
      rw [← genPow_succ]
      exact dlogFrom_genPow hj fuel (k + 1) (by omega) (by omega)

theorem dlog_genPow {j : ℕ} (hj : j < 255) : dlog (genPow j) = j :=
  dlogFrom_genPow hj 255 0 (Nat.zero_le j) (by omega)

theorem dlog_genPow_mod (n : ℕ) : dlog (genPow n) = n % 255 := by
  rw [← genPow_mod, dlog_genPow (Nat.mod_lt n (by decide))]

theorem exists_genPow {a : ℕ} (ha0 : a ≠ 0) (ha : a < 256) : ∃ k < 255, genPow k = a := by
  have hcard : ((Finset.range 255).image genPow).card = ((Finset.range 256).erase 0).card := by
    rw [Finset.card_image_of_injOn fun i hi j hj h =>
      genPow_injOn (Finset.mem_range.mp hi) (Finset.mem_range.mp hj) h, Finset.card_range,
      Finset.card_erase_of_mem (Finset.mem_range.mpr (by decide)), Finset.card_range]
  have hsub : (Finset.range 255).image genPow ⊆ (Finset.range 256).erase 0 := fun b hb => by
    obtain ⟨k, -, rfl⟩ := Finset.mem_image.mp hb
    exact Finset.mem_erase.mpr ⟨genPow_ne_zero k, Finset.mem_range.mpr (genPow_lt k)⟩
  have hmem : a ∈ (Finset.range 255).image genPow := by
    rw [Finset.eq_of_subset_of_card_le hsub hcard.ge]
    exact Finset.mem_erase.mpr ⟨ha0, Finset.mem_range.mpr ha⟩
  obtain ⟨k, hk, rfl⟩ := Finset.mem_image.mp hmem
  exact ⟨k, Finset.mem_range.mp hk, rfl⟩

theorem dlog_lt {a : ℕ} (ha0 : a ≠ 0) (ha : a < 256) : dlog a < 255 := by
  obtain ⟨k, hk, rfl⟩ := exists_genPow ha0 ha
  rwa [dlog_genPow hk]

theorem genPow_dlog {a : ℕ} (ha0 : a ≠ 0) (ha : a < 256) : genPow (dlog a) = a := by
  obtain ⟨k, hk, rfl⟩ := exists_genPow ha0 ha
  rw [dlog_genPow hk]

theorem logTable_eq_dlog {a : ℕ} (ha0 : a ≠ 0) (ha : a < 256) : logTable[a]? = some (dlog a) := by
  obtain ⟨k, hk, rfl⟩ := exists_genPow ha0 ha
  rw [dlog_genPow hk, logTable_genPow hk]

theorem expTable_getElem? {i : ℕ} (hi : i < 512) : expTable[i]? = some (genPow i) := by
  rw [expTable_eq, List.getElem?_map, List.getElem?_range hi, Option.map_some', genPow_mod]

theorem iterate_mulThree_zero (n : ℕ) : mulThree^[n] 0 = 0 :=
  Function.iterate_fixed (by decide) n

theorem iterate_mulThree_xor (n : ℕ) {x y : ℕ} (hx : x < 256) (hy : y < 256) :
    mulThree^[n] (x ^^^ y) = mulThree^[n] x ^^^ mulThree^[n] y := by
  induction n generalizing x y with
  | zero => rfl
  | succ n ih =>
    simp only [Function.iterate_succ_apply]
    rw [mulThree_xor hx hy, ih (mulThree_lt x) (mulThree_lt y)]

/-- An element of GF(2^8), held in the byte that stores it. -/
@[ext]
structure GF where
  val : ℕ
  lt : val < 256
deriving DecidableEq

namespace GF

instance : Zero GF := ⟨⟨0, by decide⟩⟩

instance : One GF := ⟨⟨1, by decide⟩⟩

instance : Add GF := ⟨fun a b => ⟨a.val ^^^ b.val, Nat.xor_lt_two_pow (n := 8) a.lt b.lt⟩⟩

instance : Neg GF := ⟨id⟩

instance : Sub GF := ⟨fun a b => a + b⟩

/-- Nonzero elements multiply by adding their logarithms, as `GF256.multiply` does. -/
instance : Mul GF :=
  ⟨fun a b => if a = 0 ∨ b = 0 then 0 else ⟨genPow (dlog a.val + dlog b.val), genPow_lt _⟩⟩

instance : Inv GF := ⟨fun a => if a = 0 then 0 else ⟨genPow (255 - dlog a.val), genPow_lt _⟩⟩

instance : Div GF := ⟨fun a b => a * b⁻¹⟩

instance : Fintype GF :=
  Fintype.ofEquiv (Fin 256) ⟨fun i => ⟨i.val, i.isLt⟩, fun a => ⟨a.val, a.lt⟩, fun _ => rfl,
    fun _ => rfl⟩

@[simp] theorem val_zero : (0 : GF).val = 0 := rfl

@[simp] theorem val_one : (1 : GF).val = 1 := rfl

@[simp] theorem val_add (a b : GF) : (a + b).val = a.val ^^^ b.val := rfl

@[simp] theorem neg_def (a : GF) : -a = a := rfl

@[simp] theorem sub_def (a b : GF) : a - b = a + b := rfl

theorem eq_zero_iff (a : GF) : a = 0 ↔ a.val = 0 := GF.ext_iff

theorem dlog_val_lt {a : GF} (ha : a ≠ 0) : dlog a.val < 255 :=
  dlog_lt ((eq_zero_iff a).not.mp ha) a.lt

theorem mul_def (a b : GF) :
    a * b = if a = 0 ∨ b = 0 then 0 else ⟨genPow (dlog a.val + dlog b.val), genPow_lt _⟩ := rfl

theorem inv_def (a : GF) : a⁻¹ = if a = 0 then 0 else ⟨genPow (255 - dlog a.val), genPow_lt _⟩ :=
  rfl

theorem div_def (a b : GF) : a / b = a * b⁻¹ := rfl

theorem mk_genPow_ne_zero (n : ℕ) : (⟨genPow n, genPow_lt n⟩ : GF) ≠ 0 :=
  fun h => genPow_ne_zero n ((eq_zero_iff _).mp h)

theorem val_mul_of_ne_zero {a : GF} (ha : a ≠ 0) (b : GF) :
    (a * b).val = mulThree^[dlog a.val] b.val := by
  rw [mul_def]
  by_cases hb : b = 0
  · rw [if_pos (Or.inr hb), hb, val_zero, iterate_mulThree_zero]
  · have hb' := (eq_zero_iff b).not.mp hb
    rw [if_neg (not_or.mpr ⟨ha, hb⟩)]
    dsimp only
    rw [Nat.add_comm, genPow_add, genPow_dlog hb' b.lt]

theorem mul_comm' (a b : GF) : a * b = b * a := by
  simp only [mul_def, or_comm, Nat.add_comm]

theorem mul_assoc' (a b c : GF) : a * b * c = a * (b * c) := by
  by_cases h : a = 0 ∨ b = 0 ∨ c = 0
  · rcases h with rfl | rfl | rfl <;> simp [mul_def]
  · obtain ⟨ha, hb, hc⟩ : a ≠ 0 ∧ b ≠ 0 ∧ c ≠ 0 := by tauto
    simp only [mul_def, ha, hb, hc, mk_genPow_ne_zero, or_self, if_false, dlog_genPow_mod]
    ext
    dsimp only
    rw [← genPow_mod, ← genPow_mod (dlog a.val + _)]
    congr 1
    omega

theorem one_mul' (a : GF) : 1 * a = a := by
  by_cases ha : a = 0
  · simp [mul_def, ha]
  · rw [mul_def, if_neg (by simp [ha, eq_zero_iff])]
    ext
    dsimp only
    rw [show (1 : GF).val = genPow 0 from rfl, dlog_genPow (by decide), Nat.zero_add,
      genPow_dlog ((eq_zero_iff a).not.mp ha) a.lt]

theorem left_distrib' (a b c : GF) : a * (b + c) = a * b + a * c := by
  by_cases ha : a = 0
  · simp [mul_def, ha]; rfl
  · ext
    rw [val_mul_of_ne_zero ha, val_add, val_add, val_mul_of_ne_zero ha, val_mul_of_ne_zero ha,
      iterate_mulThree_xor _ b.lt c.lt]

theorem mul_inv_cancel' (a : GF) (ha : a ≠ 0) : a * a⁻¹ = 1 := by
  have := dlog_val_lt ha
  rw [inv_def, if_neg ha, mul_def, if_neg (not_or.mpr ⟨ha, mk_genPow_ne_zero _⟩)]
  ext
  dsimp only
  rw [dlog_genPow_mod, ← genPow_mod, show (1 : GF).val = genPow 0 from rfl]
  congr 1
  omega

instance : Field GF where
  add_assoc a b c := GF.ext (Nat.xor_assoc _ _ _)
  zero_add a := GF.ext (Nat.zero_xor _)
  add_zero a := GF.ext (Nat.xor_zero _)
  nsmul := nsmulRec
  add_comm a b := GF.ext (Nat.xor_comm _ _)
  mul_assoc := mul_assoc'
  one_mul := one_mul'
  mul_one a := (mul_comm' a 1).trans (one_mul' a)
  zero_mul a := by simp [mul_def]
  mul_zero a := by simp [mul_def]
  left_distrib := left_distrib'
  right_distrib a b c := by rw [mul_comm', left_distrib', mul_comm' c, mul_comm' c]
  neg_add_cancel a := GF.ext (Nat.xor_self _)
  zsmul := zsmulRec
  mul_comm := mul_comm'
  inv_zero := by simp [inv_def]
  mul_inv_cancel := mul_inv_cancel'
  exists_pair_ne := ⟨0, 1, by decide⟩
  nnqsmul := _
  qsmul := _

theorem val_pow_of_ne_zero {a : GF} (ha : a ≠ 0) (e : ℕ) : (a ^ e).val = genPow (dlog a.val * e) := by
  induction e with
  | zero => rw [pow_zero, Nat.mul_zero]; rfl
  | succ e ih => rw [pow_succ', val_mul_of_ne_zero ha, ih, ← genPow_add, Nat.mul_succ]

end GF

end CitrateCrypto.FieldEngine
