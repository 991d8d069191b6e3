import CitrateCrypto.SecretSharing.Shamir
import Mathlib.Algebra.BigOperators.Ring
import Mathlib.Algebra.EuclideanDomain.Field
import Mathlib.Tactic.Ring

namespace CitrateCrypto.SecretSharing

open FieldEngine ShamirSecretSharing

/-- `c₀ + c₁ x + c₂ x² + ...` in Horner form. -/
def horner (x : GF) : List GF → GF
  | [] => 0
  | c :: cs => c + x * horner x cs

theorem evaluateLoop_val (x : GF) (cs : List GF) (result xPower : GF) :
    evaluateLoop x.val (cs.map fun c => (c.val : ℤ)) result.val xPower.val =
      .ok (result + xPower * horner x cs).val := by
  induction cs generalizing result xPower with
  | nil => rw [horner, mul_zero, add_zero]; rfl
  | cons c cs ih =>
    rw [List.map_cons, evaluateLoop, GF256.multiply_val, ok_bind, GF256.multiply_val, ok_bind,
      GF256.add_val, ih, horner]
    congr 3
    ring

theorem horner_eq_add_drop (x : GF) : ∀ (j : ℕ) (cs : List GF),
    horner x cs = ∑ i ∈ Finset.range j, cs.getD i 0 * x ^ i + x ^ j * horner x (cs.drop j)
  | 0, cs => by simp
  | j + 1, [] => by simp [horner]
  | j + 1, c :: cs => by
    have hsum : ∑ i ∈ Finset.range j, cs.getD i 0 * x ^ (i + 1) =
        x * ∑ i ∈ Finset.range j, cs.getD i 0 * x ^ i := by
      rw [Finset.mul_sum]
      exact Finset.sum_congr rfl fun i _ => by ring
    rw [Finset.sum_range_succ', horner, horner_eq_add_drop x j cs, List.drop_succ_cons]
    simp only [List.getD_cons_succ, List.getD_cons_zero, hsum]
    ring

/-- The coefficient loop of `_evaluate_polynomial_at_point`: from `result = 0` and `x_power = 1` it
returns `∑ c_j x^j`, and at the start of round `j` it holds the first `j` terms and `x ^ j`. -/
theorem evaluateLoop_partial_sums {x : ℤ} (h0 : 0 ≤ x) (h : x ≤ 255) (cs : List Byte) :
    evaluateLoop x (cs.map fun c => (c.val : ℤ)) 0 1 =
        .ok (∑ j ∈ Finset.range cs.length, GF.ofByte (cs.getD j 0) * GF.ofInt x ^ j).val ∧
      ∀ j ≤ cs.length, evaluateLoop x (cs.map fun c => (c.val : ℤ)) 0 1 =
        evaluateLoop x ((cs.drop j).map fun c => (c.val : ℤ))
          (∑ i ∈ Finset.range j, GF.ofByte (cs.getD i 0) * GF.ofInt x ^ i).val (GF.ofInt x ^ j).val := by
  obtain ⟨g, rfl⟩ : ∃ g : GF, (g.val : ℤ) = x := ⟨GF.ofInt x, GF.val_ofInt h0 (by omega)⟩
  have hrun : ∀ (l : List Byte) (r p : GF), evaluateLoop g.val (l.map fun c => (c.val : ℤ)) r.val p.val =
      .ok (r + p * horner g (l.map GF.ofByte)).val := fun l r p => by
    rw [← evaluateLoop_val, List.map_map]
    rfl
  have hget : ∀ i, (cs.map GF.ofByte).getD i 0 = GF.ofByte (cs.getD i 0) := fun i =>
    List.getD_map cs 0 GF.ofByte
  have hstart := hrun cs 0 1
  simp only [zero_add, one_mul, GF.val_zero, GF.val_one, Nat.cast_zero, Nat.cast_one] at hstart
  simp only [GF.ofInt_val, hstart]
  refine ⟨?_, fun j _ => ?_⟩
  · have hfull := horner_eq_add_drop g cs.length (cs.map GF.ofByte)
    rw [List.drop_eq_nil_of_le (by simp), horner, mul_zero, add_zero] at hfull
    simp only [hfull, hget]
  · rw [hrun, List.map_drop]
    simp only [← hget]
    rw [← horner_eq_add_drop]

theorem evaluateLoop_partial_sums_at_two :
    let cs : List Byte := [1, 2, 3]
    0 ≤ (2 : ℤ) ∧ (2 : ℤ) ≤ 255 ∧
      (evaluateLoop 2 (cs.map fun c => (c.val : ℤ)) 0 1 =
          .ok (∑ j ∈ Finset.range cs.length, GF.ofByte (cs.getD j 0) * GF.ofInt 2 ^ j).val ∧
        ∀ j ≤ cs.length, evaluateLoop 2 (cs.map fun c => (c.val : ℤ)) 0 1 =
          evaluateLoop 2 ((cs.drop j).map fun c => (c.val : ℤ))
            (∑ i ∈ Finset.range j, GF.ofByte (cs.getD i 0) * GF.ofInt 2 ^ i).val (GF.ofInt 2 ^ j).val) := by
  intro cs
  exact ⟨by decide, by decide, evaluateLoop_partial_sums (by decide) (by decide) cs⟩

/-- The coefficients `_evaluate_polynomial_at_point` draws for the byte `b` of a secret of length
`len` in the round `x = i`: the random source is read in order, `threshold - 1` values a byte. -/
def coefficientsAt (sss : ShamirSecretSharing) (rng : ℕ → Byte) (len i b : ℕ) : List GF :=
  (drawCoefficients rng (((i - 1) * len + b) * (sss.threshold - 1)) (sss.threshold - 1)).map
    GF.ofByte

/-- Byte `b` of the share for `x = i`: a polynomial of its own, with constant term `secret[b]`. -/
def shareByte (sss : ShamirSecretSharing) (rng : ℕ → Byte) (secret : List Byte) (i b : ℕ) : GF :=
  horner (GF.ofInt i) (GF.ofByte (secret.getD b 0) :: coefficientsAt sss rng secret.length i b)

theorem evaluateBytes_val (sss : ShamirSecretSharing) (rng : ℕ → Byte) (x : GF) :
    ∀ (secret : List Byte) (pos : ℕ), sss.evaluateBytes rng x.val secret pos =
      .ok ((List.range secret.length).map fun b => (horner x (GF.ofByte (secret.getD b 0) ::
        (drawCoefficients rng (pos + b * (sss.threshold - 1)) (sss.threshold - 1)).map GF.ofByte)).val,
        pos + secret.length * (sss.threshold - 1))
  | [], pos => by simp only [evaluateBytes, List.length_nil, zero_mul, add_zero]; rfl
  | s :: secret, pos => by
    have hcs : ((s :: drawCoefficients rng pos (sss.threshold - 1)).map fun c => (c.val : ℤ)) =
        (GF.ofByte s :: (drawCoefficients rng pos (sss.threshold - 1)).map GF.ofByte).map
          fun c => (c.val : ℤ) := by
      rw [List.map_cons, List.map_cons, List.map_map]
      rfl
    rw [evaluateBytes, hcs, show (0 : ℤ) = ((0 : GF).val : ℤ) from rfl,
      show (1 : ℤ) = ((1 : GF).val : ℤ) from rfl, evaluateLoop_val, ok_bind,
      evaluateBytes_val sss rng x secret, ok_bind, zero_add, one_mul, List.length_cons,
      List.range_succ_eq_map, List.map_cons, List.map_map]
    refine congrArg Except.ok (Prod.ext (List.cons_eq_cons.mpr ⟨by simp,
      List.map_congr_left fun b _ => ?_⟩) (by simp only; ring))
    rw [Function.comp_apply, List.getD_cons_succ,
      show pos + (b + 1) * (sss.threshold - 1) = pos + (sss.threshold - 1) + b * (sss.threshold - 1)
        by ring]

/-- The share `split_secret` gives the holder `x = i`. -/
def shareAt (sss : ShamirSecretSharing) (rng : ℕ → Byte) (secret : List Byte) (i : ℕ) : List Byte :=
  (List.range secret.length).map fun b => GF.toByte (shareByte sss rng secret i b)

theorem evaluatePolynomialAtPoint_val (sss : ShamirSecretSharing) (rng : ℕ → Byte)
    (secret : List Byte) (x : GF) (pos : ℕ) :
    sss.evaluatePolynomialAtPoint rng secret x.val pos =
      .ok ((List.range secret.length).map fun b => GF.toByte (horner x (GF.ofByte (secret.getD b 0) ::
        (drawCoefficients rng (pos + b * (sss.threshold - 1)) (sss.threshold - 1)).map GF.ofByte)),
        pos + secret.length * (sss.threshold - 1)) := by
  rw [evaluatePolynomialAtPoint, evaluateBytes_val, ok_bind]
  dsimp only
  rw [bytesOf_val (fun b => horner x (GF.ofByte (secret.getD b 0) ::
    (drawCoefficients rng (pos + b * (sss.threshold - 1)) (sss.threshold - 1)).map GF.ofByte)), ok_bind]
  rfl

theorem splitLoop_val (sss : ShamirSecretSharing) (rng : ℕ → Byte) (secret : List Byte) :
    ∀ m k, k + m ≤ 255 →
      sss.splitLoop rng secret (List.range' (k + 1) m) (k * secret.length * (sss.threshold - 1)) =
        .ok ((List.range' (k + 1) m).map fun i : ℕ => ((i : ℤ), shareAt sss rng secret i),
          (k + m) * secret.length * (sss.threshold - 1))
  | 0, k, _ => by simp only [List.range'_zero, List.map_nil, Nat.add_zero]; rfl
  | m + 1, k, hkm => by
    have hx : (((k + 1 : ℕ) : ℤ)) = ((GF.ofInt (k + 1 : ℕ)).val : ℤ) :=
      (GF.val_ofInt (by omega) (by omega)).symm
    rw [List.range'_succ, splitLoop, hx, evaluatePolynomialAtPoint_val, ok_bind]
    dsimp only
    rw [show k * secret.length * (sss.threshold - 1) + secret.length * (sss.threshold - 1) =
      (k + 1) * secret.length * (sss.threshold - 1) by ring, splitLoop_val sss rng secret m (k + 1)
      (by omega), ok_bind, List.map_cons, ← hx]
    refine congrArg Except.ok (Prod.ext (List.cons_eq_cons.mpr ⟨congrArg (Prod.mk _)
      (List.map_congr_left fun b _ => ?_), rfl⟩) (by simp only; ring))
    rw [shareByte, coefficientsAt, Nat.add_sub_cancel, add_mul]

theorem splitSecret_val (sss : ShamirSecretSharing) (rng : ℕ → Byte) (secret : List Byte) :
    sss.splitSecret rng secret =
      .ok ((List.range' 1 sss.totalShares).map fun i : ℕ => ((i : ℤ), shareAt sss rng secret i)) := by
  have h := splitLoop_val sss rng secret sss.totalShares 0 (by have := sss.totalShares_le; omega)
  rw [Nat.zero_mul, Nat.zero_mul] at h
  rw [splitSecret, h]
  rfl

end CitrateCrypto.SecretSharing