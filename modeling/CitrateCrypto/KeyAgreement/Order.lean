import CitrateCrypto.KeyAgreement.Curve
import Mathlib.GroupTheory.OrderOfElement
import Mathlib.Tactic.LinearCombination

namespace CitrateCrypto.KeyAgreement.Secp256k1

open WeierstrassCurve

def nEntry : Entry :=
  ⟨n, 7, [(2, 6), (3, 1), (149, 1), (631, 1), (107361793816595537, 1),
    (174723607534414371449, 1), (341948486974166000522343609283189, 1)]⟩

/-- A Pratt certificate for `n`. -/
def orderCertificate : List Entry := [
  ⟨3, 2, [(2, 1)]⟩,
  ⟨5, 2, [(2, 2)]⟩,
  ⟨11, 2, [(2, 1), (5, 1)]⟩,
  ⟨23, 5, [(2, 1), (11, 1)]⟩,
  ⟨16699, 3, [(2, 1), (3, 1), (11, 2), (23, 1)]⟩,
  ⟨13, 2, [(2, 2), (3, 1)]⟩,
  ⟨2861, 2, [(2, 2), (5, 1), (11, 1), (13, 1)]⟩,
  ⟨85831, 3, [(2, 1), (3, 1), (5, 1), (2861, 1)]⟩,
  ⟨97, 5, [(2, 5), (3, 1)]⟩,
  ⟨67, 2, [(2, 1), (3, 1), (11, 1)]⟩,
  ⟨2011, 3, [(2, 1), (3, 1), (5, 1), (67, 1)]⟩,
  ⟨4681609, 23, [(2, 3), (3, 1), (97, 1), (2011, 1)]⟩,
  ⟨107361793816595537, 3, [(2, 4), (16699, 1), (85831, 1), (4681609, 1)]⟩,
  ⟨17, 3, [(2, 4)]⟩,
  ⟨7, 3, [(2, 1), (3, 1)]⟩,
  ⟨29, 2, [(2, 2), (7, 1)]⟩,
  ⟨59, 2, [(2, 1), (29, 1)]⟩,
  ⟨4051, 10, [(2, 1), (3, 4), (5, 2)]⟩,
  ⟨199, 3, [(2, 1), (3, 2), (11, 1)]⟩,
  ⟨797, 2, [(2, 2), (199, 1)]⟩,
  ⟨19, 2, [(2, 1), (3, 2)]⟩,
  ⟨41, 6, [(2, 3), (5, 1)]⟩,
  ⟨9349, 2, [(2, 2), (3, 1), (19, 1), (41, 1)]⟩,
  ⟨44706919, 6, [(2, 1), (3, 1), (797, 1), (9349, 1)]⟩,
  ⟨113, 3, [(2, 4), (7, 1)]⟩,
  ⟨120233, 3, [(2, 3), (7, 1), (19, 1), (113, 1)]⟩,
  ⟨174723607534414371449, 3, [(2, 3), (17, 1), (59, 1), (4051, 1), (120233, 1), (44706919, 1)]⟩,
  ⟨109, 6, [(2, 2), (3, 3)]⟩,
  ⟨73, 5, [(2, 3), (3, 2)]⟩,
  ⟨293, 2, [(2, 2), (73, 1)]⟩,
  ⟨461, 2, [(2, 2), (5, 1), (23, 1)]⟩,
  ⟨1871, 14, [(2, 1), (5, 1), (11, 1), (17, 1)]⟩,
  ⟨1627771, 3, [(2, 1), (3, 1), (5, 1), (29, 1), (1871, 1)]⟩,
  ⟨297159362677, 2, [(2, 2), (3, 2), (11, 1), (461, 1), (1627771, 1)]⟩,
  ⟨1409, 3, [(2, 7), (11, 1)]⟩,
  ⟨28181, 2, [(2, 2), (5, 1), (1409, 1)]⟩,
  ⟨545358713, 5, [(2, 3), (41, 1), (59, 1), (28181, 1)]⟩,
  ⟨2731, 3, [(2, 1), (3, 1), (5, 1), (7, 1), (13, 1)]⟩,
  ⟨305873, 3, [(2, 4), (7, 1), (2731, 1)]⟩,
  ⟨29047611873442575647497758179, 2,
    [(2, 1), (293, 1), (305873, 1), (545358713, 1), (297159362677, 1)]⟩,
  ⟨341948486974166000522343609283189, 2, [(2, 2), (3, 3), (109, 1), (29047611873442575647497758179, 1)]⟩,
  ⟨37, 2, [(2, 2), (3, 2)]⟩,
  ⟨149, 2, [(2, 2), (37, 1)]⟩,
  ⟨631, 3, [(2, 1), (3, 2), (5, 1), (7, 1)]⟩
] ++ [nEntry]

theorem orderCertificate_check : check 256 [2] orderCertificate = true := by
  set_option maxRecDepth 100000 in decide

theorem n_prime : n.Prime :=
  prime_of_check (fun _ hr => (List.mem_singleton.mp hr) ▸ Nat.prime_two) orderCertificate_check
    nEntry (List.mem_append_right _ (List.mem_singleton_self _))

-- Jacobian coordinates: the kernel computes `n * G` in them without a field inversion per step

abbrev Jac : Type := ZMod p × ZMod p × ZMod p

def jacDouble (T : Jac) : Jac :=
  let (X, Y, Z) := T
  let S := 4 * X * (Y * Y)
  let M := 3 * X * X
  let X₃ := M * M - 2 * S
  (X₃, M * (S - X₃) - 8 * (Y * Y) * (Y * Y), 2 * Y * Z)

def jacAdd (T₁ T₂ : Jac) : Jac :=
  let (X₁, Y₁, Z₁) := T₁
  let (X₂, Y₂, Z₂) := T₂
  if Z₁ = 0 then T₂ else if Z₂ = 0 then T₁ else
  let U₁ := X₁ * (Z₂ * Z₂)
  let S₁ := Y₁ * Z₂ * (Z₂ * Z₂)
  let H := X₂ * (Z₁ * Z₁) - U₁
  let R := Y₂ * Z₁ * (Z₁ * Z₁) - S₁
  if H = 0 then (if R = 0 then jacDouble T₁ else (1, 1, 0))
  else
    let X₃ := R * R - H * (H * H) - 2 * (U₁ * (H * H))
    (X₃, R * (U₁ * (H * H) - X₃) - S₁ * (H * (H * H)), Z₁ * Z₂ * H)

/-- `k * T` by double-and-add, from the high bits of `k` down, for `k < 2 ^ fuel`. -/
def jacMul (T : Jac) : ℕ → ℕ → Jac
  | 0, _ => (1, 1, 0)
  | fuel + 1, k =>
    if k = 0 then (1, 1, 0)
    else
      let D := jacDouble (jacMul T fuel (k / 2))
      if k % 2 = 1 then jacAdd D T else D

/-- `(X, Y, Z)` stands for the point at infinity when `Z = 0`, and otherwise for the affine point
`(x, y)` with `X = x Z²` and `Y = y Z³`. -/
inductive Represents : Jac → Point → Prop
  | infinity (X Y : ZMod p) : Represents (X, Y, 0) 0
  | affine {x y : ZMod p} (h : curve.toAffine.Nonsingular x y) {Z : ZMod p} (hZ : Z ≠ 0) :
      Represents (x * Z ^ 2, y * Z ^ 3, Z) (.some h)

theorem Represents.eq_zero {T : Jac} {P : Point} (h : Represents T P) (hZ : T.2.2 = 0) : P = 0 := by
  cases h with
  | infinity => rfl
  | affine _ hZ' => exact absurd hZ hZ'

@[simp] theorem jacAdd_infinity_left (X Y : ZMod p) (T : Jac) : jacAdd (X, Y, 0) T = T := by
  obtain ⟨_, _, _⟩ := T
  simp [jacAdd]

@[simp] theorem jacAdd_infinity_right {X₁ Y₁ Z₁ : ZMod p} (hZ₁ : Z₁ ≠ 0) (X Y : ZMod p) :
    jacAdd (X₁, Y₁, Z₁) (X, Y, 0) = (X₁, Y₁, Z₁) :=
  (if_neg hZ₁).trans (if_pos rfl)

theorem addX_eq (x₁ x₂ L : ZMod p) : curve.toAffine.addX x₁ x₂ L = L ^ 2 - x₁ - x₂ := by
  simp [Affine.addX, curve]

theorem addY_eq (x₁ x₂ y₁ L : ZMod p) :
    curve.toAffine.addY x₁ x₂ y₁ L = L * (x₁ - (L ^ 2 - x₁ - x₂)) - y₁ := by
  simp only [Affine.addY, Affine.negAddY, negY_eq, addX_eq]
  ring

/-- The last step that doubling and chord addition share: with `R = L Z₃` for the slope `L`, the
triple `(R² - x₁ Z₃² - x₂ Z₃², R (x₁ Z₃² - X₃) - y₁ Z₃³, Z₃)` stands for the sum. -/
theorem represents_chord {x₁ x₂ y₁ L X₃ Y₃ Z₃ : ZMod p} (R : ZMod p)
    (h : curve.toAffine.Nonsingular (curve.toAffine.addX x₁ x₂ L) (curve.toAffine.addY x₁ x₂ y₁ L))
    (hZ : Z₃ ≠ 0) (hR : R = L * Z₃) (hX : X₃ = R ^ 2 - x₁ * Z₃ ^ 2 - x₂ * Z₃ ^ 2)
    (hY : Y₃ = R * (x₁ * Z₃ ^ 2 - X₃) - y₁ * Z₃ ^ 3) :
    Represents (X₃, Y₃, Z₃) (.some h) := by
  have hX' : X₃ = curve.toAffine.addX x₁ x₂ L * Z₃ ^ 2 := by rw [hX, hR, addX_eq]; ring
  have hY' : Y₃ = curve.toAffine.addY x₁ x₂ y₁ L * Z₃ ^ 3 := by rw [hY, hX, hR, addY_eq]; ring
  rw [hX', hY']
  exact .affine h hZ

theorem two_ne_zero_zmod : (2 : ZMod p) ≠ 0 := by decide

theorem represents_double {T : Jac} {P : Point} (h : Represents T P) :
    Represents (jacDouble T) (P + P) := by
  cases h with
  | infinity X Y => simpa only [jacDouble, mul_zero, add_zero] using Represents.infinity _ _
  | @affine x y hxy Z hZ =>
    by_cases hy : y = 0
    · -- a point with `y = 0` is its own negation
      rw [Affine.Point.add_self_of_Y_eq (by rw [negY_eq, hy, neg_zero])]
      simpa only [jacDouble, hy, zero_mul, mul_zero] using Represents.infinity _ _
    have h2y : 2 * y ≠ 0 := mul_ne_zero two_ne_zero_zmod hy
    have hy' : y ≠ curve.toAffine.negY x y := by
      rw [negY_eq]
      exact fun h => h2y (by linear_combination h)
    rw [Affine.Point.add_self_of_Y_ne hy']
    have hL : curve.toAffine.slope x x y y = 3 * x ^ 2 / (2 * y) := by
      rw [Affine.slope_of_Y_ne rfl hy', negY_eq, sub_neg_eq_add, ← two_mul]
      simp [curve]
    refine represents_chord (3 * (x * Z ^ 2) * (x * Z ^ 2)) _
      (mul_ne_zero (mul_ne_zero two_ne_zero_zmod (mul_ne_zero hy (pow_ne_zero 3 hZ))) hZ) ?_
      (by ring) (by ring)
    rw [hL, div_mul_eq_mul_div, eq_div_iff h2y]
    ring

theorem represents_add {T₁ T₂ : Jac} {P Q : Point} (h₁ : Represents T₁ P) (h₂ : Represents T₂ Q) :
    Represents (jacAdd T₁ T₂) (P + Q) := by
  cases h₁ with
  | infinity => rwa [jacAdd_infinity_left, zero_add]
  | @affine x₁ y₁ hxy₁ Z₁ hZ₁ =>
  cases h₂ with
  | infinity => rw [jacAdd_infinity_right hZ₁, add_zero]; exact .affine hxy₁ hZ₁
  | @affine x₂ y₂ hxy₂ Z₂ hZ₂ =>
  have hz : Z₁ ^ 2 * Z₂ ^ 2 ≠ 0 := mul_ne_zero (pow_ne_zero 2 hZ₁) (pow_ne_zero 2 hZ₂)
  have hz' : Z₁ ^ 3 * Z₂ ^ 3 ≠ 0 := mul_ne_zero (pow_ne_zero 3 hZ₁) (pow_ne_zero 3 hZ₂)
  -- `H` and `R` are the differences of `x` and of `y`, scaled
  have hH : x₂ * Z₂ ^ 2 * (Z₁ * Z₁) - x₁ * Z₁ ^ 2 * (Z₂ * Z₂) = (x₂ - x₁) * (Z₁ ^ 2 * Z₂ ^ 2) := by
    ring
  have hR : y₂ * Z₂ ^ 3 * Z₁ * (Z₁ * Z₁) - y₁ * Z₁ ^ 3 * Z₂ * (Z₂ * Z₂) =
      (y₂ - y₁) * (Z₁ ^ 3 * Z₂ ^ 3) := by
    ring
  simp only [jacAdd, if_neg hZ₁, if_neg hZ₂]
  by_cases hx : x₁ = x₂
  · subst hx
    rw [if_pos (by rw [hH, sub_self, zero_mul])]
    by_cases hy : y₁ = y₂
    · subst hy
      rw [if_pos (by rw [hR, sub_self, zero_mul])]
      exact represents_double (.affine hxy₁ hZ₁)
    · -- the other point of the curve with the same `x` is the negation
      have hneg := (Affine.Y_eq_of_X_eq hxy₁.1 hxy₂.1 rfl).resolve_left hy
      rw [if_neg (by rw [hR]; exact mul_ne_zero (sub_ne_zero.mpr (Ne.symm hy)) hz'),
        Affine.Point.add_of_Y_eq rfl hneg]
      exact .infinity _ _
  · rw [if_neg (by rw [hH]; exact mul_ne_zero (sub_ne_zero.mpr (Ne.symm hx)) hz),
      Affine.Point.add_of_X_ne hx]
    have hL : curve.toAffine.slope x₁ x₂ y₁ y₂ = (y₁ - y₂) / (x₁ - x₂) := Affine.slope_of_X_ne hx
    refine represents_chord ((y₂ - y₁) * (Z₁ ^ 3 * Z₂ ^ 3)) _ ?_ ?_ (by ring) (by ring)
    · rw [hH]
      exact mul_ne_zero (mul_ne_zero hZ₁ hZ₂) (mul_ne_zero (sub_ne_zero.mpr (Ne.symm hx)) hz)
    · rw [hH, hL, div_mul_eq_mul_div, eq_div_iff (sub_ne_zero.mpr hx)]
      ring

theorem represents_jacMul {T : Jac} {P : Point} (h : Represents T P) :
    ∀ fuel k, k < 2 ^ fuel → Represents (jacMul T fuel k) (k • P)
  | 0, k, hk => by
    rw [Nat.lt_one_iff.mp hk, zero_nsmul]
    exact .infinity _ _
  | fuel + 1, k, hk => by
    have hD := represents_double (represents_jacMul h fuel (k / 2) (by rw [pow_succ] at hk; omega))
    rw [← add_nsmul] at hD
    rw [jacMul]
    dsimp only
    split_ifs with h0 hodd
    · rw [h0, zero_nsmul]
      exact .infinity _ _
    · have hk' : k • P = (k / 2 + k / 2) • P + P := by rw [← succ_nsmul]; congr 1; omega
      rw [hk']
      exact represents_add hD h
    · rwa [show k / 2 + k / 2 = k by omega] at hD

/-- The generator has order `n`, computed as `n * G` in Jacobian coordinates. -/
theorem n_smul_G : n • G = 0 := by
  have hG : Represents ((generatorX : ZMod p), (generatorY : ZMod p), 1) G := by
    simpa only [one_pow, mul_one] using Represents.affine (Z := 1) _ one_ne_zero
  have hZ : (jacMul ((generatorX : ZMod p), (generatorY : ZMod p), 1) 256 n).2.2 = 0 := by
    set_option maxRecDepth 100000 in decide
  exact (represents_jacMul hG 256 n (by decide)).eq_zero hZ

theorem G_ne_zero : G ≠ 0 := Affine.Point.some_ne_zero _

theorem smul_G_eq_zero_iff (k : ℕ) : k • G = 0 ↔ n ∣ k := by
  haveI := Fact.mk n_prime
  rw [← addOrderOf_dvd_iff_nsmul_eq_zero, addOrderOf_eq_prime n_smul_G G_ne_zero]

theorem smul_G_ne_zero {k : ℕ} (hpos : 0 < k) (hlt : k < n) : k • G ≠ 0 := fun h =>
  absurd (Nat.le_of_dvd hpos ((smul_G_eq_zero_iff k).mp h)) (Nat.not_le.mpr hlt)

end CitrateCrypto.KeyAgreement.Secp256k1
