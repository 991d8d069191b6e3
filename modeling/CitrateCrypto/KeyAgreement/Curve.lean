import CitrateCrypto.KeyAgreement.Pratt
import CitrateCrypto.FieldEngine.Ops
import Mathlib.AlgebraicGeometry.EllipticCurve.Group
import Mathlib.FieldTheory.Finite.Basic

namespace CitrateCrypto.KeyAgreement

open FieldEngine WeierstrassCurve

def fromBytesBig (bs : List Byte) : ℕ :=
  bs.foldl (fun acc b => acc * 256 + b.val) 0

/-- The `len` low bytes of `v`, most significant first. -/
def toBytesBig : ℕ → ℕ → List Byte
  | 0, _ => []
  | len + 1, v => toBytesBig len (v / 256) ++ [⟨v % 256, Nat.mod_lt _ (by norm_num)⟩]

/-- `v.to_bytes(len, 'big')` for `v ≥ 0`: `OverflowError` when `v` needs more than `len` bytes. -/
def intToBytes (len v : ℕ) : Except PyError (List Byte) :=
  if v < 256 ^ len then .ok (toBytesBig len v) else .error (.overflowError "int too big to convert")

theorem intToBytes_of_lt {len v : ℕ} (h : v < 256 ^ len) : intToBytes len v = .ok (toBytesBig len v) :=
  if_pos h

theorem intToBytes_of_le {len v : ℕ} (h : 256 ^ len ≤ v) :
    intToBytes len v = .error (.overflowError "int too big to convert") :=
  if_neg (Nat.not_lt.mpr h)

@[simp] theorem length_toBytesBig (len v : ℕ) : (toBytesBig len v).length = len := by
  induction len generalizing v with
  | zero => rfl
  | succ len ih => simp [toBytesBig, ih]

theorem fromBytesBig_append_singleton (bs : List Byte) (b : Byte) :
    fromBytesBig (bs ++ [b]) = fromBytesBig bs * 256 + b.val := by
  rw [fromBytesBig, List.foldl_append]
  rfl

theorem fromBytesBig_toBytesBig (len v : ℕ) : fromBytesBig (toBytesBig len v) = v % 256 ^ len := by
  induction len generalizing v with
  | zero => simp [toBytesBig, fromBytesBig, Nat.mod_one]
  | succ len ih =>
    rw [toBytesBig, fromBytesBig_append_singleton, ih, pow_succ', Nat.mod_mul]
    dsimp only
    ring

namespace Secp256k1

/-- The field modulus `p` of `_recover_y_coordinate`. -/
def p : ℕ := 0xFFFFFFFFFFFFFFFFFFFFFFFFFFFFFFFFFFFFFFFFFFFFFFFFFFFFFFFEFFFFFC2F

/-- The order of the generator: the library accepts private values in `[1, n - 1]`. -/
def n : ℕ := 0xFFFFFFFFFFFFFFFFFFFFFFFFFFFFFFFEBAAEDCE6AF48A03BBFD25E8CD0364141

def pEntry : Entry :=
  ⟨p, 3, [(2, 1), (3, 1), (7, 1), (13441, 1),
    (205115282021455665897114700593932402728804164701536103180137503955397371, 1)]⟩

/-- A Pratt certificate for `p`: the primes of `p - 1`, those of their predecessors, and so on. -/
def certificate : List Entry := [
  ⟨3, 2, [(2, 1)]⟩,
  ⟨7, 3, [(2, 1), (3, 1)]⟩,
  ⟨5, 2, [(2, 2)]⟩,
  ⟨13441, 11, [(2, 7), (3, 1), (5, 1), (7, 1)]⟩,
  ⟨13, 2, [(2, 2), (3, 1)]⟩,
  ⟨17, 3, [(2, 4)]⟩,
  ⟨443, 2, [(2, 1), (13, 1), (17, 1)]⟩,
  ⟨887, 5, [(2, 1), (443, 1)]⟩,
  ⟨5323, 5, [(2, 1), (3, 1), (887, 1)]⟩,
  ⟨131, 2, [(2, 1), (5, 1), (13, 1)]⟩,
  ⟨2621, 2, [(2, 2), (5, 1), (131, 1)]⟩,
  ⟨24809, 6, [(2, 3), (7, 1), (443, 1)]⟩,
  ⟨97, 5, [(2, 5), (3, 1)]⟩,
  ⟨971, 6, [(2, 1), (5, 1), (97, 1)]⟩,
  ⟨1373, 2, [(2, 2), (7, 3)]⟩,
  ⟨13331831, 13, [(2, 1), (5, 1), (971, 1), (1373, 1)]⟩,
  ⟨173378833005251801, 6, [(2, 3), (5, 2), (2621, 1), (24809, 1), (13331831, 1)]⟩,
  ⟨22149492674086928081353, 5, [(2, 3), (3, 1), (5323, 1), (173378833005251801, 1)]⟩,
  ⟨132896956044521568488119, 6, [(2, 1), (3, 1), (22149492674086928081353, 1)]⟩,
  ⟨29, 2, [(2, 2), (7, 1)]⟩,
  ⟨31, 3, [(2, 1), (3, 1), (5, 1)]⟩,
  ⟨11, 2, [(2, 1), (5, 1)]⟩,
  ⟨7723, 3, [(2, 1), (3, 3), (11, 1), (13, 1)]⟩,
  ⟨271, 6, [(2, 1), (3, 3), (5, 1)]⟩,
  ⟨1627, 3, [(2, 1), (3, 1), (271, 1)]⟩,
  ⟨41, 6, [(2, 3), (5, 1)]⟩,
  ⟨83, 2, [(2, 1), (41, 1)]⟩,
  ⟨2657, 3, [(2, 5), (83, 1)]⟩,
  ⟨67, 2, [(2, 1), (3, 1), (11, 1)]⟩,
  ⟨4423, 3, [(2, 1), (3, 1), (11, 1), (67, 1)]⟩,
  ⟨103, 5, [(2, 1), (3, 1), (17, 1)]⟩,
  ⟨41201, 3, [(2, 4), (5, 2), (103, 1)]⟩,
  ⟨101, 2, [(2, 2), (5, 2)]⟩,
  ⟨239, 7, [(2, 1), (7, 1), (17, 1)]⟩,
  ⟨96557, 2, [(2, 2), (101, 1), (239, 1)]⟩,
  ⟨53, 2, [(2, 2), (13, 1)]⟩,
  ⟨107590001, 3, [(2, 4), (5, 4), (7, 1), (29, 1), (53, 1)]⟩,
  ⟨19, 2, [(2, 1), (3, 2)]⟩,
  ⟨419, 2, [(2, 1), (11, 1), (19, 1)]⟩,
  ⟨20113, 10, [(2, 4), (3, 1), (419, 1)]⟩,
  ⟨1206781, 10, [(2, 2), (3, 1), (5, 1), (20113, 1)]⟩,
  ⟨7240687, 3, [(2, 1), (3, 1), (1206781, 1)]⟩,
  ⟨255515944373312847190720520512484175977, 3, [(2, 3), (7, 2), (11, 1), (1627, 1), (2657, 1), (4423, 1), (41201, 1), (96557, 1), (7240687, 1), (107590001, 1)]⟩,
  ⟨205115282021455665897114700593932402728804164701536103180137503955397371, 10, [(2, 1), (3, 1), (5, 1), (29, 2), (31, 1), (7723, 1), (132896956044521568488119, 1), (255515944373312847190720520512484175977, 1)]⟩
] ++ [pEntry]

theorem certificate_check : check 256 [2] certificate = true := by
  set_option maxRecDepth 100000 in decide

theorem p_prime : p.Prime :=
  prime_of_check (fun _ hr => (List.mem_singleton.mp hr) ▸ Nat.prime_two) certificate_check pEntry
    (List.mem_append_right _ (List.mem_singleton_self _))

instance : Fact p.Prime := ⟨p_prime⟩

theorem p_mod_four : p % 4 = 3 := by decide

/-- `y² = x³ + a x + b` with `a = 0` and `b = 7`. -/
def curve : WeierstrassCurve (ZMod p) := { a₁ := 0, a₂ := 0, a₃ := 0, a₄ := 0, a₆ := 7 }

/-- A point of secp256k1: the point at infinity, or an affine point `(x, y)` of the curve. -/
abbrev Point : Type := curve.toAffine.Point

@[simp] theorem negY_eq (x y : ZMod p) : curve.toAffine.negY x y = -y := by
  simp [Affine.negY, curve]

theorem nonsingular_of_equation {x y : ZMod p} (h : y ^ 2 = x ^ 3 + 7) :
    curve.toAffine.Nonsingular x y := by
  have h2 : (2 : ZMod p) ≠ 0 := by decide
  have h3 : (3 : ZMod p) ≠ 0 := by decide
  rw [Affine.nonsingular_iff', Affine.equation_iff]
  refine ⟨by simp [curve, h], ?_⟩
  simp only [curve, zero_mul, mul_zero, zero_sub, add_zero, ne_eq, neg_eq_zero]
  by_cases hy : y = 0
  · -- a point with `y = 0` has `x ≠ 0`, since `7 ≠ 0`
    have hx : x ≠ 0 := by
      rintro rfl
      exact (by decide : (7 : ZMod p) ≠ 0) (by simpa [hy] using h.symm)
    exact Or.inl (mul_ne_zero h3 (pow_ne_zero 2 hx))
  · exact Or.inr (mul_ne_zero h2 hy)

def generatorX : ℕ := 0x79BE667EF9DCBBAC55A06295CE870B07029BFCDB2DCE28D959F2815B16F81798

def generatorY : ℕ := 0x483ADA7726A3C4655DA4FBFC0E1108A8FD17B448A68554199C47D08FFB10D4B8

def G : Point :=
  .some (nonsingular_of_equation (x := generatorX) (y := generatorY) (by decide))

/-- The `ValueError` text of `cryptography` up to version 41 for a key it does not accept. -/
def invalidECKey : PyError := .valueError "Invalid EC key."

/-- `EllipticCurvePublicNumbers(x, y, SECP256K1()).public_key()`: the library accepts the public
numbers when both are below `p` and `(x, y)` lies on the curve. -/
def publicKeyOfNumbers (x y : ℕ) : Except PyError Point :=
  if h : x < p ∧ y < p ∧ (y : ZMod p) ^ 2 = (x : ZMod p) ^ 3 + 7 then
    .ok (.some (nonsingular_of_equation h.2.2))
  else .error invalidECKey

/-- The slope of `Affine.slope`, with equality in `ZMod p` decided. -/
def slope (x₁ x₂ y₁ y₂ : ZMod p) : ZMod p :=
  if x₁ = x₂ then
    if y₁ = curve.toAffine.negY x₂ y₂ then 0
    else (3 * x₁ ^ 2 + 2 * curve.a₂ * x₁ + curve.a₄ - curve.a₁ * y₁) /
      (y₁ - curve.toAffine.negY x₁ y₁)
  else (y₁ - y₂) / (x₁ - x₂)

theorem slope_eq (x₁ x₂ y₁ y₂ : ZMod p) : slope x₁ x₂ y₁ y₂ = curve.toAffine.slope x₁ x₂ y₁ y₂ := by
  unfold slope Affine.slope
  split_ifs <;> rfl

/-- The library's point addition: chord and tangent, as `Affine.Point.add`. -/
def add : Point → Point → Point
  | .zero, Q => Q
  | P, .zero => P
  | @Affine.Point.some _ _ _ x₁ y₁ h₁, @Affine.Point.some _ _ _ x₂ y₂ h₂ =>
    if h : x₁ = x₂ ∧ y₁ = curve.toAffine.negY x₂ y₂ then .zero
    else
      .some (x := curve.toAffine.addX x₁ x₂ (slope x₁ x₂ y₁ y₂))
        (y := curve.toAffine.addY x₁ x₂ y₁ (slope x₁ x₂ y₁ y₂))
        (by rw [slope_eq]; exact Affine.nonsingular_add h₁ h₂ fun hx hy => h ⟨hx, hy⟩)

theorem add_eq (P Q : Point) : add P Q = P + Q := by
  rcases P with _ | @⟨x₁, y₁, h₁⟩ <;> rcases Q with _ | @⟨x₂, y₂, h₂⟩
  · rfl
  · rfl
  · rfl
  · by_cases h : x₁ = x₂ ∧ y₁ = curve.toAffine.negY x₂ y₂
    · rw [Affine.Point.add_of_Y_eq h.1 h.2]
      exact dif_pos h
    · rw [Affine.Point.add_of_imp fun hx hy => h ⟨hx, hy⟩]
      refine (dif_neg h).trans ?_
      simp only [Affine.Point.some.injEq, slope_eq, and_self]

/-- The library's scalar multiplication `k * P`. -/
def scalarMul : ℕ → Point → Point
  | 0, _ => .zero
  | k + 1, P => add (scalarMul k P) P

theorem scalarMul_eq (k : ℕ) (P : Point) : scalarMul k P = k • P := by
  induction k with
  | zero => rfl
  | succ k ih => rw [scalarMul, ih, add_eq, succ_nsmul]

end Secp256k1

end CitrateCrypto.KeyAgreement
