import CitrateCrypto.KeyAgreement.Curve

namespace CitrateCrypto.KeyAgreement

open FieldEngine Secp256k1

def recoverYCoordinate (x : ℕ) (isOdd : Bool := false) : ℕ :=
  let a := 0
  let b := 7
  let ySquared := (x ^ 3 % p + a * x + b) % p
  let y := ySquared ^ ((p + 1) / 4) % p
  if decide (y % 2 = 1) != isOdd then p - y else y

/-- The length dispatch of `perform_ecdh`: the public numbers `(x, y)` it reads from the bytes of
the peer's key. -/
def parsePeerPublicKey (peer : List Byte) : Except PyError (ℕ × ℕ) :=
  if peer.length = 32 then
    let x := fromBytesBig peer
    pure (x, recoverYCoordinate x)
  else if peer.length = 33 then
    if peer.headD 0 ∉ [0x02, 0x03] then throw (.citrateError "Invalid compressed public key prefix")
    else
      let x := fromBytesBig (peer.drop 1)
      pure (x, recoverYCoordinate x (peer.headD 0 = 0x03))
  else if peer.length = 65 then
    if peer.headD 0 ≠ 0x04 then throw (.citrateError "Invalid uncompressed public key prefix")
    else pure (fromBytesBig ((peer.drop 1).take 32), fromBytesBig ((peer.drop 33).take 32))
  else
    let len := peer.length
    throw (.citrateError s!"Invalid public key length: {len}")

/-- The 33-byte SEC1 compressed encoding: `0x02` for an even `y`, `0x03` for an odd one, then `x`. -/
def encodeCompressed (x y : ℕ) : List Byte :=
  (if y % 2 = 1 then 3 else 2) :: toBytesBig 32 x

theorem p_lt : p < 256 ^ 32 := by decide

theorem intToBytes_val (x : ZMod p) : intToBytes 32 x.val = .ok (toBytesBig 32 x.val) :=
  intToBytes_of_lt ((ZMod.val_lt x).trans p_lt)

theorem fromBytesBig_toBytesBig_of_lt {x : ℕ} (hx : x < p) : fromBytesBig (toBytesBig 32 x) = x := by
  rw [fromBytesBig_toBytesBig, Nat.mod_eq_of_lt (hx.trans p_lt)]

theorem natCast_eq_natCast_of_lt {a b : ℕ} (ha : a < p) (hb : b < p) (h : (a : ZMod p) = b) :
    a = b := by
  rwa [ZMod.natCast_eq_natCast_iff', Nat.mod_eq_of_lt ha, Nat.mod_eq_of_lt hb] at h

theorem pow_sq_eq_or_neg (y : ZMod p) : (y ^ 2) ^ ((p + 1) / 4) = y ∨ (y ^ 2) ^ ((p + 1) / 4) = -y := by
  have h4 := p_mod_four
  by_cases hy : y = 0
  · exact Or.inl (by rw [hy, zero_pow two_ne_zero, zero_pow (by omega)])
  have hhalf : (y ^ ((p - 1) / 2)) ^ 2 = 1 := by
    rw [← pow_mul, show (p - 1) / 2 * 2 = p - 1 by omega, ZMod.pow_card_sub_one_eq_one hy]
  have hexp : (y ^ 2) ^ ((p + 1) / 4) = y ^ ((p - 1) / 2) * y := by
    rw [← pow_mul, ← pow_succ, show 2 * ((p + 1) / 4) = (p - 1) / 2 + 1 by omega]
  rcases sq_eq_one_iff.mp hhalf with h1 | h1
  · exact Or.inl (by rw [hexp, h1, one_mul])
  · exact Or.inr (by rw [hexp, h1, neg_one_mul])

theorem sqrt_candidate {x y : ℕ} (hy : y < p) (h : (y : ZMod p) ^ 2 = (x : ZMod p) ^ 3 + 7) :
    ((x ^ 3 % p + 0 * x + 7) % p) ^ ((p + 1) / 4) % p = y ∨
      ((x ^ 3 % p + 0 * x + 7) % p) ^ ((p + 1) / 4) % p = p - y := by
  set r := ((x ^ 3 % p + 0 * x + 7) % p) ^ ((p + 1) / 4) % p with hr
  have hrp : r < p := Nat.mod_lt _ p_prime.pos
  have hcast : (r : ZMod p) = ((y : ZMod p) ^ 2) ^ ((p + 1) / 4) := by
    rw [hr, ZMod.natCast_mod, Nat.cast_pow, ZMod.natCast_mod, h]
    push_cast [ZMod.natCast_mod]
    ring
  rcases pow_sq_eq_or_neg (y : ZMod p) with hpos | hneg
  · exact Or.inl (natCast_eq_natCast_of_lt hrp hy (hcast.trans hpos))
  · -- `r + y ≡ 0` with both below `p`: either both are `0` or `r + y = p`
    have hdvd : p ∣ r + y := by
      rw [← ZMod.natCast_zmod_eq_zero_iff_dvd, Nat.cast_add, hcast, hneg, neg_add_cancel]
    obtain ⟨k, hk⟩ := hdvd
    rcases k with _ | _ | k
    · left; omega
    · right; omega
    · have := Nat.mul_le_mul_left p (show 2 ≤ k + 1 + 1 by omega)
      omega

theorem recoverYCoordinate_eq {x y : ℕ} (hy : y < p) (h : (y : ZMod p) ^ 2 = (x : ZMod p) ^ 3 + 7)
    (isOdd : Bool) :
    recoverYCoordinate x isOdd = if decide (y % 2 = 1) = isOdd then y else p - y := by
  have h4 := p_mod_four
  have hrp : ((x ^ 3 % p + 0 * x + 7) % p) ^ ((p + 1) / 4) % p < p := Nat.mod_lt _ p_prime.pos
  simp only [recoverYCoordinate]
  rcases sqrt_candidate hy h with hr | hr <;> rw [hr] <;> rw [hr] at hrp
  · cases isOdd <;> by_cases hpar : y % 2 = 1 <;> simp [hpar]
  · -- here `y ≠ 0`, so `p - y` has the other parity
    have hflip : decide ((p - y) % 2 = 1) = !decide (y % 2 = 1) := by
      by_cases hpar : y % 2 = 1 <;> simp [hpar] <;> omega
    rw [hflip]
    cases isOdd <;> by_cases hpar : y % 2 = 1 <;> simp [hpar] <;> omega

theorem natCast_sq_eq_iff (x y : ℕ) :
    (y : ZMod p) ^ 2 = (x : ZMod p) ^ 3 + 7 ↔ y ^ 2 % p = (x ^ 3 + 7) % p := by
  rw [← ZMod.natCast_eq_natCast_iff']
  push_cast
  rfl

section Point

variable {x y : ℕ} (hx : x < p) (hy : y < p) (h : (y : ZMod p) ^ 2 = (x : ZMod p) ^ 3 + 7)
include hx hy h

theorem parsePeerPublicKey_encodeCompressed : parsePeerPublicKey (encodeCompressed x y) = .ok (x, y) := by
  have hhead : (encodeCompressed x y).headD 0 = if y % 2 = 1 then 3 else 2 := rfl
  have hlen : (encodeCompressed x y).length = 33 := by simp [encodeCompressed]
  have hprefix : decide ((encodeCompressed x y).headD 0 = 0x03) = decide (y % 2 = 1) := by
    rw [hhead]
    by_cases hpar : y % 2 = 1 <;> simp [hpar]
  rw [parsePeerPublicKey, if_neg (by omega), if_pos hlen,
    if_neg (by rw [hhead]; split_ifs <;> decide), hprefix]
  simp only [encodeCompressed, List.drop_succ_cons, List.drop_zero,
    fromBytesBig_toBytesBig_of_lt hx, recoverYCoordinate_eq hy h, if_pos]
  rfl

theorem parsePeerPublicKey_toBytesBig :
    parsePeerPublicKey (toBytesBig 32 x) = .ok (x, if y % 2 = 0 then y else p - y) := by
  rw [parsePeerPublicKey, if_pos (length_toBytesBig 32 x)]
  simp only [fromBytesBig_toBytesBig_of_lt hx, recoverYCoordinate_eq hy h]
  congr 3
  rcases Nat.mod_two_eq_zero_or_one y with hpar | hpar <;> simp [hpar]

end Point

/-- The SEC1 form of a point decodes to the point, and the 32-byte form of its `x` to the point
with even `y` among `(x, y)` and `(x, p - y)`. -/
theorem recoverYCoordinate_inverts_encoding {x y : ℕ} (hx : x < p) (hy : y < p)
    (h : y ^ 2 % p = (x ^ 3 + 7) % p) :
    recoverYCoordinate x (decide (y % 2 = 1)) = y ∧
      parsePeerPublicKey (encodeCompressed x y) = .ok (x, y) ∧
      parsePeerPublicKey (toBytesBig 32 x) = .ok (x, if y % 2 = 0 then y else p - y) := by
  rw [← natCast_sq_eq_iff] at h
  exact ⟨by rw [recoverYCoordinate_eq hy h, if_pos rfl], parsePeerPublicKey_encodeCompressed hx hy h,
    parsePeerPublicKey_toBytesBig hx hy h⟩

theorem recoverYCoordinate_inverts_encoding_generator :
    recoverYCoordinate generatorX (decide (generatorY % 2 = 1)) = generatorY ∧
      parsePeerPublicKey (encodeCompressed generatorX generatorY) = .ok (generatorX, generatorY) ∧
      parsePeerPublicKey (toBytesBig 32 generatorX) =
        .ok (generatorX, if generatorY % 2 = 0 then generatorY else p - generatorY) :=
  recoverYCoordinate_inverts_encoding (by decide) (by decide) (by decide)

theorem cube_add_seven_ne_zero (x : ZMod p) : x ^ 3 + 7 ≠ 0 := by
  intro h
  have hx : x ≠ 0 := by
    rintro rfl
    exact (by decide : (7 : ZMod p) ≠ 0) (by simpa using h)
  have hcube : ((p - 7 : ℕ) : ZMod p) = x ^ 3 := by
    rw [Nat.cast_sub (by decide), ZMod.natCast_self, zero_sub, eq_neg_of_add_eq_zero_left h]
    norm_num
  -- then `(-7) ^ ((p - 1) / 3) = x ^ (p - 1) = 1`, which the computation refutes
  have hpow : ((p - 7 : ℕ) : ZMod p) ^ ((p - 1) / 3) = 1 := by
    rw [hcube, ← pow_mul, show 3 * ((p - 1) / 3) = p - 1 by decide, ZMod.pow_card_sub_one_eq_one hx]
  rw [natCast_pow_eq_one_iff p_prime.two_le, ← powMod_eq _ 256 _ _ (by decide)] at hpow
  exact absurd hpow (by set_option maxRecDepth 10000 in decide)

end CitrateCrypto.KeyAgreement
