import CitrateCrypto.KeyAgreement.ECDH

namespace CitrateCrypto.KeyAgreement

open FieldEngine Secp256k1

theorem toBytesBig_fromBytesBig (bs : List Byte) : toBytesBig bs.length (fromBytesBig bs) = bs := by
  induction bs using List.reverseRecOn with
  | nil => rfl
  | append_singleton bs b ih =>
    have hdiv : (fromBytesBig bs * 256 + b.val) / 256 = fromBytesBig bs := by omega
    have hmod : (⟨(fromBytesBig bs * 256 + b.val) % 256, Nat.mod_lt _ (by norm_num)⟩ : Byte) = b :=
      Fin.ext (show (fromBytesBig bs * 256 + b.val) % 256 = b.val by omega)
    rw [List.length_append, List.length_singleton, toBytesBig, fromBytesBig_append_singleton, hdiv,
      ih, hmod]

theorem toBytesBig_fromBytesBig_of_length {bs : List Byte} {len : ℕ} (h : bs.length = len) :
    toBytesBig len (fromBytesBig bs) = bs :=
  h ▸ toBytesBig_fromBytesBig bs

theorem parsePeerPublicKey_cases {b : List Byte} {x y : ℕ} (h : parsePeerPublicKey b = .ok (x, y)) :
    (b.length = 32 ∧ x = fromBytesBig b ∧ y = recoverYCoordinate x) ∨
      (∃ c rest, b = c :: rest ∧ rest.length = 32 ∧ (c = 2 ∨ c = 3) ∧ x = fromBytesBig rest ∧
        y = recoverYCoordinate x (c = 3)) ∨
      (∃ xs ys, b = 4 :: (xs ++ ys) ∧ xs.length = 32 ∧ ys.length = 32 ∧ x = fromBytesBig xs ∧
        y = fromBytesBig ys) := by
  unfold parsePeerPublicKey at h
  split_ifs at h with h32 h33 hpre h65 hpre'
  · obtain ⟨rfl, rfl⟩ := Prod.mk.inj (Except.ok.inj h)
    exact .inl ⟨h32, rfl, rfl⟩
  · obtain ⟨rfl, rfl⟩ := Prod.mk.inj (Except.ok.inj h)
    match b, h33, hpre with
    | c :: rest, h33, hpre =>
      refine .inr (.inl ⟨c, rest, rfl, by simpa using h33, ?_, rfl, rfl⟩)
      simpa using hpre
  · obtain ⟨rfl, rfl⟩ := Prod.mk.inj (Except.ok.inj h)
    match b, h65, hpre' with
    | c :: rest, h65, hpre' =>
      have hrest : rest.length = 64 := by simpa using h65
      refine .inr (.inr ⟨rest.take 32, rest.drop 32, ?_, by simp [hrest], by simp [hrest], rfl, ?_⟩)
      · rw [List.take_append_drop, show c = 4 by simpa using hpre']
      · rw [List.drop_succ_cons, List.take_of_length_le (by simp [hrest])]

theorem parity_of_recoverYCoordinate {x y : ℕ} {isOdd : Bool} (hy : y < p)
    (h : (y : ZMod p) ^ 2 = (x : ZMod p) ^ 3 + 7) (hrec : recoverYCoordinate x isOdd = y) :
    decide (y % 2 = 1) = isOdd := by
  have hp : p % 2 = 1 := by decide
  rw [recoverYCoordinate_eq hy h] at hrec
  split_ifs at hrec with hpar
  · exact hpar
  · omega

theorem encodeCompressed_of_parity {x y : ℕ} {c : Byte} (hc : c = 2 ∨ c = 3)
    (hpar : decide (y % 2 = 1) = decide (c = 3)) : encodeCompressed x y = c :: toBytesBig 32 x := by
  rw [encodeCompressed]
  congr 1
  rcases hc with rfl | rfl <;> simp_all

/-- Every public key that `perform_ecdh` decodes is the canonical encoding of the point it
decodes to: the 32 bytes of `x` when that point has even `y`, the SEC1 compressed form, or
`0x04 ‖ x ‖ y`. -/
theorem decodePublicKey_canonical {b : List Byte} {P : Point} (h : decodePublicKey b = .ok P) :
    ∃ x y : ZMod p, coords P = some (x, y) ∧
      ((b = toBytesBig 32 x.val ∧ y.val % 2 = 0) ∨ b = encodeCompressed x.val y.val ∨
        b = [4] ++ toBytesBig 32 x.val ++ toBytesBig 32 y.val) := by
  rw [decodePublicKey] at h
  obtain ⟨⟨x, y⟩, hparse, hnum⟩ : ∃ xy : ℕ × ℕ, parsePeerPublicKey b = .ok xy ∧
      publicKeyOfNumbers xy.1 xy.2 = .ok P := by
    cases hp : parsePeerPublicKey b with
    | error e => rw [hp] at h; exact nomatch h
    | ok xy => rw [hp] at h; exact ⟨xy, rfl, h⟩
  unfold publicKeyOfNumbers at hnum
  split_ifs at hnum with hok
  obtain ⟨hx, hy, hcurve⟩ := hok
  have hxv : (x : ZMod p).val = x := by rw [ZMod.val_natCast, Nat.mod_eq_of_lt hx]
  have hyv : (y : ZMod p).val = y := by rw [ZMod.val_natCast, Nat.mod_eq_of_lt hy]
  refine ⟨x, y, by rw [← Except.ok.inj hnum]; rfl, ?_⟩
  rw [hxv, hyv]
  rcases parsePeerPublicKey_cases hparse with ⟨hlen, rfl, hrec⟩ | ⟨c, rest, rfl, hlen, hc, rfl, hrec⟩ |
      ⟨xs, ys, rfl, hxs, hys, rfl, rfl⟩
  · -- the 32-byte form: `x`, then the even root
    have hpar := parity_of_recoverYCoordinate hy hcurve hrec.symm
    refine .inl ⟨(toBytesBig_fromBytesBig_of_length hlen).symm, ?_⟩
    simpa using hpar
  · -- the 33-byte form: the prefix is the parity of the root recovered
    have hpar := parity_of_recoverYCoordinate hy hcurve hrec.symm
    refine .inr (.inl ?_)
    rw [encodeCompressed_of_parity hc hpar, toBytesBig_fromBytesBig_of_length hlen]
  · -- the 65-byte form
    refine .inr (.inr ?_)
    rw [toBytesBig_fromBytesBig_of_length hxs, toBytesBig_fromBytesBig_of_length hys]
    rfl

namespace ECDHManager

/-- Every private key that `ECDHManager(private_key_bytes)` accepts is exported back unchanged:
it has 32 bytes, they are read as the private value, and `get_private_key_bytes` returns them. -/
theorem getPrivateKeyBytes_init {generated m : ECDHManager} {b : List Byte}
    (h : init generated b = .ok m) (hb : b ≠ []) :
    b.length = 32 ∧ m.privateValue = fromBytesBig b ∧ m.getPrivateKeyBytes = b := by
  unfold init derivePrivateKey at h
  rw [if_neg hb] at h
  split_ifs at h with hlen h0 hok
  obtain rfl := Except.ok.inj h
  have hlen' : b.length = 32 := not_not.mp hlen
  exact ⟨hlen', rfl, toBytesBig_fromBytesBig_of_length hlen'⟩

theorem getPrivateKeyBytes_init_one :
    let m : ECDHManager := ⟨1, by decide, by decide⟩
    let b : List Byte := List.replicate 31 0 ++ [1]
    init m b = .ok m ∧ b ≠ [] ∧ b.length = 32 ∧ m.privateValue = fromBytesBig b ∧
      m.getPrivateKeyBytes = b := by
  intro m b
  have hinit : init m b = .ok m := rfl
  have hne : b ≠ [] := by decide
  exact ⟨hinit, hne, getPrivateKeyBytes_init hinit hne⟩

end ECDHManager

/-- The generator's uncompressed encoding decodes to the generator. -/
theorem decodePublicKey_canonical_generator :
    decodePublicKey ([4] ++ toBytesBig 32 generatorX ++ toBytesBig 32 generatorY) = .ok G ∧
      ∃ x y : ZMod p, coords G = some (x, y) ∧
        (([4] ++ toBytesBig 32 generatorX ++ toBytesBig 32 generatorY = toBytesBig 32 x.val ∧
            y.val % 2 = 0) ∨
          [4] ++ toBytesBig 32 generatorX ++ toBytesBig 32 generatorY = encodeCompressed x.val y.val ∨
          [4] ++ toBytesBig 32 generatorX ++ toBytesBig 32 generatorY =
            [4] ++ toBytesBig 32 x.val ++ toBytesBig 32 y.val) := by
  have h : decodePublicKey ([4] ++ toBytesBig 32 generatorX ++ toBytesBig 32 generatorY) = .ok G := by
    rw [decodePublicKey, parsePeerPublicKey_uncompressed, fromBytesBig_toBytesBig_of_lt (by decide),
      fromBytesBig_toBytesBig_of_lt (by decide), ok_bind]
    exact publicKeyOfNumbers_eq _ (by decide) (by decide) rfl rfl
  exact ⟨h, decodePublicKey_canonical h⟩

end CitrateCrypto.KeyAgreement
