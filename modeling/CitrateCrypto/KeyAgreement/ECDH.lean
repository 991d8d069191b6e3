import CitrateCrypto.KeyAgreement.Decode
import CitrateCrypto.KeyAgreement.Order

namespace CitrateCrypto.KeyAgreement

open FieldEngine Secp256k1 WeierstrassCurve

def coords : Point → Option (ZMod p × ZMod p)
  | .zero => none
  | @Affine.Point.some _ _ _ x y _ => some (x, y)

theorem coords_neg (P : Point) : coords (-P) = (coords P).map fun c => (c.1, -c.2) := by
  rcases P with _ | @⟨x, y, h⟩
  · rfl
  · rw [Affine.Point.neg_some]
    simp [coords, curve]

theorem eq_some_of_coords {P : Point} (hs : (coords P).isSome) :
    ∃ h : curve.toAffine.Nonsingular ((coords P).get hs).1 ((coords P).get hs).2, P = .some h := by
  rcases P with _ | @⟨x, y, h⟩
  · exact absurd hs (by simp [coords])
  · exact ⟨h, rfl⟩

theorem coords_eq_none_iff (P : Point) : coords P = none ↔ P = 0 := by
  rcases P with _ | @⟨x, y, h⟩
  · exact iff_of_true rfl rfl
  · exact iff_of_false (Option.some_ne_none _) (Affine.Point.some_ne_zero h)

theorem equation_of_nonsingular {x y : ZMod p} (h : curve.toAffine.Nonsingular x y) :
    y ^ 2 = x ^ 3 + 7 := by
  have := ((Affine.nonsingular_iff' _ _ _).mp h).1
  rw [Affine.equation_iff] at this
  simpa [curve] using this

theorem publicKeyOfNumbers_eq {x y : ZMod p} (h : curve.toAffine.Nonsingular x y) {a b : ℕ}
    (ha : a < p) (hb : b < p) (hax : (a : ZMod p) = x) (hby : (b : ZMod p) = y) :
    publicKeyOfNumbers a b = .ok (.some h) := by
  rw [publicKeyOfNumbers, dif_pos ⟨ha, hb, by rw [hax, hby]; exact equation_of_nonsingular h⟩]
  simp only [Except.ok.injEq, Affine.Point.some.injEq, hax, hby, and_self]

/-- `private_key.exchange(ec.ECDH(), peer_public_key)`: the `x` of `private_value * peer`, as 32
bytes. The library raises at the point at infinity. -/
def exchange (privateValue : ℕ) (peer : Point) : Except PyError (List Byte) :=
  match coords (scalarMul privateValue peer) with
  | some (x, _) => .ok (toBytesBig 32 x.val)
  | none => .error (.valueError "Error computing shared key.")

theorem exchange_neg (d : ℕ) (Q : Point) : exchange d (-Q) = exchange d Q := by
  rw [exchange, exchange, scalarMul_eq, scalarMul_eq, neg_nsmul, coords_neg]
  cases coords (d • Q) <;> rfl

theorem exchange_comm (a b : ℕ) : exchange a (scalarMul b G) = exchange b (scalarMul a G) := by
  rw [exchange, exchange, scalarMul_eq, scalarMul_eq, scalarMul_eq, scalarMul_eq, smul_comm]

/-- An `ECDHManager` after `__init__`: the library's private key object, its private value in
`[1, n - 1]`. -/
structure ECDHManager where
  privateValue : ℕ
  privateValue_pos : 0 < privateValue
  privateValue_lt : privateValue < n

/-- `ec.derive_private_key(private_value, SECP256K1())`: the library accepts a positive value below
`n`. -/
def derivePrivateKey (privateValue : ℕ) : Except PyError ECDHManager :=
  if h0 : privateValue = 0 then .error (.valueError "private_value must be a positive integer.")
  else if h : privateValue < n then .ok ⟨privateValue, Nat.pos_of_ne_zero h0, h⟩
  else .error invalidECKey

namespace ECDHManager

/-- `ECDHManager.__init__(private_key_bytes)`. Empty bytes (like `None`) ask the library for a
fresh key, given here as `generated`. -/
def init (generated : ECDHManager) (privateKeyBytes : List Byte) : Except PyError ECDHManager :=
  if privateKeyBytes = [] then pure generated
  else if privateKeyBytes.length ≠ 32 then throw (.citrateError "Private key must be 32 bytes")
  else derivePrivateKey (fromBytesBig privateKeyBytes)

variable (m : ECDHManager)

def getPrivateKeyBytes : List Byte := toBytesBig 32 m.privateValue

theorem n_lt : n < 256 ^ 32 := by decide

theorem intToBytes_privateValue : intToBytes 32 m.privateValue = .ok m.getPrivateKeyBytes :=
  intToBytes_of_lt (m.privateValue_lt.trans n_lt)

theorem init_getPrivateKeyBytes (generated : ECDHManager) : init generated m.getPrivateKeyBytes = .ok m := by
  have hlen : m.getPrivateKeyBytes.length = 32 := length_toBytesBig 32 _
  have hval : fromBytesBig m.getPrivateKeyBytes = m.privateValue := by
    rw [getPrivateKeyBytes, fromBytesBig_toBytesBig, Nat.mod_eq_of_lt (m.privateValue_lt.trans n_lt)]
  rw [init, if_neg (fun h => by simp [h] at hlen), if_neg (by omega), hval, derivePrivateKey,
    dif_neg m.privateValue_pos.ne', dif_pos m.privateValue_lt]

def publicKey : Point := scalarMul m.privateValue G

theorem publicKey_ne_zero : m.publicKey ≠ 0 := by
  rw [publicKey, scalarMul_eq]
  exact smul_G_ne_zero m.privateValue_pos m.privateValue_lt

theorem coords_publicKey_isSome : (coords m.publicKey).isSome :=
  Option.ne_none_iff_isSome.mp fun h => m.publicKey_ne_zero ((coords_eq_none_iff _).mp h)

/-- `self.public_key.public_numbers()`: the coordinates `(x, y)` of the public key. -/
def publicNumbers : ZMod p × ZMod p := (coords m.publicKey).get m.coords_publicKey_isSome

/-- `get_public_key_compressed`: the 32 bytes of `x` (its docstring says 33 bytes). -/
def getPublicKeyCompressed : List Byte := toBytesBig 32 m.publicNumbers.1.val

/-- `get_public_key_uncompressed`: `b'\x04' + x + y`. -/
def getPublicKeyUncompressed : List Byte :=
  [4] ++ toBytesBig 32 m.publicNumbers.1.val ++ toBytesBig 32 m.publicNumbers.2.val

@[simp] theorem length_getPublicKeyUncompressed : m.getPublicKeyUncompressed.length = 65 := by
  simp [getPublicKeyUncompressed]

inductive KeyForm where
  | xOnly -- `get_public_key_compressed`, 32 bytes.
  | compressed -- The 33-byte SEC1 compressed form.
  | uncompressed -- `get_public_key_uncompressed`, 65 bytes.
deriving DecidableEq, Repr

def publicKeyBytes : KeyForm → List Byte
  | .xOnly => m.getPublicKeyCompressed
  | .compressed => encodeCompressed m.publicNumbers.1.val m.publicNumbers.2.val
  | .uncompressed => m.getPublicKeyUncompressed

end ECDHManager

/-- The first half of `perform_ecdh`: the peer's public key object from its bytes. -/
def decodePublicKey (peerPublicKeyBytes : List Byte) : Except PyError Point := do
  let (x, y) ← parsePeerPublicKey peerPublicKeyBytes
  publicKeyOfNumbers x y

def ECDHManager.performEcdh (m : ECDHManager) (peerPublicKeyBytes : List Byte) :
    Except PyError (List Byte) :=
  reraise .citrateError "ECDH key exchange failed: " do
    let peerPublicKey ← decodePublicKey peerPublicKeyBytes
    exchange m.privateValue peerPublicKey

theorem uncompressed_slices (a b : ℕ) :
    (([4] ++ toBytesBig 32 a ++ toBytesBig 32 b).drop 1).take 32 = toBytesBig 32 a ∧
      (([4] ++ toBytesBig 32 a ++ toBytesBig 32 b).drop 33).take 32 = toBytesBig 32 b := by
  constructor
  · rw [List.append_assoc, List.singleton_append, List.drop_one, List.tail_cons,
      List.take_left' (length_toBytesBig 32 a)]
  · rw [List.drop_left' (by simp), List.take_of_length_le (by simp)]

theorem parsePeerPublicKey_uncompressed (a b : ℕ) :
    parsePeerPublicKey ([4] ++ toBytesBig 32 a ++ toBytesBig 32 b) =
      .ok (fromBytesBig (toBytesBig 32 a), fromBytesBig (toBytesBig 32 b)) := by
  rw [parsePeerPublicKey, if_neg (by simp), if_neg (by simp), if_pos (by simp), if_neg (by simp),
    (uncompressed_slices a b).1, (uncompressed_slices a b).2]
  rfl

namespace ECDHManager

variable (m : ECDHManager)

theorem publicKeyOfNumbers_publicNumbers :
    publicKeyOfNumbers m.publicNumbers.1.val m.publicNumbers.2.val = .ok m.publicKey := by
  obtain ⟨h, hP⟩ := eq_some_of_coords m.coords_publicKey_isSome
  rw [← publicNumbers] at h
  rw [hP]
  exact publicKeyOfNumbers_eq h (ZMod.val_lt _) (ZMod.val_lt _) (ZMod.natCast_zmod_val _)
    (ZMod.natCast_zmod_val _)

theorem decodePublicKey_publicKeyBytes (form : KeyForm) :
    decodePublicKey (m.publicKeyBytes form) = .ok m.publicKey ∨
      decodePublicKey (m.publicKeyBytes form) = .ok (-m.publicKey) := by
  obtain ⟨h, hP⟩ := eq_some_of_coords m.coords_publicKey_isSome
  rw [← publicNumbers] at h
  set x := m.publicNumbers.1
  set y := m.publicNumbers.2
  have hcurve : ((y.val : ℕ) : ZMod p) ^ 2 = ((x.val : ℕ) : ZMod p) ^ 3 + 7 := by
    rw [ZMod.natCast_zmod_val, ZMod.natCast_zmod_val]
    exact equation_of_nonsingular h
  cases form with
  | xOnly =>
    rw [publicKeyBytes, getPublicKeyCompressed, decodePublicKey,
      parsePeerPublicKey_toBytesBig (ZMod.val_lt x) (ZMod.val_lt y) hcurve, ok_bind]
    dsimp only
    split_ifs with hpar
    · exact Or.inl m.publicKeyOfNumbers_publicNumbers
    · -- an odd `y` is not `0`, and `p - y` stands for `-y`
      have hlt : p - y.val < p := Nat.sub_lt p_prime.pos (by omega)
      have hneg : ((p - y.val : ℕ) : ZMod p) = curve.toAffine.negY x y := by
        rw [Nat.cast_sub (ZMod.val_lt y).le, ZMod.natCast_self, ZMod.natCast_zmod_val, zero_sub,
          negY_eq]
      right
      rw [hP, Affine.Point.neg_some]
      exact publicKeyOfNumbers_eq _ (ZMod.val_lt x) hlt (ZMod.natCast_zmod_val x) hneg
  | compressed =>
    rw [publicKeyBytes, decodePublicKey,
      parsePeerPublicKey_encodeCompressed (ZMod.val_lt x) (ZMod.val_lt y) hcurve, ok_bind]
    exact Or.inl m.publicKeyOfNumbers_publicNumbers
  | uncompressed =>
    rw [publicKeyBytes, getPublicKeyUncompressed, decodePublicKey, parsePeerPublicKey_uncompressed,
      fromBytesBig_toBytesBig_of_lt (ZMod.val_lt x), fromBytesBig_toBytesBig_of_lt (ZMod.val_lt y),
      ok_bind]
    exact Or.inl m.publicKeyOfNumbers_publicNumbers

theorem performEcdh_publicKeyBytes (A B : ECDHManager) (form : KeyForm) :
    A.performEcdh (B.publicKeyBytes form) =
      reraise .citrateError "ECDH key exchange failed: " (exchange A.privateValue B.publicKey) := by
  rcases B.decodePublicKey_publicKeyBytes form with h | h <;> rw [performEcdh, h, ok_bind]
  rw [exchange_neg]

section Hkdf

-- HKDF-SHA256 with output length 32, as a function of salt, info and input key material
variable (hkdf : List Byte → List Byte → List Byte → List Byte)

def deriveSharedSecret (peerPublicKeyBytes : List Byte)
    (salt : List Byte := bytesOfString "citrate-ecdh") (info : List Byte := bytesOfString "shared-secret") :
    Except PyError (List Byte) := do
  let sharedKey ← m.performEcdh peerPublicKeyBytes
  pure (hkdf salt info sharedKey)

theorem exchange_publicKey (A B : ECDHManager) :
    ∃ x y : ZMod p, coords (scalarMul (A.privateValue * B.privateValue) G) = some (x, y) ∧
      exchange A.privateValue B.publicKey = .ok (toBytesBig 32 x.val) := by
  have hne : (A.privateValue * B.privateValue) • G ≠ 0 := by
    rw [Ne, smul_G_eq_zero_iff, n_prime.dvd_mul]
    rintro (h | h)
    · exact absurd (Nat.le_of_dvd A.privateValue_pos h) (Nat.not_le.mpr A.privateValue_lt)
    · exact absurd (Nat.le_of_dvd B.privateValue_pos h) (Nat.not_le.mpr B.privateValue_lt)
  rw [← scalarMul_eq, Ne, ← coords_eq_none_iff] at hne
  obtain ⟨⟨x, y⟩, hc⟩ := Option.ne_none_iff_exists'.mp hne
  refine ⟨x, y, hc, ?_⟩
  rw [exchange, publicKey, scalarMul_eq, scalarMul_eq, ← mul_smul, ← scalarMul_eq, hc]

theorem deriveSharedSecret_publicKeyBytes (A B : ECDHManager) (form : KeyForm) (salt info : List Byte) :
    ∃ x y : ZMod p, coords (scalarMul (A.privateValue * B.privateValue) G) = some (x, y) ∧
      A.deriveSharedSecret hkdf (B.publicKeyBytes form) salt info =
        .ok (hkdf salt info (toBytesBig 32 x.val)) := by
  obtain ⟨x, y, hc, hx⟩ := exchange_publicKey A B
  exact ⟨x, y, hc, by rw [deriveSharedSecret, performEcdh_publicKeyBytes, hx]; rfl⟩

theorem deriveSharedSecret_comm (A B : ECDHManager) (formA formB : KeyForm) (salt info : List Byte) :
    A.deriveSharedSecret hkdf (B.publicKeyBytes formB) salt info =
      B.deriveSharedSecret hkdf (A.publicKeyBytes formA) salt info := by
  rw [deriveSharedSecret, deriveSharedSecret, performEcdh_publicKeyBytes, performEcdh_publicKeyBytes,
    publicKey, publicKey, exchange_comm]

end Hkdf

end ECDHManager

/-- ECDSA over SHA-256 as the library provides it: `sign d msg` signs with the private value `d`,
`verify Q msg sig` checks a signature against the public point `Q`, and a signature verifies under
the signer's own point. -/
structure Ecdsa where
  sign : ℕ → List Byte → List Byte
  verify : Point → List Byte → List Byte → Bool
  verify_sign : ∀ d msg, verify (scalarMul d G) msg (sign d msg) = true

section Signatures

variable (ecdsa : Ecdsa)

def ECDHManager.signMessage (m : ECDHManager) (message : List Byte) : List Byte :=
  ecdsa.sign m.privateValue message

/-- `ECDHManager.verify_signature`: only 33- and 65-byte keys are parsed; any other length, and
any exception, gives `False`. -/
def verifySignature (message signature publicKeyBytes : List Byte) : Bool :=
  let verifyNumbers : ℕ → ℕ → Bool := fun x y =>
    match publicKeyOfNumbers x y with
    | .ok publicKey => ecdsa.verify publicKey message signature
    | .error _ => false
  if publicKeyBytes.length = 33 then
    let x := fromBytesBig (publicKeyBytes.drop 1)
    verifyNumbers x (recoverYCoordinate x (publicKeyBytes.headD 0 = 0x03))
  else if publicKeyBytes.length = 65 then
    verifyNumbers (fromBytesBig ((publicKeyBytes.drop 1).take 32))
      (fromBytesBig ((publicKeyBytes.drop 33).take 32))
  else false

theorem verifySignature_getPublicKeyUncompressed (m : ECDHManager) (message : List Byte) :
    verifySignature ecdsa message (m.signMessage ecdsa message) m.getPublicKeyUncompressed = true := by
  rw [verifySignature, if_neg (by simp), if_pos m.length_getPublicKeyUncompressed]
  simp only [ECDHManager.getPublicKeyUncompressed, uncompressed_slices,
    fromBytesBig_toBytesBig_of_lt (ZMod.val_lt _), m.publicKeyOfNumbers_publicNumbers]
  exact ecdsa.verify_sign _ _

/-- A signature never verifies against `get_public_key_compressed`, and always against
`get_public_key_uncompressed`. -/
theorem verifySignature_published_keys (m : ECDHManager) (message : List Byte) :
    verifySignature ecdsa message (m.signMessage ecdsa message) m.getPublicKeyCompressed = false ∧
      verifySignature ecdsa message (m.signMessage ecdsa message) m.getPublicKeyUncompressed = true :=
  ⟨by simp [verifySignature, ECDHManager.getPublicKeyCompressed],
    verifySignature_getPublicKeyUncompressed ecdsa m message⟩

theorem verifySignature_cons_drop_one (message signature : List Byte) {publicKeyBytes : List Byte}
    (hlen : publicKeyBytes.length = 65) (b : Byte) :
    verifySignature ecdsa message signature (b :: publicKeyBytes.drop 1) =
      verifySignature ecdsa message signature publicKeyBytes := by
  have hlen' : (b :: publicKeyBytes.drop 1).length = 65 := by simp [hlen]
  have h33 : (b :: publicKeyBytes.drop 1).drop 33 = publicKeyBytes.drop 33 := by
    rw [List.drop_succ_cons, List.drop_drop]
  rw [verifySignature, verifySignature, if_neg (by omega), if_pos hlen', if_neg (by omega),
    if_pos hlen, h33]
  rfl

/-- `verify_signature` parses a key as `perform_ecdh` does but never checks its prefix byte: on a
well-formed key it checks the signature against the point `perform_ecdh` decodes, while an
uncompressed key under the prefix `0x05` still verifies its owner's signatures and
`perform_ecdh` rejects it. -/
theorem verifySignature_skips_prefix_check :
    (∀ message signature publicKeyBytes : List Byte,
      (publicKeyBytes.length = 33 ∧ publicKeyBytes.headD 0 ∈ [0x02, 0x03] ∨
        publicKeyBytes.length = 65 ∧ publicKeyBytes.headD 0 = 0x04) →
      verifySignature ecdsa message signature publicKeyBytes =
        match decodePublicKey publicKeyBytes with
        | .ok publicKey => ecdsa.verify publicKey message signature
        | .error _ => false) ∧
    ∀ (A m : ECDHManager) (message : List Byte),
      verifySignature ecdsa message (m.signMessage ecdsa message)
          (5 :: m.getPublicKeyUncompressed.drop 1) = true ∧
        A.performEcdh (5 :: m.getPublicKeyUncompressed.drop 1) =
          .error (.citrateError ("ECDH key exchange failed: " ++ "Invalid uncompressed public key prefix")) := by
  refine ⟨fun message signature pk h => ?_, fun A m message => ?_⟩
  · rcases h with ⟨h33, hpre⟩ | ⟨h65, hpre⟩
    · rw [verifySignature, if_pos h33, decodePublicKey, parsePeerPublicKey, if_neg (by omega),
        if_pos h33, if_neg (not_not.mpr hpre)]
      rfl
    · rw [verifySignature, if_neg (by omega), if_pos h65, decodePublicKey, parsePeerPublicKey,
        if_neg (by omega), if_neg (by omega), if_pos h65, if_neg (not_not.mpr hpre)]
      rfl
  · have hlen' : (5 :: m.getPublicKeyUncompressed.drop 1).length = 65 := by simp
    refine ⟨by rw [verifySignature_cons_drop_one ecdsa _ _ m.length_getPublicKeyUncompressed,
      verifySignature_getPublicKeyUncompressed], ?_⟩
    rw [ECDHManager.performEcdh, decodePublicKey, parsePeerPublicKey, if_neg (by omega),
      if_neg (by omega), if_pos hlen', if_pos (by simp)]
    rfl

end Signatures

end CitrateCrypto.KeyAgreement
