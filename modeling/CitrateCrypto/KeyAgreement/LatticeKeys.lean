import CitrateCrypto.KeyAgreement.ECDH

namespace CitrateCrypto.KeyAgreement

open FieldEngine Secp256k1

/-- A lattice SDK `KeyManager` after `__init__`: the account key and the ECDH key the library
generated for it. -/
structure LatticeKeyManager where
  account : List Byte
  ecdhPrivateKey : ECDHManager

namespace LatticeKeyManager

variable (km : LatticeKeyManager)

/-- `KeyManager.get_public_key`: the 32 bytes of `x`, which the source hex-encodes. -/
def getPublicKey : List Byte := toBytesBig 32 km.ecdhPrivateKey.publicNumbers.1.val

-- HKDF-SHA256 with output length 32, as a function of salt, info and input key material
variable (hkdf : List Byte → List Byte → List Byte → List Byte)

/-- `KeyManager.derive_shared_key`, with the peer's key as the bytes of its hex text. -/
def deriveSharedKey (peerPublicKey : List Byte) : Except PyError (List Byte) :=
  reraise .latticeError "Key derivation failed: " do
    let peerKey ← publicKeyOfNumbers (fromBytesBig peerPublicKey) 0
    let sharedKey ← exchange km.ecdhPrivateKey.privateValue peerKey
    pure (hkdf (bytesOfString "lattice-model-encryption") (bytesOfString "shared-key-derivation")
      sharedKey)

theorem publicKeyOfNumbers_zero (x : ℕ) : publicKeyOfNumbers x 0 = .error invalidECKey := by
  rw [publicKeyOfNumbers, dif_neg]
  rintro ⟨-, -, h⟩
  exact cube_add_seven_ne_zero (x : ZMod p) (by rw [← h]; simp)

/-- `derive_shared_key` raises for every peer key, the one of any other `KeyManager` included. -/
theorem deriveSharedKey_always_raises (peerPublicKey : List Byte) :
    km.deriveSharedKey hkdf peerPublicKey =
      .error (.latticeError ("Key derivation failed: " ++ invalidECKey.str)) := by
  rw [deriveSharedKey, publicKeyOfNumbers_zero]
  rfl

end LatticeKeyManager

end CitrateCrypto.KeyAgreement
