import CitrateCrypto.Wire.Hex
import CitrateCrypto.Envelope.KeyManager
import CitrateCrypto.KeyAgreement.LatticeKeys

namespace CitrateCrypto.Wire

open FieldEngine

theorem reraise_bind {α β : Type} (err : String → PyError) (context : String)
    (x : Except PyError α) (f : α → Except PyError β) :
    reraise err context (x >>= f) = match x with
      | .ok a => reraise err context (f a)
      | .error e => .error (err (context ++ e.str)) := by
  cases x <;> rfl

end CitrateCrypto.Wire

namespace CitrateCrypto.Envelope.KeyManager

open FieldEngine KeyAgreement Wire

variable (hkdf : List Byte → List Byte → List Byte → List Byte) (km : KeyManager)

/-- `KeyManager.get_public_key`, as the `str` the source returns. -/
def getPublicKeyHex : String := hex km.getPublicKey

def deriveSharedKeyHex (peerPublicKey : String) : Except PyError (List Byte) :=
  reraise .citrateError "Key derivation failed: " do
    let peerKeyBytes ← fromhex peerPublicKey
    km.ecdhManager.deriveSharedSecret hkdf peerKeyBytes (bytesOfString "citrate-model-encryption")
      (bytesOfString "shared-key-derivation")

theorem deriveSharedKeyHex_hex (peerKeyBytes : List Byte) :
    km.deriveSharedKeyHex hkdf (hex peerKeyBytes) = km.deriveSharedKey hkdf peerKeyBytes := by
  rw [deriveSharedKeyHex, fromhex_hex, ok_bind]
  rfl

theorem deriveSharedKeyHex_eq (peerPublicKey : String) :
    km.deriveSharedKeyHex hkdf peerPublicKey = match fromhex peerPublicKey with
      | .ok peerKeyBytes => km.deriveSharedKey hkdf peerKeyBytes
      | .error e => .error (.citrateError ("Key derivation failed: " ++ e.str)) := by
  rw [deriveSharedKeyHex, reraise_bind]
  cases fromhex peerPublicKey <;> rfl

/-- ECDH agreement on the wire: two key managers that exchange the strings of `get_public_key()`
both derive a key, and the same one. -/
theorem deriveSharedKeyHex_getPublicKeyHex (A B : KeyManager) :
    ∃ key, A.deriveSharedKeyHex hkdf B.getPublicKeyHex = .ok key ∧
      B.deriveSharedKeyHex hkdf A.getPublicKeyHex = .ok key := by
  rw [getPublicKeyHex, getPublicKeyHex, deriveSharedKeyHex_hex, deriveSharedKeyHex_hex]
  exact deriveSharedKey_getPublicKey hkdf A B

end CitrateCrypto.Envelope.KeyManager

namespace CitrateCrypto.KeyAgreement.LatticeKeyManager

open FieldEngine Secp256k1 Wire

variable (hkdf : List Byte → List Byte → List Byte → List Byte) (km : LatticeKeyManager)

/-- `KeyManager.get_public_key` of the lattice SDK, as the `str` the source returns. -/
def getPublicKeyHex : String := hex km.getPublicKey

/-- `KeyManager.derive_shared_key(peer_public_key: str)` of the lattice SDK. -/
def deriveSharedKeyHex (peerPublicKey : String) : Except PyError (List Byte) :=
  reraise .latticeError "Key derivation failed: " do
    let peerKeyBytes ← fromhex peerPublicKey
    let peerKey ← publicKeyOfNumbers (fromBytesBig peerKeyBytes) 0
    let sharedKey ← exchange km.ecdhPrivateKey.privateValue peerKey
    pure (hkdf (bytesOfString "lattice-model-encryption") (bytesOfString "shared-key-derivation")
      sharedKey)

/-- The lattice `derive_shared_key` raises on every string: with the library's invalid-key error
when the text is hex, and with the `ValueError` of `bytes.fromhex` when it is not. -/
theorem deriveSharedKeyHex_raises (peerPublicKey : String) :
    ∃ e, km.deriveSharedKeyHex hkdf peerPublicKey =
        .error (.latticeError ("Key derivation failed: " ++ e.str)) ∧
      (e = invalidECKey ∨ fromhex peerPublicKey = .error e) := by
  rw [deriveSharedKeyHex, reraise_bind]
  cases fromhex peerPublicKey with
  | error e => exact ⟨e, rfl, .inr rfl⟩
  | ok peerKeyBytes =>
    refine ⟨invalidECKey, ?_, .inl rfl⟩
    dsimp only
    rw [publicKeyOfNumbers_zero]
    rfl

end CitrateCrypto.KeyAgreement.LatticeKeyManager
