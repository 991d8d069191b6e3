import CitrateCrypto.Envelope.KeyShares
import CitrateCrypto.KeyAgreement.ECDH
import CitrateCrypto.Wire.Json

namespace CitrateCrypto.Envelope

open FieldEngine SecretSharing KeyAgreement Wire

/-- AES-256-GCM with no associated data, as an ideal AEAD: `encrypt` never raises (the library's
raises `OverflowError` past `2 ^ 31 - 1` bytes), `decrypt` fails (`InvalidTag`) on a ciphertext that
does not authenticate, and inverts `encrypt` under the same key and nonce. -/
structure Aead where
  encrypt : List Byte → List Byte → List Byte → List Byte
  decrypt : List Byte → List Byte → List Byte → Option (List Byte)
  decrypt_encrypt : ∀ key nonce m, decrypt key nonce (encrypt key nonce m) = some m

structure EncryptionConfig where
  algorithm : String := "AES-256-GCM"
  keyDerivation : String := "HKDF-SHA256"
  accessControl : Bool := true
  thresholdShares : ℤ := 0
  totalShares : ℤ := 0

/-- The metadata of `encrypt_model` as it builds it: the nonce as hex, the wrapped key as the JSON
text of `_encrypt_key_for_owner`, and the shares when threshold sharing is on. -/
structure EncryptionMetadata where
  algorithm : String
  nonce : String
  keyDerivation : String
  encryptedKey : String
  accessControl : Bool
  keyShares : Option (List ShareRecord)

def ShareRecord.toDict (r : ShareRecord) : PyValue :=
  strDict [("x", toString r.x), ("y", hex r.y), ("threshold", toString r.threshold)]

def EncryptionMetadata.toDict (metadata : EncryptionMetadata) : PyValue :=
  .dict ([("algorithm", .str metadata.algorithm), ("nonce", .str metadata.nonce),
    ("key_derivation", .str metadata.keyDerivation), ("encrypted_key", .str metadata.encryptedKey),
    ("access_control", .bool metadata.accessControl)] ++
    match metadata.keyShares with
    | some keyShares => [("key_shares", .list (keyShares.map ShareRecord.toDict))]
    | none => [])

@[simp] theorem EncryptionMetadata.getItem_nonce (metadata : EncryptionMetadata) :
    metadata.toDict.getItem "nonce" = .ok (.str metadata.nonce) := rfl

@[simp] theorem EncryptionMetadata.getItem_encryptedKey (metadata : EncryptionMetadata) :
    metadata.toDict.getItem "encrypted_key" = .ok (.str metadata.encryptedKey) := rfl

/-- What `secrets.token_bytes` returns during one `encrypt_model` call: the data key, its nonce,
then the salt and the nonce of `_encrypt_key_for_owner`. -/
structure EnvelopeDraws where
  key : List Byte
  nonce : List Byte
  salt : List Byte
  wrapNonce : List Byte

structure KeyManager where
  accountKey : List Byte
  ecdhManager : ECDHManager

namespace KeyManager

section

variable (aead : Aead) (hkdf : List Byte → List Byte → List Byte → List Byte) (json : JsonCodec)
  (km : KeyManager)

def ownerKey (salt : List Byte) : List Byte :=
  hkdf salt (bytesOfString "citrate-key-wrapping") km.accountKey

def encryptKeyForOwner (salt nonce key : List Byte) : String :=
  json.dumps (strDict [("encrypted_key", hex (aead.encrypt (km.ownerKey hkdf salt) nonce key)),
    ("nonce", hex nonce), ("salt", hex salt)])

def decryptKeyFromOwner (encryptedKeyPackage : PyValue) : Except PyError (List Byte) := do
  let package ← json.loadsValue encryptedKeyPackage
  let encryptedKey ← package.hexField "encrypted_key"
  let nonce ← package.hexField "nonce"
  let salt ← package.hexField "salt"
  match aead.decrypt (km.ownerKey hkdf salt) nonce encryptedKey with
  | some key => pure key
  | none => throw .invalidTag

def encryptModel (draws : EnvelopeDraws) (rng : ℕ → Byte) (modelData : List Byte)
    (config : EncryptionConfig) : Except PyError (List Byte × EncryptionMetadata) := do
  let ciphertext := aead.encrypt draws.key draws.nonce modelData
  let metadata : EncryptionMetadata :=
    { algorithm := config.algorithm
      nonce := hex draws.nonce
      keyDerivation := config.keyDerivation
      encryptedKey := km.encryptKeyForOwner aead hkdf json draws.salt draws.wrapNonce draws.key
      accessControl := config.accessControl
      keyShares := none }
  if config.thresholdShares > 0 then
    let keyShares ← createKeyShares rng draws.key config.thresholdShares config.totalShares
    pure (ciphertext, { metadata with keyShares := some keyShares })
  else pure (ciphertext, metadata)

def decryptModel (encryptedData : List Byte) (metadata : PyValue) : Except PyError (List Byte) :=
  reraise .citrateError "Model decryption failed: " do
    let nonce ← metadata.hexField "nonce"
    let encryptedKey ← metadata.getItem "encrypted_key"
    let key ← km.decryptKeyFromOwner aead hkdf json encryptedKey
    match aead.decrypt key nonce encryptedData with
    | some plaintext => pure plaintext
    | none => throw .invalidTag

theorem hexField_wrappedKey (encryptedKey nonce salt : List Byte) :
    (strDict [("encrypted_key", hex encryptedKey), ("nonce", hex nonce), ("salt", hex salt)]).hexField
        "encrypted_key" = .ok encryptedKey ∧
      (strDict [("encrypted_key", hex encryptedKey), ("nonce", hex nonce), ("salt", hex salt)]).hexField
        "nonce" = .ok nonce ∧
      (strDict [("encrypted_key", hex encryptedKey), ("nonce", hex nonce), ("salt", hex salt)]).hexField
        "salt" = .ok salt :=
  ⟨fromhex_hex encryptedKey, fromhex_hex nonce, fromhex_hex salt⟩

theorem decryptKeyFromOwner_encryptKeyForOwner (salt nonce key : List Byte) :
    km.decryptKeyFromOwner aead hkdf json (.str (km.encryptKeyForOwner aead hkdf json salt nonce key)) =
      .ok key := by
  set encryptedKey := aead.encrypt (km.ownerKey hkdf salt) nonce key
  obtain ⟨h₁, h₂, h₃⟩ := hexField_wrappedKey encryptedKey nonce salt
  have hkeys : ([("encrypted_key", hex encryptedKey), ("nonce", hex nonce), ("salt", hex salt)].map
      Prod.fst).Nodup := show (["encrypted_key", "nonce", "salt"] : List String).Nodup by decide
  rw [decryptKeyFromOwner, encryptKeyForOwner, json.loadsValue_dumps _ hkeys, ok_bind, h₁, ok_bind, h₂,
    ok_bind, h₃, ok_bind, aead.decrypt_encrypt]
  rfl

theorem encryptModel_eq (draws : EnvelopeDraws) (rng : ℕ → Byte) (modelData : List Byte)
    (config : EncryptionConfig) :
    ∃ keyShares, km.encryptModel aead hkdf json draws rng modelData config =
      (fun shares => (aead.encrypt draws.key draws.nonce modelData,
        (⟨config.algorithm, hex draws.nonce, config.keyDerivation,
          km.encryptKeyForOwner aead hkdf json draws.salt draws.wrapNonce draws.key,
          config.accessControl, shares⟩ : EncryptionMetadata))) <$> keyShares ∧
      (config.thresholdShares ≤ 0 → keyShares = .ok none) ∧
      (0 < config.thresholdShares → keyShares = some <$>
        createKeyShares rng draws.key config.thresholdShares config.totalShares) := by
  by_cases ht : 0 < config.thresholdShares
  · refine ⟨some <$> createKeyShares rng draws.key config.thresholdShares config.totalShares, ?_,
      fun h => absurd ht (not_lt.mpr h), fun _ => rfl⟩
    rw [encryptModel, if_pos ht]
    cases createKeyShares rng draws.key config.thresholdShares config.totalShares <;> rfl
  · exact ⟨.ok none, by rw [encryptModel, if_neg ht]; rfl, fun _ => rfl, fun h => absurd h ht⟩

/-- The envelope round trip: `decrypt_model(*encrypt_model(m, config))` returns `m`, for every
payload and every config that turns threshold sharing off or asks for a valid scheme. -/
theorem decryptModel_encryptModel (draws : EnvelopeDraws) (rng : ℕ → Byte) (m : List Byte)
    (config : EncryptionConfig)
    (hconfig : config.thresholdShares ≤ 0 ∨ (1 ≤ config.thresholdShares ∧
      config.thresholdShares ≤ config.totalShares ∧ config.totalShares ≤ 255)) :
    (km.encryptModel aead hkdf json draws rng m config >>= fun (ciphertext, metadata) =>
      km.decryptModel aead hkdf json ciphertext metadata.toDict) = .ok m := by
  obtain ⟨keyShares, henc, hoff, hon⟩ := km.encryptModel_eq aead hkdf json draws rng m config
  -- the shares never fail, so the call returns an envelope
  obtain ⟨shares, hshares⟩ : ∃ shares, keyShares = .ok shares := by
    rcases hconfig with h | ⟨h1, h2, h3⟩
    · exact ⟨none, hoff h⟩
    · obtain ⟨t, ht⟩ := Int.eq_ofNat_of_zero_le (by omega : (0 : ℤ) ≤ config.thresholdShares)
      obtain ⟨n, hn⟩ := Int.eq_ofNat_of_zero_le (by omega : (0 : ℤ) ≤ config.totalShares)
      rw [hon (by omega), createKeyShares, ht, hn,
        splitSecretBytes_eq (t := t) (n := n) (by omega) (by omega) (by omega), splitSecret_val]
      exact ⟨_, rfl⟩
  rw [henc, hshares]
  show km.decryptModel aead hkdf json _ (EncryptionMetadata.toDict _) = _
  rw [decryptModel, PyValue.hexField, EncryptionMetadata.getItem_nonce, ok_bind, PyValue.fromhex_str,
    fromhex_hex, ok_bind, EncryptionMetadata.getItem_encryptedKey, ok_bind,
    decryptKeyFromOwner_encryptKeyForOwner, ok_bind, aead.decrypt_encrypt]
  rfl

end

theorem decryptModel_encryptModel_two_of_three :
    let aead : Aead := ⟨fun _ _ m => m, fun _ _ c => some c, fun _ _ _ => rfl⟩
    let hkdf : List Byte → List Byte → List Byte → List Byte := fun _ _ k => k
    let km : KeyManager := ⟨[], ⟨1, by decide, by decide⟩⟩
    (km.encryptModel aead hkdf escapedCodec ⟨[1], [2], [3], [4]⟩ (fun _ => 0) [7]
        { thresholdShares := 2, totalShares := 3 } >>= fun (ciphertext, metadata) =>
      km.decryptModel aead hkdf escapedCodec ciphertext metadata.toDict) = .ok [7] :=
  decryptModel_encryptModel _ _ _ _ _ _ _ _ (Or.inr ⟨by decide, by decide, by decide⟩)

section

variable (hkdf : List Byte → List Byte → List Byte → List Byte) (km : KeyManager)

/-- `KeyManager.get_public_key`: `get_public_key_compressed`, which the source hex-encodes. -/
def getPublicKey : List Byte := km.ecdhManager.getPublicKeyCompressed

/-- `KeyManager.derive_shared_key`, with the peer's key as the bytes of its hex text. -/
def deriveSharedKey (peerPublicKey : List Byte) : Except PyError (List Byte) :=
  reraise .citrateError "Key derivation failed: "
    (km.ecdhManager.deriveSharedSecret hkdf peerPublicKey (bytesOfString "citrate-model-encryption")
      (bytesOfString "shared-key-derivation"))

theorem deriveSharedKey_getPublicKey (A B : KeyManager) :
    ∃ key, A.deriveSharedKey hkdf B.getPublicKey = .ok key ∧
      B.deriveSharedKey hkdf A.getPublicKey = .ok key := by
  obtain ⟨x, -, -, hx⟩ :=
    A.ecdhManager.deriveSharedSecret_publicKeyBytes hkdf B.ecdhManager .xOnly
      (bytesOfString "citrate-model-encryption") (bytesOfString "shared-key-derivation")
  have hy := ECDHManager.deriveSharedSecret_comm hkdf A.ecdhManager B.ecdhManager .xOnly .xOnly
    (bytesOfString "citrate-model-encryption") (bytesOfString "shared-key-derivation")
  exact ⟨_, congrArg (reraise _ _) hx, congrArg (reraise _ _) (hy.symm.trans hx)⟩

end

/-- ECDH agreement: two managers derive the same secret from each other's public keys, for every
salt and info and whichever encoding each publishes, and that secret is HKDF of the `x` of
`(a * b) * G`; so `KeyManager.derive_shared_key` returns one key to both of two key managers
exchanging `get_public_key()`. -/
theorem deriveSharedSecret_agreement (hkdf : List Byte → List Byte → List Byte → List Byte) :
    (∀ (A B : ECDHManager) (formA formB : ECDHManager.KeyForm) (salt info : List Byte),
      A.deriveSharedSecret hkdf (B.publicKeyBytes formB) salt info =
          B.deriveSharedSecret hkdf (A.publicKeyBytes formA) salt info ∧
        ∃ x y : ZMod Secp256k1.p,
          coords (Secp256k1.scalarMul (A.privateValue * B.privateValue) Secp256k1.G) = some (x, y) ∧
            A.deriveSharedSecret hkdf (B.publicKeyBytes formB) salt info =
              .ok (hkdf salt info (toBytesBig 32 x.val))) ∧
      ∀ A B : KeyManager, ∃ key, A.deriveSharedKey hkdf B.getPublicKey = .ok key ∧
        B.deriveSharedKey hkdf A.getPublicKey = .ok key :=
  ⟨fun A B formA formB salt info => ⟨ECDHManager.deriveSharedSecret_comm hkdf A B formA formB
    salt info, A.deriveSharedSecret_publicKeyBytes hkdf B formB salt info⟩,
    deriveSharedKey_getPublicKey hkdf⟩

end KeyManager

end CitrateCrypto.Envelope
