import CitrateCrypto.Envelope.KeyManager
import CitrateCrypto.KeyAgreement.LatticeKeys

namespace CitrateCrypto.Envelope

open FieldEngine KeyAgreement Wire

/-- `xs[:stop]` for an `int` stop: a negative stop counts from the end. -/
def sliceTo {α : Type} (xs : List α) (stop : ℤ) : List α :=
  xs.take (if 0 ≤ stop then stop.toNat else (xs.length + stop).toNat)

/-- What `secrets.token_bytes` returns during one lattice `encrypt_model` call: the data key, its
nonce, then the nonce of `_encrypt_key_for_owner`. -/
structure LatticeDraws where
  key : List Byte
  nonce : List Byte
  wrapNonce : List Byte

end CitrateCrypto.Envelope

namespace CitrateCrypto.KeyAgreement.LatticeKeyManager

open FieldEngine Envelope Wire

-- SHA-256, as a function of the bytes it digests
variable (aead : Aead) (sha256 : List Byte → List Byte) (json : JsonCodec) (km : LatticeKeyManager)

/-- `KeyManager._create_key_shares` of the lattice SDK: no check, and one digest per holder. -/
def createKeyShares (key : List Byte) (threshold total : ℤ) : Except PyError (List ShareRecord) :=
  (List.range' 1 total.toNat).mapM fun i : ℕ => do
    let iBytes ← intToBytes 4 i
    pure ⟨i, sha256 (key ++ iBytes), threshold⟩

def reconstructKeyFromShares (shares : List ShareRecord) : Except PyError (List Byte) :=
  match shares with
  | [] => .error .indexError
  | first :: _ =>
    if (shares.length : ℤ) < first.threshold then
      .error (.latticeError "Insufficient shares for key reconstruction")
    else .ok (sha256 ((sliceTo shares first.threshold).flatMap ShareRecord.y))

def ownerKey : List Byte := sha256 km.account

def encryptKeyForOwner (nonce key : List Byte) : String :=
  json.dumps (strDict [("encrypted_key", hex (aead.encrypt (km.ownerKey sha256) nonce key)),
    ("nonce", hex nonce)])

def decryptKeyFromOwner (encryptedKeyPackage : PyValue) : Except PyError (List Byte) := do
  let package ← json.loadsValue encryptedKeyPackage
  let encryptedKey ← package.hexField "encrypted_key"
  let nonce ← package.hexField "nonce"
  match aead.decrypt (km.ownerKey sha256) nonce encryptedKey with
  | some key => pure key
  | none => throw .invalidTag

def encryptModel (draws : LatticeDraws) (modelData : List Byte) (config : EncryptionConfig) :
    Except PyError (List Byte × EncryptionMetadata) := do
  let ciphertext := aead.encrypt draws.key draws.nonce modelData
  let metadata : EncryptionMetadata :=
    { algorithm := config.algorithm
      nonce := hex draws.nonce
      keyDerivation := config.keyDerivation
      encryptedKey := km.encryptKeyForOwner aead sha256 json draws.wrapNonce draws.key
      accessControl := config.accessControl
      keyShares := none }
  if config.thresholdShares > 0 then
    let keyShares ← createKeyShares sha256 draws.key config.thresholdShares config.totalShares
    pure (ciphertext, { metadata with keyShares := some keyShares })
  else pure (ciphertext, metadata)

def decryptModel (encryptedData : List Byte) (metadata : PyValue) : Except PyError (List Byte) :=
  reraise .latticeError "Model decryption failed: " do
    let nonce ← metadata.hexField "nonce"
    let encryptedKey ← metadata.getItem "encrypted_key"
    let key ← km.decryptKeyFromOwner aead sha256 json encryptedKey
    match aead.decrypt key nonce encryptedData with
    | some plaintext => pure plaintext
    | none => throw .invalidTag

theorem createKeyShares_of_lt (key : List Byte) (threshold : ℤ) {total : ℤ} (h : total < 2 ^ 32) :
    createKeyShares sha256 key threshold total =
      .ok ((List.range' 1 total.toNat).map fun i : ℕ => ⟨i, sha256 (key ++ toBytesBig 4 i), threshold⟩) :=
  mapM_eq_ok fun i hi => by
    rw [intToBytes_of_lt (by rw [List.mem_range'_1] at hi; omega)]
    rfl

theorem createKeyShares_of_le (key : List Byte) (threshold : ℤ) {total : ℤ} (h : 2 ^ 32 ≤ total) :
    createKeyShares sha256 key threshold total = .error (.overflowError "int too big to convert") := by
  have hsplit : List.range' 1 total.toNat =
      List.range' 1 (2 ^ 32 - 1) ++ 2 ^ 32 :: List.range' (2 ^ 32 + 1) (total.toNat - 2 ^ 32) := by
    have hcons : 2 ^ 32 :: List.range' (2 ^ 32 + 1) (total.toNat - 2 ^ 32) =
        List.range' (1 + (2 ^ 32 - 1)) (total.toNat - 2 ^ 32 + 1) := by
      rw [List.range'_succ]
      norm_num
    rw [hcons, List.range'_append_1]
    congr 1
    omega
  rw [createKeyShares, hsplit, List.mapM_append, List.mapM_cons,
    mapM_eq_ok fun i hi => by rw [intToBytes_of_lt (by rw [List.mem_range'_1] at hi; omega)]; rfl,
    intToBytes_of_le (by norm_num)]
  rfl

theorem decryptKeyFromOwner_encryptKeyForOwner (nonce key : List Byte) :
    km.decryptKeyFromOwner aead sha256 json (.str (km.encryptKeyForOwner aead sha256 json nonce key)) =
      .ok key := by
  set encryptedKey := aead.encrypt (km.ownerKey sha256) nonce key
  have hkeys : ([("encrypted_key", hex encryptedKey), ("nonce", hex nonce)].map Prod.fst).Nodup :=
    show (["encrypted_key", "nonce"] : List String).Nodup by decide
  have h₁ : (strDict [("encrypted_key", hex encryptedKey), ("nonce", hex nonce)]).hexField
      "encrypted_key" = .ok encryptedKey := fromhex_hex encryptedKey
  have h₂ : (strDict [("encrypted_key", hex encryptedKey), ("nonce", hex nonce)]).hexField
      "nonce" = .ok nonce := fromhex_hex nonce
  rw [decryptKeyFromOwner, encryptKeyForOwner, json.loadsValue_dumps _ hkeys, ok_bind, h₁, ok_bind, h₂,
    ok_bind, aead.decrypt_encrypt]
  rfl

theorem decryptModel_toDict (draws : LatticeDraws) (modelData : List Byte)
    (algorithm keyDerivation : String) (accessControl : Bool) (keyShares : Option (List ShareRecord)) :
    km.decryptModel aead sha256 json (aead.encrypt draws.key draws.nonce modelData)
      (⟨algorithm, hex draws.nonce, keyDerivation,
        km.encryptKeyForOwner aead sha256 json draws.wrapNonce draws.key, accessControl,
        keyShares⟩ : EncryptionMetadata).toDict = .ok modelData := by
  rw [decryptModel, PyValue.hexField, EncryptionMetadata.getItem_nonce, ok_bind, PyValue.fromhex_str,
    fromhex_hex, ok_bind, EncryptionMetadata.getItem_encryptedKey, ok_bind,
    decryptKeyFromOwner_encryptKeyForOwner, ok_bind, aead.decrypt_encrypt]
  rfl

/-- The lattice envelope round trip holds for every config short of `2 ^ 32` holders: its
`_create_key_shares` checks nothing, and `decrypt_model` opens what `encrypt_model` returns. With
sharing on and `total_shares ≥ 2 ^ 32`, `i.to_bytes(4, 'big')` raises `OverflowError`, which
`encrypt_model` does not catch. -/
theorem decryptModel_encryptModel_every_config (draws : LatticeDraws) (modelData : List Byte)
    (config : EncryptionConfig) :
    (km.encryptModel aead sha256 json draws modelData config >>= fun (ciphertext, metadata) =>
        km.decryptModel aead sha256 json ciphertext metadata.toDict) =
      if 0 < config.thresholdShares ∧ 2 ^ 32 ≤ config.totalShares then
        .error (.overflowError "int too big to convert")
      else .ok modelData := by
  rw [encryptModel]
  by_cases ht : 0 < config.thresholdShares
  · rw [if_pos ht]
    by_cases hn : 2 ^ 32 ≤ config.totalShares
    · rw [if_pos ⟨ht, hn⟩, createKeyShares_of_le sha256 _ _ hn]
      rfl
    · rw [if_neg fun h => hn h.2, createKeyShares_of_lt sha256 _ _ (not_le.mp hn), ok_bind]
      exact km.decryptModel_toDict aead sha256 json draws modelData _ _ _ _
  · rw [if_neg ht, if_neg fun h => ht h.1]
    exact km.decryptModel_toDict aead sha256 json draws modelData _ _ _ _

theorem reconstructKeyFromShares_of_head {shares : List ShareRecord} {first : ShareRecord}
    (hfirst : shares.head? = some first) :
    reconstructKeyFromShares sha256 shares =
      if (shares.length : ℤ) < first.threshold then
        .error (.latticeError "Insufficient shares for key reconstruction")
      else .ok (sha256 ((sliceTo shares first.threshold).flatMap ShareRecord.y)) := by
  cases shares with
  | nil => cases hfirst
  | cons s rest => cases hfirst; rfl

/-- What the lattice share recovery computes on the records of `_create_key_shares`: SHA-256 of
the digests of holders `1 … threshold`, whatever the number of holders, or the shortfall error when
there are fewer holders than the threshold; from `2 ^ 32` holders on, `_create_key_shares` itself
raises `OverflowError`. -/
theorem reconstructKeyFromShares_createKeyShares (key : List Byte) {t n : ℕ} (hn : 1 ≤ n) :
    (createKeyShares sha256 key t n >>= reconstructKeyFromShares sha256) =
      if 2 ^ 32 ≤ n then .error (.overflowError "int too big to convert")
      else if n < t then .error (.latticeError "Insufficient shares for key reconstruction")
      else .ok (sha256 ((List.range' 1 t).flatMap fun i : ℕ => sha256 (key ++ toBytesBig 4 i))) := by
  by_cases hbig : 2 ^ 32 ≤ n
  · rw [if_pos hbig, createKeyShares_of_le sha256 _ _ (by exact_mod_cast hbig)]
    rfl
  rw [if_neg hbig, createKeyShares_of_lt sha256 _ _ (by exact_mod_cast Nat.lt_of_not_le hbig), ok_bind,
    Int.toNat_natCast]
  obtain ⟨m, rfl⟩ : ∃ m, n = m + 1 := ⟨n - 1, by omega⟩
  rw [@reconstructKeyFromShares_of_head sha256
    ((List.range' 1 (m + 1)).map fun i : ℕ => (⟨i, sha256 (key ++ toBytesBig 4 i), t⟩ : ShareRecord))
    ⟨1, sha256 (key ++ toBytesBig 4 1), t⟩ rfl]
  dsimp only
  rw [List.length_map, List.length_range']
  by_cases ht : m + 1 < t
  · rw [if_pos (by omega), if_pos ht]
  obtain ⟨k, hk⟩ : ∃ k, m + 1 = k + t := ⟨m + 1 - t, by omega⟩
  rw [if_neg (by omega), if_neg ht, sliceTo, if_pos (Int.natCast_nonneg t), Int.toNat_natCast, hk,
    ← List.range'_append_1 1 t k, List.map_append,
    List.take_left' (by rw [List.length_map, List.length_range']), List.flatMap_map]

theorem reconstructKeyFromShares_createKeyShares_two_of_three :
    1 ≤ 3 ∧ (createKeyShares id [7] 2 3 >>= reconstructKeyFromShares id) =
      .ok [7, 0, 0, 0, 1, 7, 0, 0, 0, 2] :=
  ⟨by decide, (reconstructKeyFromShares_createKeyShares id [7] (by decide)).trans (by decide)⟩

end CitrateCrypto.KeyAgreement.LatticeKeyManager
