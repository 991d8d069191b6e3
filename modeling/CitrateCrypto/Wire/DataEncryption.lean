import CitrateCrypto.Wire.Utf8
import CitrateCrypto.Wire.KeyExchange

namespace CitrateCrypto.Wire

open FieldEngine Envelope

/-- The JSON package of `encrypt_data`, as the dict `json.loads` gives back. -/
structure DataPackage where
  ciphertext : String
  nonce : String
  key : String
deriving DecidableEq, Repr

variable (aead : Aead)

/-- The body of `encrypt_data` in both SDKs, with the key and nonce it draws. -/
def encryptPackage (key nonce : List Byte) (data : PyStr) : Except PyError DataPackage := do
  let dataBytes ← encodeUtf8 data
  let ciphertext := aead.encrypt key nonce dataBytes
  pure ⟨hex ciphertext, hex nonce, hex key⟩

/-- The body of `decrypt_data` in both SDKs, which reraise with their own error class `err`. -/
def decryptPackage (err : String → PyError) (package : DataPackage) : Except PyError PyStr :=
  reraise err "Data decryption failed: " do
    let ciphertext ← fromhex package.ciphertext
    let nonce ← fromhex package.nonce
    let key ← fromhex package.key
    match aead.decrypt key nonce ciphertext with
    | some plaintext => decodeUtf8 plaintext
    | none => throw .invalidTag

theorem encryptPackage_eq_ok (key nonce : List Byte) {data : PyStr}
    (hs : ∀ c ∈ data, isSurrogate c = false) :
    encryptPackage aead key nonce data =
      .ok ⟨hex (aead.encrypt key nonce ((data.flatMap encodeChar).map fun b : ℕ => (b : Byte))),
        hex nonce, hex key⟩ := by
  rw [encryptPackage, encodeUtf8_eq_ok hs]
  rfl

theorem decryptPackage_encryptPackage (err : String → PyError) (key nonce : List Byte)
    {data : PyStr} (hs : ∀ c ∈ data, IsScalar c) :
    (encryptPackage aead key nonce data >>= decryptPackage aead err) = .ok data := by
  rw [encryptPackage_eq_ok aead key nonce fun c hc => (hs c hc).2, ok_bind, decryptPackage]
  dsimp only
  rw [fromhex_hex, ok_bind, fromhex_hex, ok_bind, fromhex_hex, ok_bind, aead.decrypt_encrypt]
  dsimp only
  rw [decodeUtf8_encodeChars hs]
  rfl

theorem decryptPackage_eq_ok_iff {err : String → PyError} {package : DataPackage} {s : PyStr} :
    decryptPackage aead err package = .ok s ↔
      ∃ ciphertext nonce key plaintext, fromhex package.ciphertext = .ok ciphertext ∧
        fromhex package.nonce = .ok nonce ∧ fromhex package.key = .ok key ∧
        aead.decrypt key nonce ciphertext = some plaintext ∧ decodeUtf8 plaintext = .ok s := by
  constructor
  · intro h
    obtain ⟨ciphertext, hc, h⟩ := bind_eq_ok (reraise_eq_ok h)
    obtain ⟨nonce, hn, h⟩ := bind_eq_ok h
    obtain ⟨key, hk, h⟩ := bind_eq_ok h
    cases hd : aead.decrypt key nonce ciphertext with
    | none => rw [hd] at h; cases h
    | some plaintext => rw [hd] at h; exact ⟨ciphertext, nonce, key, plaintext, hc, hn, hk, hd, h⟩
  · rintro ⟨ciphertext, nonce, key, plaintext, hc, hn, hk, hd, hu⟩
    rw [decryptPackage, hc, ok_bind, hn, ok_bind, hk, ok_bind, hd]
    exact congrArg (reraise err _) hu

end CitrateCrypto.Wire

namespace CitrateCrypto.Envelope.KeyManager

open FieldEngine Wire

variable (aead : Aead)

/-- `KeyManager.encrypt_data`, with the key and nonce it draws. -/
def encryptData (key nonce : List Byte) (data : PyStr) : Except PyError DataPackage :=
  encryptPackage aead key nonce data

def decryptData (package : DataPackage) : Except PyError PyStr :=
  decryptPackage aead .citrateError package

end CitrateCrypto.Envelope.KeyManager

namespace CitrateCrypto.KeyAgreement.LatticeKeyManager

open FieldEngine Envelope Wire

variable (aead : Aead)

/-- `KeyManager.encrypt_data` of the lattice SDK, with the key and nonce it draws. -/
def encryptData (key nonce : List Byte) (data : PyStr) : Except PyError DataPackage :=
  encryptPackage aead key nonce data

/-- `KeyManager.decrypt_data` of the lattice SDK. -/
def decryptData (package : DataPackage) : Except PyError PyStr :=
  decryptPackage aead .latticeError package

end CitrateCrypto.KeyAgreement.LatticeKeyManager

namespace CitrateCrypto.Wire

open FieldEngine Envelope KeyAgreement

variable (aead : Aead)

/-- A string of scalar values sealed by either SDK's `encrypt_data` comes back from either
SDK's `decrypt_data`. -/
theorem decryptData_encryptData (key nonce : List Byte) {data : PyStr}
    (hs : ∀ c ∈ data, IsScalar c) :
    (KeyManager.encryptData aead key nonce data >>= KeyManager.decryptData aead) = .ok data ∧
      (KeyManager.encryptData aead key nonce data >>= LatticeKeyManager.decryptData aead) =
        .ok data ∧
      (LatticeKeyManager.encryptData aead key nonce data >>= KeyManager.decryptData aead) =
        .ok data ∧
      (LatticeKeyManager.encryptData aead key nonce data >>= LatticeKeyManager.decryptData aead) =
        .ok data :=
  have h := fun err => decryptPackage_encryptPackage aead err key nonce hs
  ⟨h _, h _, h _, h _⟩

theorem decryptData_encryptData_emoji :
    let aead : Aead := ⟨fun _ _ m => m, fun _ _ c => some c, fun _ _ _ => rfl⟩
    (∀ c ∈ [0x1F600], IsScalar c) ∧
      (KeyManager.encryptData aead [1] [2] [0x1F600] >>= KeyManager.decryptData aead) =
        .ok [0x1F600] ∧
      (KeyManager.encryptData aead [1] [2] [0x1F600] >>= LatticeKeyManager.decryptData aead) =
        .ok [0x1F600] ∧
      (LatticeKeyManager.encryptData aead [1] [2] [0x1F600] >>= KeyManager.decryptData aead) =
        .ok [0x1F600] ∧
      (LatticeKeyManager.encryptData aead [1] [2] [0x1F600] >>=
        LatticeKeyManager.decryptData aead) = .ok [0x1F600] :=
  ⟨by decide, decryptData_encryptData _ [1] [2] (by decide)⟩

/-- `encrypt_data` of either SDK raises the codec's `UnicodeEncodeError` for the first run of
surrogates, as it is: it has no `try` to wrap it in the SDK's error class. -/
theorem encryptData_surrogate (key nonce : List Byte) (pre : PyStr) {ch : ℕ} (rest : PyStr)
    (hpre : ∀ c ∈ pre, isSurrogate c = false) (h : isSurrogate ch = true) :
    KeyManager.encryptData aead key nonce (pre ++ ch :: rest) =
        .error (encodeError pre.length ch ((ch :: rest).takeWhile isSurrogate).length) ∧
      LatticeKeyManager.encryptData aead key nonce (pre ++ ch :: rest) =
        .error (encodeError pre.length ch ((ch :: rest).takeWhile isSurrogate).length) := by
  have henc : encryptPackage aead key nonce (pre ++ ch :: rest) =
      .error (encodeError pre.length ch ((ch :: rest).takeWhile isSurrogate).length) := by
    rw [encryptPackage, encodeUtf8, encodeLoop_surrogate pre rest 0 hpre h, Nat.zero_add]
    rfl
  exact ⟨henc, henc⟩

theorem encryptData_surrogate_lone :
    let aead : Aead := ⟨fun _ _ m => m, fun _ _ c => some c, fun _ _ _ => rfl⟩
    (∀ c ∈ ([] : PyStr), isSurrogate c = false) ∧ isSurrogate 0xDC80 = true ∧
      KeyManager.encryptData aead [1] [2] [0xDC80, 0x61] = .error (encodeError 0 0xDC80 1) ∧
      LatticeKeyManager.encryptData aead [1] [2] [0xDC80, 0x61] = .error (encodeError 0 0xDC80 1) :=
  ⟨nofun, rfl, encryptData_surrogate _ [1] [2] [] [0x61] nofun rfl⟩

/-- What `decrypt_data` of either SDK returns is the plaintext that authenticates under the
package's own key and nonce: the returned string encodes back to exactly those bytes. -/
theorem decryptPackage_eq_ok {err : String → PyError} {package : DataPackage} {s : PyStr}
    (h : decryptPackage aead err package = .ok s) :
    ∃ ciphertext nonce key plaintext, fromhex package.ciphertext = .ok ciphertext ∧
      fromhex package.nonce = .ok nonce ∧ fromhex package.key = .ok key ∧
      aead.decrypt key nonce ciphertext = some plaintext ∧ encodeUtf8 s = .ok plaintext := by
  obtain ⟨ciphertext, nonce, key, plaintext, hc, hn, hk, hd, hu⟩ :=
    (decryptPackage_eq_ok_iff aead).mp h
  exact ⟨ciphertext, nonce, key, plaintext, hc, hn, hk, hd, (encodeUtf8_of_decodeUtf8 hu).2⟩

theorem decryptPackage_eq_ok_letter :
    let aead : Aead := ⟨fun _ _ m => m, fun _ _ c => some c, fun _ _ _ => rfl⟩
    decryptPackage aead .citrateError ⟨"41", "02", "01"⟩ = .ok [0x41] ∧
      ∃ ciphertext nonce key plaintext, fromhex "41" = .ok ciphertext ∧ fromhex "02" = .ok nonce ∧
        fromhex "01" = .ok key ∧ aead.decrypt key nonce ciphertext = some plaintext ∧
        encodeUtf8 [0x41] = .ok plaintext :=
  have hd : decodeUtf8 [0x41] = .ok [0x41] := decodeUtf8_encodeChars (s := [0x41]) (by decide)
  have h : decryptPackage ⟨fun _ _ m => m, fun _ _ c => some c, fun _ _ _ => rfl⟩ .citrateError
      ⟨"41", "02", "01"⟩ = .ok [0x41] := by
    rw [decryptPackage, show fromhex "41" = .ok [0x41] from rfl, ok_bind,
      show fromhex "02" = .ok [2] from rfl, ok_bind, show fromhex "01" = .ok [1] from rfl, ok_bind]
    show reraise _ _ (decodeUtf8 [0x41]) = _
    rw [hd]
    rfl
  ⟨h, decryptPackage_eq_ok _ h⟩

end CitrateCrypto.Wire
