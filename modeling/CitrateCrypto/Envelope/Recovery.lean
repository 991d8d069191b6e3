import CitrateCrypto.Envelope.KeyManager
import CitrateCrypto.SecretSharing.SharedDraws

namespace CitrateCrypto.Envelope

open FieldEngine SecretSharing ShamirSecretSharing Wire

theorem init_eq_ok {t n : ℤ} {sss : ShamirSecretSharing} (h : ShamirSecretSharing.init t n = .ok sss) :
    (sss.threshold : ℤ) = t ∧ (sss.totalShares : ℤ) = n := by
  unfold ShamirSecretSharing.init at h
  split_ifs at h with h₁ h₂ h₃
  obtain rfl := Except.ok.inj h
  exact ⟨Int.toNat_of_nonneg (by omega), Int.toNat_of_nonneg (by omega)⟩

theorem createKeyShares_eq_ok {rng : ℕ → Byte} {key : List Byte} {t n : ℤ}
    {records : List ShareRecord} (h : createKeyShares rng key t n = .ok records) :
    ∃ sss : ShamirSecretSharing, (sss.threshold : ℤ) = t ∧ (sss.totalShares : ℤ) = n ∧
      records = (List.range' 1 sss.totalShares).map fun i : ℕ => ⟨i, shareAt sss rng key i, t⟩ := by
  rw [createKeyShares, splitSecretBytes] at h
  cases hinit : ShamirSecretSharing.init t n with
  | error e => rw [hinit] at h; exact nomatch h
  | ok sss =>
    rw [hinit, ok_bind, splitSecret_val, ok_bind] at h
    obtain ⟨ht, hn⟩ := init_eq_ok hinit
    exact ⟨sss, ht, hn, by rw [← Except.ok.inj h, List.map_map]; rfl⟩

namespace KeyManager

variable (aead : Aead) (hkdf : List Byte → List Byte → List Byte → List Byte) (json : JsonCodec)
  (km : KeyManager)

/-- Recovery from shares: when the random source repeats itself after the draws of one share,
any `threshold` records of distinct holders among the `key_shares` of `encrypt_model`, in any
order, give the data key back through `reconstruct_key_from_shares`, and the data key decrypts
the payload under the stored nonce, read back from its hex. -/
theorem reconstructKeyFromShares_encryptModel {draws : EnvelopeDraws} {rng : ℕ → Byte}
    {modelData : List Byte} {config : EncryptionConfig}
    (hperiod : ∀ k, rng (k + draws.key.length * (config.thresholdShares.toNat - 1)) = rng k)
    {ciphertext : List Byte} {metadata : EncryptionMetadata}
    (henc : km.encryptModel aead hkdf json draws rng modelData config = .ok (ciphertext, metadata))
    {keyShares : List ShareRecord} (hshares : metadata.keyShares = some keyShares)
    {records : List ShareRecord} (hsub : ∀ r ∈ records, r ∈ keyShares)
    (hnd : (records.map ShareRecord.x).Nodup) (hk : config.thresholdShares ≤ records.length) :
    reconstructKeyFromShares records = .ok draws.key ∧
      ∃ nonce, fromhex metadata.nonce = .ok nonce ∧ aead.decrypt draws.key nonce ciphertext = some modelData := by
  obtain ⟨ks, hks, hoff, hon⟩ := km.encryptModel_eq aead hkdf json draws rng modelData config
  rw [hks] at henc
  obtain ⟨s, hs, hcm⟩ := map_eq_ok henc
  obtain ⟨rfl, rfl⟩ := Prod.mk.inj hcm
  replace hshares : s = some keyShares := hshares
  refine ⟨?_, draws.nonce, fromhex_hex _, aead.decrypt_encrypt _ _ _⟩
  -- sharing was on, and the records are those of `_create_key_shares`
  have ht : 0 < config.thresholdShares := by
    by_contra h
    rw [hoff (not_lt.mp h)] at hs
    cases (Except.ok.inj hs).trans hshares
  rw [hon ht] at hs
  obtain ⟨keyShares', hcreate, hsome⟩ := map_eq_ok hs
  obtain rfl : keyShares = keyShares' := Option.some.inj (hshares.symm.trans hsome)
  obtain ⟨sss, hthr, -, rfl⟩ := createKeyShares_eq_ok hcreate
  have hmem : ∀ r ∈ records, ∃ i : ℕ, 1 ≤ i ∧ i ≤ sss.totalShares ∧
      r = ⟨i, shareAt sss rng draws.key i, config.thresholdShares⟩ := fun r hr => by
    obtain ⟨i, hi, rfl⟩ := List.mem_map.mp (hsub r hr)
    rw [List.mem_range'_1] at hi
    exact ⟨i, hi.1, by omega, rfl⟩
  obtain ⟨first, rest, rfl⟩ : ∃ first rest, records = first :: rest :=
    List.exists_cons_of_length_pos (by omega)
  have hfirst : first.threshold = config.thresholdShares := by
    obtain ⟨i, -, -, rfl⟩ := hmem first (List.mem_cons_self _ _)
    rfl
  rw [reconstructKeyFromShares, hfirst, if_neg (by omega), ← hthr]
  refine reconstructSecretBytes_of_shareAt sss (by rwa [← hthr, Int.toNat_natCast] at hperiod)
    (fun s hs => ?_) (by rwa [List.map_map]) (by rw [List.length_map]; omega)
  obtain ⟨r, hr, rfl⟩ := List.mem_map.mp hs
  obtain ⟨i, hi1, hin, rfl⟩ := hmem r hr
  exact ⟨i, hi1, hin, rfl⟩

end KeyManager

/-- A two-byte key shared two of three, with a source that repeats after the two draws of one share:
the holders `3` and `1` recover it. -/
theorem reconstructKeyFromShares_encryptModel_two_of_three :
    let aead : Aead := ⟨fun _ _ m => m, fun _ _ c => some c, fun _ _ _ => rfl⟩
    let km : KeyManager := ⟨[], ⟨1, by decide, by decide⟩⟩
    let rng : ℕ → Byte := fun k => if k % 2 = 0 then 5 else 9
    let sss : ShamirSecretSharing := ⟨2, 3, by decide, by decide, by decide⟩
    let keyShares := (List.range' 1 3).map fun i : ℕ =>
      (⟨i, shareAt sss rng [1, 9] i, 2⟩ : ShareRecord)
    let metadata : EncryptionMetadata := ⟨"AES-256-GCM", hex [2], "HKDF-SHA256",
      km.encryptKeyForOwner aead (fun _ _ k => k) escapedCodec [3] [4] [1, 9], true, some keyShares⟩
    let records : List ShareRecord :=
      [⟨3, shareAt sss rng [1, 9] 3, 2⟩, ⟨1, shareAt sss rng [1, 9] 1, 2⟩]
    (∀ k, rng (k + [1, 9].length * ((2 : ℤ).toNat - 1)) = rng k) ∧
      km.encryptModel aead (fun _ _ k => k) escapedCodec ⟨[1, 9], [2], [3], [4]⟩ rng [7]
        { thresholdShares := 2, totalShares := 3 } = .ok ([7], metadata) ∧
      (∀ r ∈ records, r ∈ keyShares) ∧ (records.map ShareRecord.x).Nodup ∧
      reconstructKeyFromShares records = .ok [1, 9] ∧
      ∃ nonce, fromhex metadata.nonce = .ok nonce ∧ aead.decrypt [1, 9] nonce [7] = some [7] := by
  intro aead km rng sss keyShares metadata records
  have hperiod : ∀ k, rng (k + [1, 9].length * ((2 : ℤ).toNat - 1)) = rng k := fun k =>
    show rng (k + 2) = rng k by simp only [rng, Nat.add_mod_right]
  have hcreate : createKeyShares rng [1, 9] 2 3 = .ok keyShares := by
    rw [createKeyShares, show (2 : ℤ) = ((2 : ℕ) : ℤ) from rfl, show (3 : ℤ) = ((3 : ℕ) : ℤ) from rfl,
      splitSecretBytes_eq (by decide) (by decide) (by decide), splitSecret_val, ok_bind, List.map_map]
    rfl
  have henc : km.encryptModel aead (fun _ _ k => k) escapedCodec ⟨[1, 9], [2], [3], [4]⟩ rng [7]
      { thresholdShares := 2, totalShares := 3 } = .ok ([7], metadata) := by
    rw [KeyManager.encryptModel, if_pos (by decide)]
    dsimp only
    rw [hcreate]
    rfl
  have hsub : ∀ r ∈ records, r ∈ keyShares := by
    intro r hr
    simp only [records, List.mem_cons, List.not_mem_nil, or_false] at hr
    rcases hr with rfl | rfl
    exacts [List.mem_map.mpr ⟨3, by decide, rfl⟩, List.mem_map.mpr ⟨1, by decide, rfl⟩]
  have hnd : (records.map ShareRecord.x).Nodup := by decide
  exact ⟨hperiod, henc, hsub, hnd, @KeyManager.reconstructKeyFromShares_encryptModel aead
    (fun _ _ k => k) escapedCodec km ⟨[1, 9], [2], [3], [4]⟩ rng [7]
    { thresholdShares := 2, totalShares := 3 } hperiod _ _ henc _ rfl _ hsub hnd (by decide)⟩

end CitrateCrypto.Envelope
