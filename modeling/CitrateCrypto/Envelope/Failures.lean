import CitrateCrypto.Envelope.KeyManager

namespace CitrateCrypto.Envelope

open FieldEngine SecretSharing ShamirSecretSharing Wire

theorem init_eq_error_iff {t n : ℤ} (ht : 0 < t) (e : PyError) :
    ShamirSecretSharing.init t n = .error e ↔
      n < t ∧ e = .valueError "Threshold cannot exceed total shares" ∨
        t ≤ n ∧ 255 < n ∧ e = .valueError "Total shares cannot exceed 255" := by
  unfold ShamirSecretSharing.init
  split_ifs with h₁ h₂ h₃
  · omega
  · simp only [throw, throwThe, MonadExceptOf.throw, Except.error.injEq]
    constructor
    · exact fun h => .inl ⟨h₂, h.symm⟩
    · rintro (⟨-, rfl⟩ | ⟨h, -⟩)
      · rfl
      · omega
  · simp only [throw, throwThe, MonadExceptOf.throw, Except.error.injEq]
    constructor
    · exact fun h => .inr ⟨by omega, h₃, h.symm⟩
    · rintro (⟨h, -⟩ | ⟨-, -, rfl⟩)
      · omega
      · rfl
  · simp only [pure, Except.pure, reduceCtorEq, false_iff, not_or, not_and]
    exact ⟨fun h => absurd h (by omega), fun _ h => absurd h (by omega)⟩

theorem createKeyShares_eq_error_iff (rng : ℕ → Byte) (key : List Byte) (t n : ℤ) (e : PyError) :
    createKeyShares rng key t n = .error e ↔ ShamirSecretSharing.init t n = .error e := by
  rw [createKeyShares, splitSecretBytes]
  cases ShamirSecretSharing.init t n with
  | error e' => simp only [bind, Except.bind, Except.error.injEq]
  | ok sss =>
    rw [ok_bind, splitSecret_val, ok_bind]
    exact ⟨fun h => (nomatch h), fun h => (nomatch h)⟩

namespace KeyManager

variable (aead : Aead) (hkdf : List Byte → List Byte → List Byte → List Byte) (json : JsonCodec)
  (km : KeyManager)

/-- Under the ideal AEAD, `encrypt_model` raises only when threshold sharing is on and
`(threshold, total)` is not a valid scheme, with the `ValueError` of `ShamirSecretSharing.__init__`,
not a `CitrateError`: `total < threshold` first, then `total > 255`. -/
theorem encryptModel_eq_error_iff (draws : EnvelopeDraws) (rng : ℕ → Byte) (modelData : List Byte)
    (config : EncryptionConfig) (e : PyError) :
    km.encryptModel aead hkdf json draws rng modelData config = .error e ↔
      0 < config.thresholdShares ∧
        (config.totalShares < config.thresholdShares ∧
            e = .valueError "Threshold cannot exceed total shares" ∨
          config.thresholdShares ≤ config.totalShares ∧ 255 < config.totalShares ∧
            e = .valueError "Total shares cannot exceed 255") := by
  obtain ⟨keyShares, henc, hoff, hon⟩ := km.encryptModel_eq aead hkdf json draws rng modelData config
  rw [henc]
  by_cases ht : 0 < config.thresholdShares
  · rw [hon ht, ← init_eq_error_iff ht, ← createKeyShares_eq_error_iff rng draws.key]
    simp only [and_iff_right ht]
    cases createKeyShares rng draws.key config.thresholdShares config.totalShares <;>
      simp [Functor.map, Except.map]
  · rw [hoff (not_lt.mp ht)]
    simp only [ht, false_and, iff_false]
    exact fun h => nomatch h

end KeyManager

end CitrateCrypto.Envelope
