import CitrateCrypto.SecretSharing.Secrecy
import CitrateCrypto.SecretSharing.Reconstruct

namespace CitrateCrypto.Envelope

open FieldEngine SecretSharing ShamirSecretSharing

/-- A record of `key_shares`, `{"x": str(x), "y": y.hex(), "threshold": str(threshold)}`, with its
fields as `int(...)` and `bytes.fromhex(...)` read them back. -/
structure ShareRecord where
  x : ℤ
  y : List Byte
  threshold : ℤ
deriving DecidableEq, Repr

def createKeyShares (rng : ℕ → Byte) (key : List Byte) (threshold total : ℤ) :
    Except PyError (List ShareRecord) := do
  let sharesTuples ← splitSecretBytes rng key threshold total
  pure (sharesTuples.map fun (x, shareBytes) => ⟨x, shareBytes, threshold⟩)

def reconstructKeyFromShares (shares : List ShareRecord) : Except PyError (List Byte) :=
  match shares with
  | [] => throw (.citrateError "No shares provided")
  | first :: _ =>
    if (shares.length : ℤ) < first.threshold then
      throw (.citrateError "Insufficient shares for key reconstruction")
    else reconstructSecretBytes (shares.map fun share => (share.x, share.y)) first.threshold

theorem shareAt_threshold_one (sss : ShamirSecretSharing) (h1 : sss.threshold = 1) (rng : ℕ → Byte)
    (secret : List Byte) (i : ℕ) : shareAt sss rng secret i = secret := by
  conv_rhs => rw [← map_getD_range secret 0]
  refine List.map_congr_left fun b _ => ?_
  simp only [shareByte, coefficientsAt, drawCoefficients, h1, Nat.sub_self, List.range_zero,
    List.map_nil, horner, mul_zero, add_zero, GF.toByte_ofByte]

theorem createKeyShares_threshold_one {n : ℕ} (hn1 : 1 ≤ n) (hn : n ≤ 255) (rng : ℕ → Byte)
    (key : List Byte) :
    createKeyShares rng key 1 n = .ok ((List.range' 1 n).map fun i : ℕ => ⟨i, key, 1⟩) := by
  rw [createKeyShares, show ((1 : ℤ)) = ((1 : ℕ) : ℤ) from rfl, splitSecretBytes_eq le_rfl hn1 hn,
    splitSecret_val, ok_bind, List.map_map]
  exact congrArg Except.ok (List.map_congr_left fun i _ => by
    rw [Function.comp_apply, shareAt_threshold_one ⟨1, n, Nat.one_pos, hn1, hn⟩ rfl])

/-- With `threshold ≥ 2` the key shares are independent of the data key: every list of records has
as many runs of the random source for one 32-byte key as for any other. -/
theorem createKeyShares_key_independent {t n : ℕ} (ht : 2 ≤ t) (htn : t ≤ n) (hn : n ≤ 255)
    {k k' : List Byte} (hk : k.length = 32) (hk' : k'.length = 32) (L : List ShareRecord) :
    (Finset.univ.filter fun r : Fin (n * 32 * (t - 1)) → Byte =>
        createKeyShares (streamOf r) k t n = Except.ok L).card =
      (Finset.univ.filter fun r : Fin (n * 32 * (t - 1)) → Byte =>
        createKeyShares (streamOf r) k' t n = Except.ok L).card := by
  simp only [createKeyShares, splitSecretBytes_eq (by omega) htn hn]
  rw [← hk]
  exact card_splitSecret_eq ⟨t, n, by omega, htn, hn⟩ ht (hk.trans hk'.symm)
    fun out => (out >>= fun tuples => pure (tuples.map fun (x, shareBytes) =>
      (⟨x, shareBytes, (t : ℤ)⟩ : ShareRecord))) = .ok L

theorem createKeyShares_key_independent_two_of_two :
    let r₀ : Fin (2 * 32 * (2 - 1)) → Byte := fun _ => 5
    let L : List ShareRecord := (List.range' 1 2).map fun i : ℕ =>
      ⟨i, shareAt ⟨2, 2, by decide, by decide, by decide⟩ (streamOf r₀) (List.replicate 32 0) i, 2⟩
    createKeyShares (streamOf r₀) (List.replicate 32 0) 2 2 = .ok L ∧
      (Finset.univ.filter fun r : Fin (2 * 32 * (2 - 1)) → Byte =>
          createKeyShares (streamOf r) (List.replicate 32 0) 2 2 = Except.ok L).card =
        (Finset.univ.filter fun r : Fin (2 * 32 * (2 - 1)) → Byte =>
          createKeyShares (streamOf r) (List.replicate 32 1) 2 2 = Except.ok L).card := by
  intro r₀ L
  refine ⟨?_, createKeyShares_key_independent (by decide) (by decide) (by decide) (by rfl) (by rfl) L⟩
  show createKeyShares _ _ ((2 : ℕ) : ℤ) ((2 : ℕ) : ℤ) = _
  rw [createKeyShares, splitSecretBytes_eq (by decide) (by decide) (by decide), splitSecret_val, ok_bind,
    List.map_map]
  rfl

/-- With `threshold = 1`, the records of one key are returned by every run, and never for
another key. -/
theorem createKeyShares_threshold_one_reveals_key :
    (Finset.univ.filter fun r : Fin (1 * 32 * (1 - 1)) → Byte =>
        createKeyShares (streamOf r) (List.replicate 32 0) 1 1 =
          Except.ok [(⟨1, List.replicate 32 0, 1⟩ : ShareRecord)]).card = 1 ∧
      (Finset.univ.filter fun r : Fin (1 * 32 * (1 - 1)) → Byte =>
        createKeyShares (streamOf r) (List.replicate 32 1) 1 1 =
          Except.ok [(⟨1, List.replicate 32 0, 1⟩ : ShareRecord)]).card = 0 := by
  have h : ∀ rng key, createKeyShares rng key 1 1 = .ok [⟨1, key, 1⟩] := fun rng key =>
    createKeyShares_threshold_one le_rfl (by decide) rng key
  simp only [h]
  constructor
  · rw [Finset.filter_True, Finset.card_univ]
    rfl
  · rw [Finset.filter_false_of_mem fun r _ => by decide, Finset.card_empty]

end CitrateCrypto.Envelope
