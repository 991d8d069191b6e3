import CitrateCrypto.SecretSharing.Split
import Mathlib.Data.Fintype.Pi
import Mathlib.Tactic.LinearCombination

namespace CitrateCrypto.SecretSharing

open FieldEngine ShamirSecretSharing

/-- The random source of a run whose `randint` calls return `r 0, r 1, ..., r (N - 1)`. -/
def streamOf {N : ℕ} (r : Fin N → Byte) (k : ℕ) : Byte :=
  if h : k < N then r ⟨k, h⟩ else 0

/-- Adds `d k`, in GF(2^8), to the `k`-th value of a run. -/
def addMask {N : ℕ} (d : ℕ → GF) : (Fin N → Byte) ≃ (Fin N → Byte) where
  toFun r k := GF.toByte (GF.ofByte (r k) + d k)
  invFun r k := GF.toByte (GF.ofByte (r k) - d k)
  left_inv r := by funext k; simp only [GF.ofByte_toByte, add_sub_cancel_right, GF.toByte_ofByte]
  right_inv r := by funext k; simp only [GF.ofByte_toByte, sub_add_cancel, GF.toByte_ofByte]

theorem streamOf_addMask {N : ℕ} (d : ℕ → GF) (r : Fin N → Byte) {k : ℕ} (hk : k < N) :
    streamOf (addMask d r) k = GF.toByte (GF.ofByte (streamOf r k) + d k) := by
  simp only [streamOf, dif_pos hk]
  rfl

/-- The mask that moves a run for `s` to a run for `s'`. The polynomial `m = (i - 1) * len + b`
(byte `b` of share `x = i`) starts at draw `m * (threshold - 1)`; its first coefficient moves by
`(s[b] - s'[b]) / i`. -/
def secretMask (t : ℕ) (s s' : List Byte) (k : ℕ) : GF :=
  if k % (t - 1) = 0 then
    (GF.ofByte (s.getD (k / (t - 1) % s.length) 0) - GF.ofByte (s'.getD (k / (t - 1) % s.length) 0)) /
      GF.ofInt (k / (t - 1) / s.length + 1 : ℕ)
  else 0

theorem drawCoefficients_eq_cons (rng : ℕ → Byte) (pos : ℕ) {n : ℕ} (hn : 0 < n) :
    drawCoefficients rng pos n = rng pos :: drawCoefficients rng (pos + 1) (n - 1) := by
  obtain ⟨d, rfl⟩ : ∃ d, n = d + 1 := ⟨n - 1, by omega⟩
  simp only [drawCoefficients, List.range_succ_eq_map, List.map_cons, List.map_map, Nat.add_zero,
    Nat.add_sub_cancel]
  exact congrArg _ (List.map_congr_left fun k _ => by
    simp only [Function.comp_apply, Nat.succ_eq_add_one, Nat.add_assoc, Nat.add_comm 1 k])

theorem drawCoefficients_congr {rng rng' : ℕ → Byte} {pos n : ℕ}
    (h : ∀ k < n, rng' (pos + k) = rng (pos + k)) :
    drawCoefficients rng' pos n = drawCoefficients rng pos n :=
  List.map_congr_left fun k hk => h k (List.mem_range.mp hk)

theorem ofInt_ne_zero {i : ℕ} (h1 : 1 ≤ i) (h : i ≤ 255) : GF.ofInt i ≠ 0 := fun h0 => by
  have := GF.val_ofInt (x := i) (by omega) (by omega)
  rw [h0] at this
  simp only [GF.val_zero, Nat.cast_zero] at this
  omega

theorem secretMask_first {t : ℕ} (ht : 2 ≤ t) {s : List Byte} (s' : List Byte) {i b : ℕ}
    (hi : 1 ≤ i) (hb : b < s.length) :
    secretMask t s s' (((i - 1) * s.length + b) * (t - 1)) =
      (GF.ofByte (s.getD b 0) - GF.ofByte (s'.getD b 0)) / GF.ofInt i := by
  have hdiv : ((i - 1) * s.length + b) / s.length = i - 1 := by
    rw [Nat.add_comm, Nat.add_mul_div_right _ _ (by omega), Nat.div_eq_of_lt hb, Nat.zero_add]
  have hmod : ((i - 1) * s.length + b) % s.length = b := by
    rw [Nat.add_comm, Nat.add_mul_mod_self_right, Nat.mod_eq_of_lt hb]
  rw [secretMask, if_pos (Nat.mul_mod_left _ _), Nat.mul_div_cancel _ (by omega), hdiv, hmod,
    Nat.sub_add_cancel hi]

theorem secretMask_rest {t : ℕ} (s s' : List Byte) (m : ℕ) {k : ℕ} (hk0 : 0 < k) (hk : k < t - 1) :
    secretMask t s s' (m * (t - 1) + k) = 0 := by
  rw [secretMask, if_neg (by rw [Nat.mul_add_mod', Nat.mod_eq_of_lt hk]; omega)]

section Masked

variable (sss : ShamirSecretSharing) {s s' : List Byte} {rng rng' : ℕ → Byte}

theorem shareByte_masked (ht : 2 ≤ sss.threshold) (hlen : s.length = s'.length)
    (hrng : ∀ k < sss.totalShares * s.length * (sss.threshold - 1),
      rng' k = GF.toByte (GF.ofByte (rng k) + secretMask sss.threshold s s' k))
    {i b : ℕ} (hi : 1 ≤ i) (hin : i ≤ sss.totalShares) (hb : b < s.length) :
    shareByte sss rng' s' i b = shareByte sss rng s i b := by
  have ht1 : 0 < sss.threshold - 1 := by omega
  -- the draws of the polynomial `(i - 1) * len + b` lie inside the run
  have hpos : ∀ k < sss.threshold - 1, ((i - 1) * s.length + b) * (sss.threshold - 1) + k <
      sss.totalShares * s.length * (sss.threshold - 1) := fun k hk => by
    have hm : (i - 1) * s.length + b + 1 ≤ sss.totalShares * s.length := by
      have : (i - 1) * s.length + s.length = i * s.length := by
        rw [← Nat.succ_mul, Nat.succ_eq_add_one, Nat.sub_add_cancel hi]
      have := Nat.mul_le_mul_right s.length hin
      omega
    have := Nat.mul_le_mul_right (sss.threshold - 1) hm
    rw [Nat.add_mul, Nat.one_mul] at this
    omega
  -- its first draw moves by the mask, the others stay
  have hrest : drawCoefficients rng' (((i - 1) * s.length + b) * (sss.threshold - 1) + 1)
      (sss.threshold - 1 - 1) =
      drawCoefficients rng (((i - 1) * s.length + b) * (sss.threshold - 1) + 1) (sss.threshold - 1 - 1) :=
    drawCoefficients_congr fun k hk => by
      rw [hrng _ (by rw [Nat.add_assoc]; exact hpos _ (by omega)), Nat.add_assoc,
        secretMask_rest _ _ _ (by omega) (by omega), add_zero, GF.toByte_ofByte]
  have hx : GF.ofInt i * ((GF.ofByte (s.getD b 0) - GF.ofByte (s'.getD b 0)) / GF.ofInt i) =
      GF.ofByte (s.getD b 0) - GF.ofByte (s'.getD b 0) :=
    mul_div_cancel₀ _ (ofInt_ne_zero hi (hin.trans sss.totalShares_le))
  rw [shareByte, shareByte, coefficientsAt, coefficientsAt, ← hlen, drawCoefficients_eq_cons _ _ ht1,
    drawCoefficients_eq_cons _ _ ht1, hrest, hrng _ (by simpa using hpos 0 ht1),
    secretMask_first ht s' hi hb]
  simp only [List.map_cons, horner, GF.ofByte_toByte]
  linear_combination hx

theorem splitSecret_masked (ht : 2 ≤ sss.threshold) (hlen : s.length = s'.length)
    (hrng : ∀ k < sss.totalShares * s.length * (sss.threshold - 1),
      rng' k = GF.toByte (GF.ofByte (rng k) + secretMask sss.threshold s s' k)) :
    sss.splitSecret rng' s' = sss.splitSecret rng s := by
  rw [splitSecret_val, splitSecret_val]
  refine congrArg Except.ok (List.map_congr_left fun i hi => ?_)
  obtain ⟨hi1, hin⟩ := List.mem_range'_1.mp hi
  rw [shareAt, shareAt, ← hlen]
  exact congrArg (Prod.mk _) (List.map_congr_left fun b hb =>
    congrArg GF.toByte (shareByte_masked sss ht hlen hrng hi1 (by omega) (List.mem_range.mp hb)))

theorem card_splitSecret_eq (ht : 2 ≤ sss.threshold) (hlen : s.length = s'.length)
    (P : Except PyError (List (ℤ × List Byte)) → Prop) [DecidablePred P] :
    (Finset.univ.filter fun r : Fin (sss.totalShares * s.length * (sss.threshold - 1)) → Byte =>
        P (sss.splitSecret (streamOf r) s)).card =
      (Finset.univ.filter fun r : Fin (sss.totalShares * s.length * (sss.threshold - 1)) → Byte =>
        P (sss.splitSecret (streamOf r) s')).card := by
  refine Finset.card_equiv (addMask (secretMask sss.threshold s s')) fun r => ?_
  simp only [Finset.mem_filter, Finset.mem_univ, true_and]
  rw [splitSecret_masked sss ht hlen fun k hk => streamOf_addMask _ r hk]

end Masked

/-- The run returned its shares, and the share of every holder `i ∈ S` is `v i`. -/
def yieldsAt (S : Finset ℕ) (v : ℕ → List Byte) : Except PyError (List (ℤ × List Byte)) → Bool
  | .ok shares => decide (∀ i ∈ S, shares.lookup (i : ℤ) = some (v i))
  | .error _ => false

/-- Fewer than `threshold` shares of `split_secret_bytes` say nothing about the secret: the values
they take have as many runs of the random source for one secret as for any other of its length. -/
theorem splitSecretBytes_threshold_secrecy {t n : ℕ} (ht : 1 ≤ t) (htn : t ≤ n) (hn : n ≤ 255)
    {s s' : List Byte} (hlen : s.length = s'.length) {S : Finset ℕ} (hS : S.card < t)
    (v : ℕ → List Byte) :
    (Finset.univ.filter fun r : Fin (n * s.length * (t - 1)) → Byte =>
        yieldsAt S v (splitSecretBytes (streamOf r) s t n)).card =
      (Finset.univ.filter fun r : Fin (n * s'.length * (t - 1)) → Byte =>
        yieldsAt S v (splitSecretBytes (streamOf r) s' t n)).card := by
  simp only [splitSecretBytes_eq ht htn hn]
  rw [← hlen]
  rcases Nat.lt_or_ge 1 t with ht2 | ht1
  · exact card_splitSecret_eq ⟨t, n, ht, htn, hn⟩ ht2 hlen fun out => yieldsAt S v out = true
  · -- one share is enough: `S` is empty and every run returns its shares
    have hS0 : S = ∅ := Finset.card_eq_zero.mp (by omega)
    subst hS0
    have hall : ∀ secret : List Byte, ∀ r : Fin (n * s.length * (t - 1)) → Byte,
        yieldsAt ∅ v ((⟨t, n, ht, htn, hn⟩ : ShamirSecretSharing).splitSecret (streamOf r) secret) := by
      intro secret r
      rw [splitSecret_val]
      simp [yieldsAt]
    rw [Finset.filter_true_of_mem fun r _ => hall s r, Finset.filter_true_of_mem fun r _ => hall s' r]

theorem splitSecretBytes_threshold_secrecy_one_of_two :
    (Finset.univ.filter fun r : Fin (2 * [(0 : Byte)].length * (2 - 1)) → Byte =>
        yieldsAt {1} (fun _ => [5]) (splitSecretBytes (streamOf r) [0] 2 2)).card =
      (Finset.univ.filter fun r : Fin (2 * [(1 : Byte)].length * (2 - 1)) → Byte =>
        yieldsAt {1} (fun _ => [5]) (splitSecretBytes (streamOf r) [1] 2 2)).card :=
  splitSecretBytes_threshold_secrecy (by decide) (by decide) (by decide) (by rfl) (by decide) _

end CitrateCrypto.SecretSharing
