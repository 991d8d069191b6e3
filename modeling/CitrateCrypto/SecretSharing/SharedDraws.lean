import CitrateCrypto.SecretSharing.Split
import CitrateCrypto.SecretSharing.Interpolation

namespace CitrateCrypto.SecretSharing

open FieldEngine ShamirSecretSharing Polynomial

theorem exists_polynomial_horner : ∀ cs : List GF,
    ∃ Q : Polynomial GF, Q.degree < cs.length ∧ ∀ x, Q.eval x = horner x cs
  | [] => ⟨0, by simp, fun x => by simp [horner]⟩
  | c :: cs => by
    obtain ⟨Q, hdeg, heval⟩ := exists_polynomial_horner cs
    refine ⟨C c + X * Q, ?_, fun x => by simp [horner, heval]⟩
    rw [degree_lt_iff_coeff_zero]
    intro m hm
    rw [List.length_cons] at hm
    obtain ⟨m, rfl⟩ : ∃ m', m = m' + 1 := ⟨m - 1, by omega⟩
    rw [coeff_add, coeff_C, if_neg (Nat.succ_ne_zero m), coeff_X_mul, zero_add]
    exact (degree_lt_iff_coeff_zero _ _).mp hdeg m (by omega)

/-- With threshold `2`, the two shares of the one-byte secret `0` do not give it back: the
first round draws the coefficient `1` and the second the coefficient `2`, so the shares
`(1, 1)` and `(2, 4)` lie on `y = x` and `y = 2x`, and the line through them meets `x = 0`
at `2`. -/
theorem splitSecretBytes_reconstruct_fresh_coefficients :
    let rng : ℕ → Byte := fun k => if k = 0 then 1 else 2
    splitSecretBytes rng [0] 2 2 = .ok [(1, [1]), (2, [4])] ∧
      reconstructSecretBytes [(1, [1]), (2, [4])] 2 = .ok [2] := by
  intro rng
  have hinit : ShamirSecretSharing.init 2 2 = .ok ⟨2, 2, by decide, by decide, by decide⟩ := rfl
  have hshares : ((List.range' 1 2).map fun i : ℕ =>
      ((i : ℤ), shareAt ⟨2, 2, by decide, by decide, by decide⟩ rng [0] i)) =
      [(1, [1]), (2, [4])] := by
    set_option maxRecDepth 20000 in decide
  have hsecret : (List.range 1).map (fun b => GF.toByte (lagrangeAtZero
      (bytePoints ([(1, [1]), (2, [4])] : List (ℤ × List Byte)) b))) = [2] := by
    set_option maxRecDepth 20000 in decide
  refine ⟨by rw [splitSecretBytes, hinit, ok_bind, splitSecret_val, hshares], ?_⟩
  have hinit' : ShamirSecretSharing.init 2
      (max ((([((1 : ℤ), [(1 : Byte)]), (2, [4])] : List (ℤ × List Byte)).length : ℕ) : ℤ) 2) =
      .ok ⟨2, 2, by decide, by decide, by decide⟩ := rfl
  rw [reconstructSecretBytes, hinit', ok_bind,
    reconstructSecret_spec _ _ (by decide) (by unfold ValidPoints; decide) 1 (by decide)]
  exact congrArg Except.ok hsecret

section Periodic

variable {rng : ℕ → Byte} {period : ℕ} (hperiod : ∀ k, rng (k + period) = rng k)
include hperiod

theorem rng_add_mul (k : ℕ) : ∀ m, rng (k + m * period) = rng k
  | 0 => by rw [Nat.zero_mul, Nat.add_zero]
  | m + 1 => by rw [Nat.succ_mul, ← Nat.add_assoc, hperiod, rng_add_mul k m]

end Periodic

theorem coefficientsAt_of_periodic (sss : ShamirSecretSharing) {rng : ℕ → Byte} {len : ℕ}
    (hperiod : ∀ k, rng (k + len * (sss.threshold - 1)) = rng k) (i b : ℕ) :
    coefficientsAt sss rng len i b = coefficientsAt sss rng len 1 b := by
  refine congrArg _ (List.map_congr_left fun k _ => ?_)
  rw [show ((i - 1) * len + b) * (sss.threshold - 1) + k =
      ((1 - 1) * len + b) * (sss.threshold - 1) + k + (i - 1) * (len * (sss.threshold - 1)) by
    rw [Nat.sub_self, Nat.zero_mul, Nat.zero_add]; ring, rng_add_mul hperiod]

theorem getD_shareAt {sss : ShamirSecretSharing} {rng : ℕ → Byte} {secret : List Byte} {b : ℕ}
    (hb : b < secret.length) (i : ℕ) :
    (shareAt sss rng secret i).getD b 0 = GF.toByte (shareByte sss rng secret i b) := by
  simp [shareAt, hb]

theorem reconstructSecretBytes_of_shareAt (sss : ShamirSecretSharing) {rng : ℕ → Byte}
    {secret : List Byte} (hperiod : ∀ k, rng (k + secret.length * (sss.threshold - 1)) = rng k)
    {shares : List (ℤ × List Byte)}
    (hmem : ∀ s ∈ shares, ∃ i : ℕ, 1 ≤ i ∧ i ≤ sss.totalShares ∧
      s = ((i : ℤ), shareAt sss rng secret i))
    (hnd : (shares.map Prod.fst).Nodup) (hk : sss.threshold ≤ shares.length) :
    reconstructSecretBytes shares sss.threshold = .ok secret := by
  -- distinct holders are at most `total_shares`
  have hlen : shares.length ≤ sss.totalShares := by
    have hsub : shares.map Prod.fst ⊆ (List.range' 1 sss.totalShares).map fun i : ℕ => (i : ℤ) :=
      fun x hx => by
        obtain ⟨s, hs, rfl⟩ := List.mem_map.mp hx
        obtain ⟨i, hi1, hin, rfl⟩ := hmem s hs
        exact List.mem_map.mpr ⟨i, List.mem_range'_1.mpr ⟨hi1, by omega⟩, rfl⟩
    simpa using (hnd.subperm hsub).length_le
  have hv : ValidPoints (shares.take sss.threshold) := by
    refine ⟨fun s hs => ?_, List.Nodup.sublist ((List.take_sublist _ shares).map Prod.fst) hnd⟩
    obtain ⟨i, hi1, hin, rfl⟩ := hmem s (List.mem_of_mem_take hs)
    have := sss.totalShares_le
    constructor <;> simp only [Int.ofNat_le, Nat.one_le_cast] <;> omega
  have hl : ∀ s ∈ shares.take sss.threshold, s.2.length = secret.length := fun s hs => by
    obtain ⟨i, -, -, rfl⟩ := hmem s (List.mem_of_mem_take hs)
    simp [shareAt]
  rw [reconstructSecretBytes, show max (shares.length : ℤ) (sss.threshold : ℤ) =
      ((shares.length : ℕ) : ℤ) from max_eq_left (by exact_mod_cast hk),
    init_ok sss.threshold_pos hk (hlen.trans sss.totalShares_le), ok_bind]
  obtain ⟨secret', hrec, hlen', hP⟩ := reconstructSecret_interpolates
    ⟨sss.threshold, shares.length, sss.threshold_pos, hk, hlen.trans sss.totalShares_le⟩ shares hk hv _ hl
  rw [hrec]
  refine congrArg Except.ok (List.ext_getElem hlen' fun b hb hb' => GF.ofByte_injective ?_)
  rw [hlen'] at hb
  obtain ⟨P, -, -, hunique, hzero⟩ := hP b hb
  -- the polynomial of byte `b` passes through every share and has degree below `threshold`
  obtain ⟨Q, hQdeg, heval⟩ :=
    exists_polynomial_horner (GF.ofByte (secret.getD b 0) :: coefficientsAt sss rng secret.length 1 b)
  have hQdeg : Q.degree < sss.threshold := by
    refine hQdeg.trans_eq ?_
    rw [List.length_cons, coefficientsAt, List.length_map, drawCoefficients, List.length_map,
      List.length_range, Nat.sub_add_cancel sss.threshold_pos]
  have hQ : ∀ s ∈ shares.take sss.threshold, Q.eval (GF.ofInt s.1) = GF.ofByte (s.2.getD b 0) :=
    fun s hs => by
      obtain ⟨i, -, -, rfl⟩ := hmem s (List.mem_of_mem_take hs)
      rw [heval, getD_shareAt hb, GF.ofByte_toByte, shareByte,
        coefficientsAt_of_periodic sss hperiod i b]
  rw [← List.getD_eq_getElem _ 0, ← List.getD_eq_getElem _ 0, hzero, ← hunique Q hQdeg hQ, heval,
    horner, zero_mul, add_zero]

/-- The shares of one split, and any `threshold` of them in any order: when the random source
repeats itself after `len(secret) * (threshold - 1)` values, `reconstruct_secret_bytes` returns
the secret from every list of at least `threshold` distinct shares of `split_secret_bytes`. -/
theorem reconstructSecretBytes_split_of_periodic {t n : ℕ} (ht : 1 ≤ t) (htn : t ≤ n) (hn : n ≤ 255)
    {rng : ℕ → Byte} {secret : List Byte} (hperiod : ∀ k, rng (k + secret.length * (t - 1)) = rng k)
    {all : List (ℤ × List Byte)} (hsplit : splitSecretBytes rng secret t n = .ok all)
    {shares : List (ℤ × List Byte)} (hsub : ∀ s ∈ shares, s ∈ all)
    (hnd : (shares.map Prod.fst).Nodup) (hk : t ≤ shares.length) :
    reconstructSecretBytes shares t = .ok secret := by
  rw [splitSecretBytes_eq ht htn hn, splitSecret_val] at hsplit
  refine reconstructSecretBytes_of_shareAt ⟨t, n, ht, htn, hn⟩ hperiod (fun s hs => ?_) hnd hk
  obtain ⟨i, hi, rfl⟩ := List.mem_map.mp (Except.ok.inj hsplit ▸ hsub s hs)
  rw [List.mem_range'_1] at hi
  exact ⟨i, hi.1, by omega, rfl⟩

theorem reconstructSecretBytes_split_of_periodic_two_of_three :
    let rng : ℕ → Byte := fun k => if k % 2 = 0 then 5 else 9
    let sss : ShamirSecretSharing := ⟨2, 3, by decide, by decide, by decide⟩
    let all := (List.range' 1 3).map fun i : ℕ => ((i : ℤ), shareAt sss rng [7, 1] i)
    let shares : List (ℤ × List Byte) := [(3, shareAt sss rng [7, 1] 3), (1, shareAt sss rng [7, 1] 1)]
    (∀ k, rng (k + [7, 1].length * (2 - 1)) = rng k) ∧ splitSecretBytes rng [7, 1] 2 3 = .ok all ∧
      (∀ s ∈ shares, s ∈ all) ∧ (shares.map Prod.fst).Nodup ∧
      reconstructSecretBytes shares 2 = .ok [7, 1] := by
  intro rng sss all shares
  have hperiod : ∀ k, rng (k + [7, 1].length * (2 - 1)) = rng k := fun k => by
    simp only [rng, List.length_cons, List.length_nil, Nat.add_mod_right]
  have hsplit : splitSecretBytes rng [7, 1] ((2 : ℕ) : ℤ) ((3 : ℕ) : ℤ) = .ok all := by
    rw [splitSecretBytes_eq (by decide) (by decide) (by decide), splitSecret_val]
  have hsub : ∀ s ∈ shares, s ∈ all := by
    intro s hs
    simp only [shares, List.mem_cons, List.not_mem_nil, or_false] at hs
    rcases hs with rfl | rfl
    exacts [List.mem_map.mpr ⟨3, by decide, rfl⟩, List.mem_map.mpr ⟨1, by decide, rfl⟩]
  have hnd : (shares.map Prod.fst).Nodup := by decide
  exact ⟨hperiod, hsplit, hsub, hnd, @reconstructSecretBytes_split_of_periodic 2 3 (by decide)
    (by decide) (by decide) rng [7, 1] hperiod _ hsplit _ hsub hnd (by decide)⟩

end CitrateCrypto.SecretSharing
