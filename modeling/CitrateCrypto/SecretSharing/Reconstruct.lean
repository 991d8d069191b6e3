import CitrateCrypto.SecretSharing.Interpolation

namespace CitrateCrypto.SecretSharing

open FieldEngine ShamirSecretSharing

/-- On shares whose first `threshold` have x-coordinates in `[0, 255]` and `y`s of one length
`l ≥ 1`, `reconstruct_secret` raises nothing but the zero denominator, and that exactly when two of
them share an x-coordinate; otherwise it returns `l` bytes. -/
theorem reconstructSecret_raises_iff_duplicate (sss : ShamirSecretSharing)
    (shares : List (ℤ × List Byte)) (hlen : sss.threshold ≤ shares.length)
    (hx : ∀ s ∈ shares.take sss.threshold, 0 ≤ s.1 ∧ s.1 ≤ 255) {l : ℕ} (hl1 : 1 ≤ l)
    (hl : ∀ s ∈ shares.take sss.threshold, s.2.length = l) :
    ((∃ secret, sss.reconstructSecret shares = .ok secret ∧ secret.length = l) ∨
        sss.reconstructSecret shares =
          .error (.valueError "Denominator is zero in Lagrange interpolation")) ∧
      (sss.reconstructSecret shares =
          .error (.valueError "Denominator is zero in Lagrange interpolation") ↔
        ¬((shares.take sss.threshold).map Prod.fst).Nodup) := by
  by_cases hnd : ((shares.take sss.threshold).map Prod.fst).Nodup
  · -- every byte round returns its interpolant
    obtain ⟨secret, hsec, hsl⟩ :
        ∃ secret, sss.reconstructSecret shares = .ok secret ∧ secret.length = l := by
      rw [reconstructSecret_eq sss hlen hl,
        mapM_eq_ok fun b _ => lagrangeInterpolation_byteRound hx hnd b, ok_bind, bytesOf_val]
      exact ⟨_, rfl, by simp⟩
    rw [hsec]
    exact ⟨.inl ⟨secret, rfl, hsl⟩, iff_of_false (fun h => Except.noConfusion h) (not_not.mpr hnd)⟩
  · -- the first byte round raises
    have hraise : sss.reconstructSecret shares =
        .error (.valueError "Denominator is zero in Lagrange interpolation") := by
      obtain ⟨k, rfl⟩ : ∃ k, l = k + 1 := ⟨l - 1, by omega⟩
      rw [reconstructSecret_eq sss hlen hl, List.range_succ_eq_map]
      simp only [List.mapM_cons]
      rw [← bytePoints_val hx, lagrangeInterpolation_dup _ (mt (bytePoints_nodup_iff hx 0).mp hnd)]
      rfl
    rw [hraise]
    exact ⟨.inr rfl, iff_of_true rfl hnd⟩

theorem reconstructSecret_raises_iff_duplicate_at_zero :
    let sss : ShamirSecretSharing := ⟨2, 2, by decide, by decide, by decide⟩
    let shares : List (ℤ × List Byte) := [(0, [5]), (0, [7])]
    sss.threshold ≤ shares.length ∧ (∀ s ∈ shares.take sss.threshold, 0 ≤ s.1 ∧ s.1 ≤ 255) ∧
      1 ≤ 1 ∧ (∀ s ∈ shares.take sss.threshold, s.2.length = 1) ∧
      (((∃ secret, sss.reconstructSecret shares = .ok secret ∧ secret.length = 1) ∨
          sss.reconstructSecret shares =
            .error (.valueError "Denominator is zero in Lagrange interpolation")) ∧
        (sss.reconstructSecret shares =
            .error (.valueError "Denominator is zero in Lagrange interpolation") ↔
          ¬((shares.take sss.threshold).map Prod.fst).Nodup)) := by
  intro sss shares
  exact ⟨by decide, by decide, le_rfl, by decide,
    reconstructSecret_raises_iff_duplicate sss shares (by decide) (by decide) le_rfl (by decide)⟩

theorem verifyShares_iff (sss : ShamirSecretSharing) (shares : List (ℤ × List Byte)) :
    sss.verifyShares shares = true ↔ sss.threshold ≤ shares.length ∧
      ∀ i ≤ shares.length - sss.threshold,
        ∃ secret, sss.reconstructSecret ((shares.drop i).take sss.threshold) = .ok secret := by
  rw [verifyShares]
  split_ifs with h
  · simp only [Bool.false_eq_true, false_iff, not_and]
    exact fun h' => absurd h (Nat.not_lt.mpr h')
  · simp only [List.all_eq_true, List.mem_range, Nat.lt_add_one_iff, isOk_iff]
    exact ⟨fun hw => ⟨Nat.not_lt.mp h, hw⟩, fun hw => hw.2⟩

/-- `verify_shares` returns `True` exactly when every window of `threshold` shares reconstructs
without raising; it never compares what the windows give. At threshold `2` the list
`[(1, b'\x01'), (2, b'\x02'), (3, b'\x04')]` passes, although its two windows give `b'\x00'` and
`b'\x0e'`. -/
theorem verifyShares_ignores_agreement :
    (∀ (sss : ShamirSecretSharing) (shares : List (ℤ × List Byte)),
      sss.verifyShares shares = true ↔ sss.threshold ≤ shares.length ∧
        ∀ i ≤ shares.length - sss.threshold,
          ∃ secret, sss.reconstructSecret ((shares.drop i).take sss.threshold) = .ok secret) ∧
    let sss : ShamirSecretSharing := ⟨2, 3, by decide, by decide, by decide⟩
    let shares : List (ℤ × List Byte) := [(1, [1]), (2, [2]), (3, [4])]
    sss.verifyShares shares = true ∧ sss.reconstructSecret (shares.take 2) = .ok [0] ∧
      sss.reconstructSecret ((shares.drop 1).take 2) = .ok [14] := by
  refine ⟨verifyShares_iff, ?_⟩
  intro sss shares
  obtain ⟨hfirst, hsecond⟩ : sss.reconstructSecret (shares.take 2) = .ok [0] ∧
      sss.reconstructSecret ((shares.drop 1).take 2) = .ok [14] := by
    constructor <;>
    · rw [reconstructSecret_spec sss _ (by decide) (by unfold ValidPoints; decide) 1 (by decide)]
      exact congrArg Except.ok (by set_option maxRecDepth 20000 in decide)
  refine ⟨(verifyShares_iff sss shares).mpr ⟨by decide, fun i hi => ?_⟩, hfirst, hsecond⟩
  rcases Nat.le_one_iff_eq_zero_or_eq_one.mp hi with rfl | rfl
  · exact ⟨_, hfirst⟩
  · exact ⟨_, hsecond⟩

theorem map_getD_range {α : Type} (l : List α) (d : α) :
    (List.range l.length).map (fun b => l.getD b d) = l :=
  List.ext_getElem (by simp) fun b _ hb => by simp [List.getElem?_eq_getElem hb]

theorem lagrangeInterpolation_single (x : ℤ) (a : GF) (z : ℤ) :
    lagrangeInterpolation [(x, (a.val : ℤ))] z = .ok a.val := by
  have h1 : ((1 : GF).val : ℤ) ≠ 0 := by decide
  show interpolationLoop [(0, x, a.val)] [(0, x, a.val)] ((0 : GF).val) = _
  rw [interpolationLoop, show ((1 : ℤ), (1 : ℤ)) = (((1 : GF).val : ℤ), ((1 : GF).val : ℤ)) from rfl,
    basisLoop, if_neg (by simp), basisLoop, pure_bind]
  dsimp only
  rw [if_neg h1, GF256.divide_val _ one_ne_zero, ok_bind, GF256.multiply_val, ok_bind, GF256.add_val,
    interpolationLoop, div_one, mul_one, zero_add]
  rfl

theorem reconstructSecretBytes_single (x : ℤ) (y : List Byte) :
    reconstructSecretBytes [(x, y)] 1 = .ok y := by
  have hinit : ShamirSecretSharing.init 1 (max (([(x, y)] : List (ℤ × List Byte)).length : ℤ) 1) =
      .ok ⟨1, 1, Nat.one_pos, le_rfl, by decide⟩ := init_ok le_rfl le_rfl (by decide)
  rw [reconstructSecretBytes, hinit, ok_bind,
    reconstructSecret_eq _ (by simp) (l := y.length) (by simp)]
  simp only [List.take_succ_cons, List.take_zero, List.map_cons, List.map_nil]
  rw [mapM_eq_ok (f := fun b => lagrangeInterpolation [(x, ((y.getD b 0).val : ℤ))] 0)
    (g := fun b => ((GF.ofByte (y.getD b 0)).val : ℤ)) fun b _ =>
      lagrangeInterpolation_single x (GF.ofByte (y.getD b 0)) 0, ok_bind, bytesOf_val]
  exact congrArg Except.ok (map_getD_range y 0)

theorem reconstructSecretBytes_eq_take {t : ℕ} {shares : List (ℤ × List Byte)} (ht : 1 ≤ t)
    (hlen : t ≤ shares.length) :
    reconstructSecretBytes shares t =
      if 255 < shares.length then .error (.valueError "Total shares cannot exceed 255")
      else reconstructSecretBytes (shares.take t) t := by
  have hmax : max (shares.length : ℤ) t = shares.length := max_eq_left (by omega)
  split_ifs with hbig
  · rw [reconstructSecretBytes, hmax, ShamirSecretSharing.init, dif_neg (by omega),
      dif_neg (by omega), dif_pos (by omega)]
    rfl
  · have htake : (shares.take t).length = t := by rw [List.length_take, Nat.min_eq_left hlen]
    rw [reconstructSecretBytes, reconstructSecretBytes, hmax, htake, max_self,
      init_ok ht hlen (by omega), init_ok ht le_rfl (by omega), ok_bind, ok_bind]
    exact reconstructSecret_take rfl hlen

/-- Only the first `t` shares matter to `reconstruct_secret_bytes`, up to its length check: with
`t = 1`, `256` copies of `(1, b'\x05')` raise while the first alone gives `b'\x05'`. -/
theorem reconstructSecretBytes_first_shares :
    (∀ (t : ℕ) (shares : List (ℤ × List Byte)), 1 ≤ t → t ≤ shares.length →
      reconstructSecretBytes shares t =
        if 255 < shares.length then .error (.valueError "Total shares cannot exceed 255")
        else reconstructSecretBytes (shares.take t) t) ∧
    reconstructSecretBytes (List.replicate 256 (1, [5])) 1 =
        .error (.valueError "Total shares cannot exceed 255") ∧
      reconstructSecretBytes [(1, [5])] 1 = .ok [5] := by
  have hlong : (List.replicate 256 ((1 : ℤ), [(5 : Byte)])).length = 256 := List.length_replicate _ _
  exact ⟨fun _ _ => reconstructSecretBytes_eq_take,
    (reconstructSecretBytes_eq_take (t := 1) le_rfl (by omega)).trans (if_pos (by omega)),
    reconstructSecretBytes_single 1 [5]⟩

end CitrateCrypto.SecretSharing
