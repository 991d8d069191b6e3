import CitrateCrypto.FieldEngine.Ops

namespace CitrateCrypto.SecretSharing

open FieldEngine

/-- A `ShamirSecretSharing` object once `__init__` has accepted its arguments: the checks of
`__init__` are its fields. -/
structure ShamirSecretSharing where
  threshold : ℕ
  totalShares : ℕ
  threshold_pos : 0 < threshold
  threshold_le : threshold ≤ totalShares
  totalShares_le : totalShares ≤ 255

namespace ShamirSecretSharing

def init (threshold totalShares : ℤ) : Except PyError ShamirSecretSharing :=
  if h₁ : threshold ≤ 0 then throw (.valueError "Threshold must be positive")
  else if h₂ : threshold > totalShares then throw (.valueError "Threshold cannot exceed total shares")
  else if h₃ : totalShares > 255 then throw (.valueError "Total shares cannot exceed 255")
  else pure ⟨threshold.toNat, totalShares.toNat, by omega, by omega, by omega⟩

/-- The `for coeff in coefficients` loop of `_evaluate_polynomial_at_point`, with its
accumulators `result` and `x_power`. -/
def evaluateLoop (x : ℤ) : List ℤ → ℤ → ℤ → Except PyError ℤ
  | [], result, _ => pure result
  | coeff :: coeffs, result, xPower => do
    let term ← GF256.multiply coeff xPower
    let xPower' ← GF256.multiply xPower x
    evaluateLoop x coeffs (GF256.add result term) xPower'

/-- The `threshold - 1` values `random.randint(0, 255)` returns from position `pos` of the
random source `rng`. -/
def drawCoefficients (rng : ℕ → Byte) (pos n : ℕ) : List Byte :=
  (List.range n).map fun k => rng (pos + k)

/-- The `for secret_byte in secret` loop of `_evaluate_polynomial_at_point`: a fresh polynomial for
every byte, its coefficients drawn here. Returns the share values and the next stream position. -/
def evaluateBytes (sss : ShamirSecretSharing) (rng : ℕ → Byte) (x : ℤ) :
    List Byte → ℕ → Except PyError (List ℤ × ℕ)
  | [], pos => pure ([], pos)
  | secretByte :: rest, pos => do
    let coefficients := secretByte :: drawCoefficients rng pos (sss.threshold - 1)
    let result ← evaluateLoop x (coefficients.map fun c => (c.val : ℤ)) 0 1
    let (results, pos') ← evaluateBytes sss rng x rest (pos + (sss.threshold - 1))
    pure (result :: results, pos')

/-- `_evaluate_polynomial_at_point(secret, x)`, reading the random source from `pos`. -/
def evaluatePolynomialAtPoint (sss : ShamirSecretSharing) (rng : ℕ → Byte) (secret : List Byte)
    (x : ℤ) (pos : ℕ) : Except PyError (List Byte × ℕ) := do
  let (shareBytes, pos') ← sss.evaluateBytes rng x secret pos
  let bytes ← bytesOf shareBytes
  pure (bytes, pos')

/-- The `for i in range(1, total_shares + 1)` loop of `split_secret`. -/
def splitLoop (sss : ShamirSecretSharing) (rng : ℕ → Byte) (secret : List Byte) :
    List ℕ → ℕ → Except PyError (List (ℤ × List Byte) × ℕ)
  | [], pos => pure ([], pos)
  | i :: is, pos => do
    let (shareBytes, pos') ← sss.evaluatePolynomialAtPoint rng secret i pos
    let (shares, pos'') ← splitLoop sss rng secret is pos'
    pure ((i, shareBytes) :: shares, pos'')

/-- `split_secret`, with the random source `rng` read from its start. -/
def splitSecret (sss : ShamirSecretSharing) (rng : ℕ → Byte) (secret : List Byte) :
    Except PyError (List (ℤ × List Byte)) :=
  Prod.fst <$> sss.splitLoop rng secret (List.range' 1 sss.totalShares) 0

/-- The inner `for j, (x_j, _)` loop of `_lagrange_interpolation`: numerator and denominator of
the `i`-th basis polynomial. -/
def basisLoop (i : ℕ) (xi : ℤ) : List (ℕ × ℤ × ℤ) → ℤ × ℤ → Except PyError (ℤ × ℤ)
  | [], acc => pure acc
  | (j, xj, _) :: rest, (numerator, denominator) =>
    if i ≠ j then do
      let numerator' ← GF256.multiply numerator xj
      let denominator' ← GF256.multiply denominator (GF256.subtract xi xj)
      basisLoop i xi rest (numerator', denominator')
    else basisLoop i xi rest (numerator, denominator)

/-- The outer `for i, (x_i, y_i)` loop of `_lagrange_interpolation`, accumulating `result`. -/
def interpolationLoop (points : List (ℕ × ℤ × ℤ)) : List (ℕ × ℤ × ℤ) → ℤ → Except PyError ℤ
  | [], result => pure result
  | (i, xi, yi) :: rest, result => do
    let (numerator, denominator) ← basisLoop i xi points (1, 1)
    if denominator = 0 then throw (.valueError "Denominator is zero in Lagrange interpolation")
    let lagrangeCoeff ← GF256.divide numerator denominator
    let term ← GF256.multiply yi lagrangeCoeff
    interpolationLoop points rest (GF256.add result term)

/-- `_lagrange_interpolation(points, x)`. As in the source, the body never reads `x`. -/
def lagrangeInterpolation (points : List (ℤ × ℤ)) (x : ℤ) : Except PyError ℤ :=
  interpolationLoop points.enum points.enum 0

/-- `reconstruct_secret`: Lagrange interpolation at `0`, byte by byte, over the first
`threshold` shares. -/
def reconstructSecret (sss : ShamirSecretSharing) (shares : List (ℤ × List Byte)) :
    Except PyError (List Byte) :=
  let t := sss.threshold
  let n := shares.length
  if n < t then throw (.valueError s!"Need at least {t} shares, got {n}")
  else
    let activeShares := shares.take t
    let shareLength := (activeShares.headD (0, [])).2.length
    if ¬activeShares.all (fun share => share.2.length = shareLength) then
      throw (.valueError "All shares must have the same length")
    else do
      let secretBytes ← (List.range shareLength).mapM fun bytePos =>
        lagrangeInterpolation (activeShares.map fun share => (share.1, (share.2.getD bytePos 0).val)) 0
      bytesOf secretBytes

/-- `verify_shares`: `False` below the threshold, and otherwise `True` unless `reconstruct_secret`
raises on one of the windows `shares[i:i + threshold]`. -/
def verifyShares (sss : ShamirSecretSharing) (shares : List (ℤ × List Byte)) : Bool :=
  if shares.length < sss.threshold then false
  else (List.range (shares.length - sss.threshold + 1)).all fun i =>
    (sss.reconstructSecret ((shares.drop i).take sss.threshold)).isOk

theorem reconstructSecret_eq (sss : ShamirSecretSharing) {shares : List (ℤ × List Byte)}
    (hlen : sss.threshold ≤ shares.length) {l : ℕ}
    (hl : ∀ s ∈ shares.take sss.threshold, s.2.length = l) :
    sss.reconstructSecret shares = (List.range l).mapM (fun b => lagrangeInterpolation
      ((shares.take sss.threshold).map fun share => (share.1, ((share.2.getD b 0).val : ℤ))) 0) >>=
        bytesOf := by
  obtain ⟨s, rest, hsr⟩ := List.exists_cons_of_length_pos
    (by rw [List.length_take, Nat.min_eq_left hlen]; exact sss.threshold_pos)
  have hhead : ((shares.take sss.threshold).headD (0, [])).2.length = l := by
    rw [hsr]
    exact hl s (hsr ▸ List.mem_cons_self _ _)
  rw [reconstructSecret]
  dsimp only
  rw [if_neg (Nat.not_lt.mpr hlen), hhead, if_neg (by simpa using fun a b hab => hl (a, b) hab)]

theorem reconstructSecret_take {sss sss' : ShamirSecretSharing} (ht : sss.threshold = sss'.threshold)
    {shares : List (ℤ × List Byte)} (hlen : sss.threshold ≤ shares.length) :
    sss.reconstructSecret shares = sss'.reconstructSecret (shares.take sss.threshold) := by
  have htake : (shares.take sss.threshold).length = sss.threshold := by
    rw [List.length_take, Nat.min_eq_left hlen]
  rw [reconstructSecret, reconstructSecret]
  dsimp only
  rw [if_neg (Nat.not_lt.mpr hlen), htake, ← ht, if_neg (lt_irrefl _), List.take_take, min_self]

end ShamirSecretSharing

open ShamirSecretSharing

def splitSecretBytes (rng : ℕ → Byte) (secret : List Byte) (threshold totalShares : ℤ) :
    Except PyError (List (ℤ × List Byte)) := do
  let sss ← ShamirSecretSharing.init threshold totalShares
  sss.splitSecret rng secret

/-- `reconstruct_secret_bytes`: `total_shares` is inferred as `max(len(shares), threshold)`. -/
def reconstructSecretBytes (shares : List (ℤ × List Byte)) (threshold : ℤ) :
    Except PyError (List Byte) := do
  let sss ← ShamirSecretSharing.init threshold (max shares.length threshold)
  sss.reconstructSecret shares

theorem init_ok {t n : ℕ} (ht : 1 ≤ t) (htn : t ≤ n) (hn : n ≤ 255) :
    ShamirSecretSharing.init t n = .ok ⟨t, n, ht, htn, hn⟩ := by
  rw [ShamirSecretSharing.init, dif_neg (by omega), dif_neg (by omega), dif_neg (by omega)]
  rfl

theorem splitSecretBytes_eq {t n : ℕ} (ht : 1 ≤ t) (htn : t ≤ n) (hn : n ≤ 255) (rng : ℕ → Byte)
    (secret : List Byte) :
    splitSecretBytes rng secret t n = (⟨t, n, ht, htn, hn⟩ : ShamirSecretSharing).splitSecret rng secret := by
  rw [splitSecretBytes, init_ok ht htn hn, ok_bind]

end CitrateCrypto.SecretSharing
