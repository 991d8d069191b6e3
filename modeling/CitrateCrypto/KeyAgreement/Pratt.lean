import Mathlib.NumberTheory.LucasPrimality

namespace CitrateCrypto.KeyAgreement

/-- `b ^ e % m` by square-and-multiply with at most `fuel` squarings. -/
def powMod (m : ℕ) : ℕ → ℕ → ℕ → ℕ
  | 0, _, _ => 1 % m
  | fuel + 1, b, e =>
    if e = 0 then 1 % m
    else
      let r := powMod m fuel (b * b % m) (e / 2)
      if e % 2 = 1 then r * b % m else r

theorem powMod_eq (m : ℕ) : ∀ fuel b e, e < 2 ^ fuel → powMod m fuel b e = b ^ e % m
  | 0, b, e, h => by
    obtain rfl : e = 0 := by simpa using h
    rfl
  | fuel + 1, b, e, h => by
    have ih := powMod_eq m fuel (b * b % m) (e / 2) (by rw [pow_succ] at h; omega)
    have hsq : (b * b % m) ^ (e / 2) % m = b ^ (2 * (e / 2)) % m := by
      rw [← Nat.pow_mod, pow_mul, sq]
    simp only [powMod]
    split_ifs with h0 h2
    · rw [h0, pow_zero]
    · rw [ih, hsq, Nat.mod_mul_mod, ← pow_succ, show 2 * (e / 2) + 1 = e by omega]
    · rw [ih, hsq, show 2 * (e / 2) = e by omega]

/-- A line of a certificate: `q` is prime with Lucas witness `a`, and `q - 1 = ∏ r ^ k` over
`factors`. -/
structure Entry where
  q : ℕ
  a : ℕ
  factors : List (ℕ × ℕ)

/-- Lucas's test on one line, given the primes certified before it, for `q ≤ 2 ^ bits`. -/
def Entry.check (bits : ℕ) (proven : List ℕ) (e : Entry) : Bool :=
  2 ≤ e.q && e.q ≤ 2 ^ bits && e.factors.all (fun f => f.1 ∈ proven) &&
    (e.factors.map fun f => f.1 ^ f.2).prod == e.q - 1 &&
    powMod e.q bits e.a (e.q - 1) == 1 &&
    e.factors.all fun f => powMod e.q bits e.a ((e.q - 1) / f.1) != 1

/-- A certificate, line by line, each checked against the primes before it. -/
def check (bits : ℕ) : List ℕ → List Entry → Bool
  | _, [] => true
  | proven, e :: es => e.check bits proven && check bits (e.q :: proven) es

theorem natCast_pow_eq_one_iff {q : ℕ} (hq : 2 ≤ q) (a k : ℕ) :
    (a : ZMod q) ^ k = 1 ↔ a ^ k % q = 1 := by
  rw [← Nat.cast_pow, ← Nat.cast_one, ZMod.natCast_eq_natCast_iff', Nat.one_mod_eq_one.mpr (by omega)]

theorem Entry.prime_of_check {bits : ℕ} {proven : List ℕ} {e : Entry}
    (hproven : ∀ r ∈ proven, r.Prime) (h : e.check bits proven = true) : e.q.Prime := by
  simp only [Entry.check, Bool.and_eq_true, decide_eq_true_eq, List.all_eq_true, beq_iff_eq,
    bne_iff_ne, ne_eq] at h
  obtain ⟨⟨⟨⟨⟨h2, hbits⟩, hfactors⟩, hprod⟩, hfull⟩, hpart⟩ := h
  have hexp : ∀ k ≤ e.q - 1, powMod e.q bits e.a k = e.a ^ k % e.q := fun k hk =>
    powMod_eq _ _ _ _ (by omega)
  refine lucas_primality e.q (e.a : ZMod e.q) ?_ fun r hr hdvd => ?_
  · rw [natCast_pow_eq_one_iff h2, ← hexp _ le_rfl, hfull]
  · -- `r` divides one of the prime powers of the factorization, so it is that prime
    rw [← hprod] at hdvd
    obtain ⟨_, hmem, hrf⟩ := (Prime.dvd_prod_iff hr.prime).mp hdvd
    obtain ⟨f, hf, rfl⟩ := List.mem_map.mp hmem
    obtain rfl : r = f.1 :=
      (Nat.prime_dvd_prime_iff_eq hr (hproven _ (hfactors f hf))).mp (hr.dvd_of_dvd_pow hrf)
    rw [ne_eq, natCast_pow_eq_one_iff h2, ← hexp _ (Nat.div_le_self _ _)]
    exact hpart f hf

theorem prime_of_check {bits : ℕ} :
    ∀ {proven : List ℕ} {es : List Entry}, (∀ r ∈ proven, r.Prime) →
      check bits proven es = true → ∀ e ∈ es, e.q.Prime
  | _, [], _, _, _, he => absurd he (List.not_mem_nil _)
  | proven, e :: es, hproven, h, e', he' => by
    rw [check, Bool.and_eq_true] at h
    have he := Entry.prime_of_check hproven h.1
    rcases List.mem_cons.mp he' with rfl | he'
    · exact he
    · exact prime_of_check (fun r hr => (List.mem_cons.mp hr).elim (· ▸ he) (hproven r)) h.2 e' he'

end CitrateCrypto.KeyAgreement
