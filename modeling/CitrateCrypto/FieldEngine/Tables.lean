import Mathlib.Logic.Function.Iterate
import Mathlib.Data.List.Range
import Mathlib.Data.Nat.Bitwise

namespace CitrateCrypto.FieldEngine

/-- The `while b` loop of `GF256._multiply_raw`, for at most `fuel` rounds. -/
def multiplyRawLoop : ℕ → ℕ → ℕ → ℕ → ℕ
  | 0, result, _, _ => result
  | fuel + 1, result, a, b =>
    if b = 0 then result
    else
      let result := if b &&& 1 ≠ 0 then result ^^^ a else result
      let a := a <<< 1
      let a := if a &&& 0x100 ≠ 0 then a ^^^ 0x11b else a
      multiplyRawLoop fuel result a (b >>> 1)

/-- `GF256._multiply_raw`: shift-and-add multiplication reduced by `0x11b`. Each round halves `b`,
so `b` rounds are enough. -/
def multiplyRaw (a b : ℕ) : ℕ := multiplyRawLoop b 0 a b &&& 0xff

/-- Multiplication by the generator `3` that `_initialize_tables` walks. -/
def mulThree (x : ℕ) : ℕ := multiplyRaw x 3

theorem mulThree_lt (x : ℕ) : mulThree x < 256 :=
  Nat.and_lt_two_pow _ (n := 8) (by decide)

/-- Exclusive-or of the `c i` over the set bits `i < 8` of `x`. -/
def xorSpan (c : ℕ → ℕ) (x : ℕ) : ℕ :=
  (List.range 8).foldl (fun acc i => if x.testBit i then acc ^^^ c i else acc) 0

theorem xor_cond (a b c : ℕ) (p q : Bool) :
    (if (p ^^ q) then a ^^^ b ^^^ c else a ^^^ b) =
      (if p then a ^^^ c else a) ^^^ (if q then b ^^^ c else b) := by
  apply Nat.eq_of_testBit_eq
  intro i
  cases p <;> cases q <;> simp [Nat.testBit_xor, Bool.xor_comm, Bool.xor_left_comm]

theorem xorSpan_fold (c : ℕ → ℕ) (x y : ℕ) (l : List ℕ) (a b : ℕ) :
    l.foldl (fun acc i => if (x ^^^ y).testBit i then acc ^^^ c i else acc) (a ^^^ b) =
      l.foldl (fun acc i => if x.testBit i then acc ^^^ c i else acc) a ^^^
        l.foldl (fun acc i => if y.testBit i then acc ^^^ c i else acc) b := by
  induction l generalizing a b with
  | nil => rfl
  | cons i l ih =>
    simp only [List.foldl_cons]
    rw [← ih, Nat.testBit_xor, xor_cond]

theorem xorSpan_xor (c : ℕ → ℕ) (x y : ℕ) : xorSpan c (x ^^^ y) = xorSpan c x ^^^ xorSpan c y := by
  have h := xorSpan_fold c x y (List.range 8) 0 0
  rwa [Nat.xor_zero] at h

set_option maxRecDepth 10000 in
theorem mulThree_eq_xorSpan : ∀ x < 256, mulThree x = xorSpan (fun i => mulThree (2 ^ i)) x := by
  decide

theorem mulThree_xor {x y : ℕ} (hx : x < 256) (hy : y < 256) :
    mulThree (x ^^^ y) = mulThree x ^^^ mulThree y := by
  rw [mulThree_eq_xorSpan _ (Nat.xor_lt_two_pow (n := 8) hx hy), mulThree_eq_xorSpan _ hx,
    mulThree_eq_xorSpan _ hy, xorSpan_xor]

set_option maxRecDepth 10000 in
theorem mulThree_eq_zero : ∀ x < 256, mulThree x = 0 → x = 0 := by decide

theorem mulThree_injOn {x y : ℕ} (hx : x < 256) (hy : y < 256) (h : mulThree x = mulThree y) :
    x = y := by
  have h0 := mulThree_eq_zero _ (Nat.xor_lt_two_pow (n := 8) hx hy)
  rw [mulThree_xor hx hy, h, Nat.xor_self] at h0
  exact Nat.xor_eq_zero.mp (h0 rfl)

/-- `3 ^ n` in the field: the value of `x` after `n` rounds of the table loop. -/
def genPow (n : ℕ) : ℕ := mulThree^[n] 1

theorem genPow_succ (n : ℕ) : genPow (n + 1) = mulThree (genPow n) :=
  Function.iterate_succ_apply' _ _ _

theorem genPow_add (m n : ℕ) : genPow (m + n) = mulThree^[n] (genPow m) := by
  rw [genPow, Nat.add_comm, Function.iterate_add_apply, genPow]

theorem genPow_lt (n : ℕ) : genPow n < 256 := by
  cases n with
  | zero => decide
  | succ n => rw [genPow_succ]; exact mulThree_lt _

theorem genPow_ne_zero (n : ℕ) : genPow n ≠ 0 := by
  induction n with
  | zero => decide
  | succ n ih => rw [genPow_succ]; exact fun h => ih (mulThree_eq_zero _ (genPow_lt n) h)

set_option maxRecDepth 10000 in
theorem genPow_255 : genPow 255 = 1 := by decide

theorem genPow_add_255 (n : ℕ) : genPow (n + 255) = genPow n := by
  rw [Nat.add_comm, genPow_add, genPow_255, genPow]

theorem genPow_add_mul (r q : ℕ) : genPow (r + 255 * q) = genPow r := by
  induction q with
  | zero => rfl
  | succ q ih => rw [Nat.mul_succ, ← Nat.add_assoc, genPow_add_255, ih]

theorem genPow_mod (n : ℕ) : genPow (n % 255) = genPow n := by
  conv_rhs => rw [← Nat.mod_add_div n 255, genPow_add_mul]

set_option maxRecDepth 10000 in
theorem genPow_ne_one : ∀ k < 255, 0 < k → genPow k ≠ 1 := by decide

theorem iterate_mulThree_injOn (n : ℕ) {x y : ℕ} (hx : x < 256) (hy : y < 256)
    (h : mulThree^[n] x = mulThree^[n] y) : x = y := by
  induction n generalizing x y with
  | zero => exact h
  | succ n ih =>
    rw [Function.iterate_succ_apply, Function.iterate_succ_apply] at h
    exact mulThree_injOn hx hy (ih (mulThree_lt x) (mulThree_lt y) h)

theorem genPow_injOn {i j : ℕ} (hi : i < 255) (hj : j < 255) (h : genPow i = genPow j) : i = j := by
  wlog hji : j ≤ i generalizing i j
  · exact (this hj hi h.symm (by omega)).symm
  have hd : genPow (i - j) = 1 := by
    refine iterate_mulThree_injOn j (genPow_lt _) (by decide) ?_
    rw [← genPow_add, Nat.sub_add_cancel hji, h, genPow]
  by_contra hne
  exact genPow_ne_one (i - j) (by omega) (by omega) hd

/-- The two tables and the running power `x` inside `GF256._initialize_tables`. -/
structure TableState where
  exp : List ℕ
  log : List ℕ
  x : ℕ

/-- One round of the first loop: `exp[i] = x; log[x] = i; x = _multiply_raw(x, 3)`. -/
def fillRound (s : TableState) (i : ℕ) : TableState :=
  ⟨s.exp.set i s.x, s.log.set s.x i, multiplyRaw s.x 3⟩

/-- One round of the second loop: `exp[i] = exp[i - 255]`. -/
def overflowRound (exp : List ℕ) (i : ℕ) : List ℕ := exp.set i (exp.getD (i - 255) 0)

/-- `GF256._initialize_tables`: the `exp` table (512 entries) and the `log` table (256 entries). -/
def initializeTables : List ℕ × List ℕ :=
  let s := (List.range 255).foldl fillRound ⟨List.replicate 512 0, List.replicate 256 0, 1⟩
  ((List.range' 255 257).foldl overflowRound s.exp, s.log.set 0 0)

def expTable : List ℕ := initializeTables.1

def logTable : List ℕ := initializeTables.2

theorem set_append_replicate (l : List ℕ) {i : ℕ} (hi : i = l.length) (a n : ℕ) :
    (l ++ List.replicate (n + 1) 0).set i a = (l ++ [a]) ++ List.replicate n 0 := by
  subst hi
  rw [List.set_append_right _ _ (Nat.le_refl _), Nat.sub_self, List.append_assoc]
  rfl

theorem fill_spec (k : ℕ) (hk : k ≤ 255) :
    let s := (List.range k).foldl fillRound ⟨List.replicate 512 0, List.replicate 256 0, 1⟩
    s.x = genPow k ∧ s.exp = (List.range k).map genPow ++ List.replicate (512 - k) 0 ∧
      s.log.length = 256 ∧ ∀ j < k, s.log[genPow j]? = some j := by
  induction k with
  | zero => exact ⟨rfl, rfl, List.length_replicate _ _, fun j hj => absurd hj (Nat.not_lt_zero j)⟩
  | succ k ih =>
    obtain ⟨hx, he, hl, hlog⟩ := ih (by omega)
    simp only [List.range_succ, List.foldl_append, List.foldl_cons, List.foldl_nil, fillRound]
    refine ⟨by rw [hx, genPow_succ]; rfl, ?_, by rw [List.length_set, hl], fun j hj => ?_⟩
    · rw [he, hx, show 512 - k = 512 - (k + 1) + 1 by omega]
      simpa using set_append_replicate ((List.range k).map genPow) (i := k) (by simp) (genPow k) (512 - (k + 1))
    · rw [List.getElem?_set, hx]
      rcases Nat.lt_succ_iff_lt_or_eq.mp hj with hj | rfl
      · rw [if_neg (fun h => by have := genPow_injOn (by omega) (by omega) h; omega), hlog j hj]
      · rw [if_pos rfl, hl, if_pos (genPow_lt _)]

theorem overflow_spec (m : ℕ) (hm : m ≤ 257) :
    (List.range' 255 m).foldl overflowRound ((List.range 255).map genPow ++ List.replicate 257 0) =
      (List.range (255 + m)).map (fun j => genPow (j % 255)) ++ List.replicate (257 - m) 0 := by
  induction m with
  | zero =>
    exact congrArg (· ++ _) (List.map_congr_left fun j hj => by
      rw [Nat.mod_eq_of_lt (List.mem_range.mp hj)])
  | succ m ih =>
    rw [List.range'_concat, List.foldl_append, ih (by omega), List.foldl_cons, List.foldl_nil,
      overflowRound, show 257 - m = 257 - (m + 1) + 1 by omega, Nat.one_mul]
    have hlen : ((List.range (255 + m)).map fun j => genPow (j % 255)).length = 255 + m := by simp
    have hget : (((List.range (255 + m)).map fun j => genPow (j % 255)) ++
        List.replicate (257 - (m + 1) + 1) 0).getD (255 + m - 255) 0 = genPow ((255 + m) % 255) := by
      rw [List.getD_append _ _ _ _ (by omega), List.getD_eq_getElem _ _ (by omega)]
      simp
    rw [hget, set_append_replicate _ hlen.symm, ← Nat.add_assoc, List.range_succ, List.map_append]
    rfl

theorem expTable_eq : expTable = (List.range 512).map fun j => genPow (j % 255) := by
  rw [expTable, initializeTables, (fill_spec 255 le_rfl).2.1]
  dsimp only
  rw [overflow_spec 257 le_rfl, Nat.sub_self, List.replicate_zero, List.append_nil]

theorem logTable_genPow {k : ℕ} (hk : k < 255) : logTable[genPow k]? = some k := by
  rw [logTable, initializeTables, List.getElem?_set, if_neg (Ne.symm (genPow_ne_zero k))]
  exact (fill_spec 255 le_rfl).2.2.2 k hk

theorem logTable_zero : logTable[0]? = some 0 := by
  rw [logTable, initializeTables, List.getElem?_set, if_pos rfl, (fill_spec 255 le_rfl).2.2.1,
    if_pos (by decide)]

end CitrateCrypto.FieldEngine
