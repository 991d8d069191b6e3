import CitrateCrypto.FieldEngine.Ops

namespace CitrateCrypto.FieldEngine

/-- The class attributes `_exp_table`, `_log_table` and `_initialized` of `GF256`; `none` is the
`None` the tables hold before the first initialization. -/
structure ClassState where
  expTable : Option (List ℕ)
  logTable : Option (List ℕ)
  initialized : Bool

/-- Where a thread running `GF256.multiply(a, b)` stands. -/
inductive Pc where
  | checkInit -- `if cls._initialized: return`
  | allocExp -- `cls._exp_table = [0] * 512`
  | allocLog -- `cls._log_table = [0] * 256`, then `x = 1`
  | fill (i x : ℕ) -- round `i` of `for i in range(255)`, with the local `x`, or the exit of that loop
  | overflow (i : ℕ) -- round `i` of `for i in range(255, 512)`, or the exit of that loop
  | logZero -- `cls._log_table[0] = 0`
  | setInit -- `cls._initialized = True`
  | body -- the rest of `multiply`, once `_initialize_tables()` has returned
  | returned (r : Except PyError ℤ) -- `multiply` returned, or raised
  | typeError -- a table still `None` was subscripted: Python's `TypeError`
deriving DecidableEq

/-- The table lookup of `multiply` for two nonzero arguments. -/
def lookupProduct (exp log : List ℕ) (a b : ℤ) : Except PyError ℤ := do
  let la ← getItem log a
  let lb ← getItem log b
  getItem exp (la + lb)

/-- One statement of a thread running `multiply(a, b)`: the class state and position after it, and
whether it was a test of `cls._initialized` that found `False`. -/
def stmt (a b : ℤ) (c : ClassState) : Pc → ClassState × Pc × Bool
  | .checkInit => if c.initialized then (c, .body, false) else (c, .allocExp, true)
  | .allocExp => ({ c with expTable := some (List.replicate 512 0) }, .allocLog, false)
  | .allocLog => ({ c with logTable := some (List.replicate 256 0) }, .fill 0 1, false)
  | .fill i x =>
    if i < 255 then
      match c.expTable, c.logTable with
      | some exp, some log =>
        let s := fillRound ⟨exp, log, x⟩ i
        ({ c with expTable := some s.exp, logTable := some s.log }, .fill (i + 1) s.x, false)
      | _, _ => (c, .typeError, false)
    else (c, .overflow 255, false)
  | .overflow i =>
    if i < 512 then
      match c.expTable with
      | some exp => ({ c with expTable := some (overflowRound exp i) }, .overflow (i + 1), false)
      | none => (c, .typeError, false)
    else (c, .logZero, false)
  | .logZero =>
    match c.logTable with
    | some log => ({ c with logTable := some (log.set 0 0) }, .setInit, false)
    | none => (c, .typeError, false)
  | .setInit => ({ c with initialized := true }, .body, false)
  | .body =>
    if a = 0 ∨ b = 0 then (c, .returned (pure 0), false)
    else
      match c.expTable, c.logTable with
      | some exp, some log => (c, .returned (lookupProduct exp log a b), false)
      | _, _ => (c, .typeError, false)
  | .returned r => (c, .returned r, false)
  | .typeError => (c, .typeError, false)

/-- The tables and the local `x` after `i` rounds of the first loop of `_initialize_tables`. -/
def filled (i : ℕ) : TableState :=
  (List.range i).foldl fillRound ⟨List.replicate 512 0, List.replicate 256 0, 1⟩

/-- The exp table after the rounds `255, ..., i - 1` of the second loop. -/
def overflowed (i : ℕ) : List ℕ := (List.range' 255 (i - 255)).foldl overflowRound (filled 255).exp

theorem filled_succ (i : ℕ) : filled (i + 1) = fillRound (filled i) i := by
  rw [filled, List.range_succ, List.foldl_append]
  rfl

theorem overflowed_succ {i : ℕ} (hi : 255 ≤ i) : overflowed (i + 1) = overflowRound (overflowed i) i := by
  rw [overflowed, show i + 1 - 255 = i - 255 + 1 by omega, List.range'_concat, List.foldl_append,
    show 255 + 1 * (i - 255) = i by omega, List.foldl_cons, List.foldl_nil, overflowed]

theorem overflowed_255 : overflowed 255 = (filled 255).exp := by
  rw [overflowed, Nat.sub_self, List.range'_zero, List.foldl_nil]

theorem initializeTables_eq : initializeTables = (overflowed 512, (filled 255).log.set 0 0) := by
  rw [initializeTables, overflowed, filled]

theorem overflowed_512 : overflowed 512 = expTable := by rw [expTable, initializeTables_eq]

theorem logTable_eq_set : logTable = (filled 255).log.set 0 0 := by rw [logTable, initializeTables_eq]

section Steps

variable (a b : ℤ)

theorem stmt_fill {i : ℕ} (hi : i < 255) :
    stmt a b ⟨some (filled i).exp, some (filled i).log, false⟩ (.fill i (filled i).x) =
      (⟨some (filled (i + 1)).exp, some (filled (i + 1)).log, false⟩, .fill (i + 1) (filled (i + 1)).x,
        false) := by
  rw [filled_succ]
  simp only [stmt, if_pos hi]

theorem stmt_fill_exit (c : ClassState) (x : ℕ) : stmt a b c (.fill 255 x) = (c, .overflow 255, false) :=
  rfl

theorem stmt_overflow {i : ℕ} (hi : 255 ≤ i) (hi' : i < 512) (log : List ℕ) :
    stmt a b ⟨some (overflowed i), some log, false⟩ (.overflow i) =
      (⟨some (overflowed (i + 1)), some log, false⟩, .overflow (i + 1), false) := by
  rw [overflowed_succ hi]
  simp only [stmt, if_pos hi']

theorem stmt_overflow_exit (c : ClassState) : stmt a b c (.overflow 512) = (c, .logZero, false) := rfl

theorem stmt_body :
    stmt a b ⟨some expTable, some logTable, true⟩ .body =
      (⟨some expTable, some logTable, true⟩, .returned (GF256.multiply a b), false) := by
  by_cases h : a = 0 ∨ b = 0
  · simp only [stmt, GF256.multiply, if_pos h]
  · simp only [stmt, GF256.multiply, if_neg h]
    rfl

end Steps

/-- The class state while the one thread that found `_initialized` false stands at `pc`: the
tables that `_initialize_tables` has built so far, and once it is done the constant tables. -/
def Initializing (c : ClassState) : Pc → Prop
  | .checkInit => False
  | .allocExp => c = ⟨none, none, false⟩
  | .allocLog => c = ⟨some (List.replicate 512 0), none, false⟩
  | .fill i x => i ≤ 255 ∧ x = (filled i).x ∧ c = ⟨some (filled i).exp, some (filled i).log, false⟩
  | .overflow i => 255 ≤ i ∧ i ≤ 512 ∧ c = ⟨some (overflowed i), some (filled 255).log, false⟩
  | .logZero => c = ⟨some expTable, some (filled 255).log, false⟩
  | .setInit => c = ⟨some expTable, some logTable, false⟩
  | .body => c = ⟨some expTable, some logTable, true⟩
  | .returned _ => c = ⟨some expTable, some logTable, true⟩
  | .typeError => False

theorem initializing_stmt (a b : ℤ) {c : ClassState} {pc : Pc} (h : Initializing c pc) :
    Initializing (stmt a b c pc).1 (stmt a b c pc).2.1 ∧ (stmt a b c pc).2.2 = false ∧
      ∀ r, (stmt a b c pc).2.1 = .returned r → pc = .returned r ∨ r = GF256.multiply a b := by
  cases pc with
  | checkInit => exact h.elim
  | allocExp => subst h; exact ⟨rfl, rfl, fun r h => nomatch h⟩
  | allocLog => subst h; exact ⟨⟨Nat.zero_le _, rfl, rfl⟩, rfl, fun r h => nomatch h⟩
  | fill i x =>
    obtain ⟨hi, rfl, rfl⟩ := h
    by_cases hlt : i < 255
    · rw [stmt_fill a b hlt]
      exact ⟨⟨hlt, rfl, rfl⟩, rfl, fun r h => nomatch h⟩
    · obtain rfl : i = 255 := by omega
      rw [stmt_fill_exit]
      exact ⟨⟨le_rfl, by decide, by rw [overflowed_255]⟩, rfl, fun r h => nomatch h⟩
  | overflow i =>
    obtain ⟨hi, hi', rfl⟩ := h
    by_cases hlt : i < 512
    · rw [stmt_overflow a b hi hlt]
      exact ⟨⟨by omega, hlt, rfl⟩, rfl, fun r h => nomatch h⟩
    · obtain rfl : i = 512 := by omega
      rw [stmt_overflow_exit, overflowed_512]
      exact ⟨rfl, rfl, fun r h => nomatch h⟩
  | logZero =>
    subst h
    exact ⟨congrArg (fun log => (⟨some expTable, some log, false⟩ : ClassState)) logTable_eq_set.symm,
      rfl, fun r h => nomatch h⟩
  | setInit => subst h; exact ⟨rfl, rfl, fun r h => nomatch h⟩
  | body =>
    subst h
    rw [stmt_body]
    exact ⟨rfl, rfl, fun r h => .inr (Pc.returned.inj h).symm⟩
  | returned r => subst h; exact ⟨rfl, rfl, fun r' h => .inl h⟩
  | typeError => exact h.elim

theorem Initializing.eq_of_initialized {c : ClassState} {pc : Pc} (h : Initializing c pc)
    (hc : c.initialized = true) : c = ⟨some expTable, some logTable, true⟩ := by
  cases pc with
  | body => exact h
  | returned _ => exact h
  | checkInit | typeError => exact h.elim
  | fill i x => rw [h.2.2] at hc; exact absurd hc Bool.false_ne_true
  | overflow i => rw [h.2.2] at hc; exact absurd hc Bool.false_ne_true
  | allocExp | allocLog | logZero | setInit => rw [h] at hc; exact absurd hc Bool.false_ne_true

theorem stmt_initialized (a b : ℤ) {c : ClassState} (hc : c.initialized = true) (pc : Pc) :
    (stmt a b c pc).1.initialized = true := by
  cases pc <;> simp only [stmt] <;> (repeat' split) <;> exact hc

/-- `k` threads: the class state, the position of each thread, and, as a ghost that nothing in the
code reads, the threads whose test of `cls._initialized` found `False`. -/
structure Threads (k : ℕ) where
  cls : ClassState
  pc : Fin k → Pc
  sawUninitialized : List (Fin k)

namespace Threads

variable {k : ℕ} (args : Fin k → ℤ × ℤ)

/-- Before any call: the tables are `None`, and every thread is about to call
`_initialize_tables`. -/
def initial : Threads k := ⟨⟨none, none, false⟩, fun _ => .checkInit, []⟩

/-- Thread `t`, running `multiply(*args[t])`, runs its next statement. -/
def next (s : Threads k) (t : Fin k) : Threads k :=
  let r := stmt (args t).1 (args t).2 s.cls (s.pc t)
  ⟨r.1, Function.update s.pc t r.2.1,
    if r.2.2 then t :: s.sawUninitialized else s.sawUninitialized⟩

/-- The threads of a schedule run one statement each, in its order. -/
def run (s : Threads k) (sched : List (Fin k)) : Threads k := sched.foldl (next args) s

theorem run_nil (s : Threads k) : run args s [] = s := rfl

theorem run_cons (s : Threads k) (t : Fin k) (sched : List (Fin k)) :
    run args s (t :: sched) = run args (next args s t) sched := rfl

theorem length_le_run (s : Threads k) (sched : List (Fin k)) :
    s.sawUninitialized.length ≤ (run args s sched).sawUninitialized.length := by
  induction sched generalizing s with
  | nil => exact le_rfl
  | cons t sched ih =>
    refine le_trans ?_ (ih (next args s t))
    dsimp only [next]
    split <;> simp

/-- The invariant of the runs in which at most one thread finds `_initialized` false: every call
that returned gave the product, and the class state is what `Initializing` says for the position
of the thread that initializes, every other thread still at the test or past it. -/
def Inv (s : Threads k) : Prop :=
  (∀ t r, s.pc t = .returned r → r = GF256.multiply (args t).1 (args t).2) ∧
    match s.sawUninitialized with
    | [] => s.cls = ⟨none, none, false⟩ ∧ ∀ t, s.pc t = .checkInit
    | [u] => Initializing s.cls (s.pc u) ∧
        ∀ t, t ≠ u → s.pc t = .checkInit ∨ (s.pc t = .body ∧ s.cls.initialized = true) ∨
          ∃ r, s.pc t = .returned r
    | _ :: _ :: _ => False

theorem inv_initial : Inv args (initial : Threads k) := by
  unfold Inv
  exact ⟨fun _ _ h => (nomatch h), rfl, fun _ => rfl⟩

theorem next_of_stmt {s : Threads k} {t : Fin k} {c : ClassState} {p : Pc} {f : Bool}
    (h : stmt (args t).1 (args t).2 s.cls (s.pc t) = (c, p, f)) :
    next args s t = ⟨c, Function.update s.pc t p,
      if f then t :: s.sawUninitialized else s.sawUninitialized⟩ := by
  simp only [next, h]

theorem inv_update_other {s : Threads k} {u t : Fin k}
    (hret : ∀ t r, s.pc t = .returned r → r = GF256.multiply (args t).1 (args t).2)
    (hu : Initializing s.cls (s.pc u))
    (hothers : ∀ t, t ≠ u → s.pc t = .checkInit ∨ (s.pc t = .body ∧ s.cls.initialized = true) ∨
      ∃ r, s.pc t = .returned r) (htu : t ≠ u) {p : Pc}
    (hp : p = .checkInit ∨ (p = .body ∧ s.cls.initialized = true) ∨ ∃ r, p = .returned r)
    (hpr : ∀ r, p = .returned r → r = GF256.multiply (args t).1 (args t).2) :
    Inv args ⟨s.cls, Function.update s.pc t p, [u]⟩ := by
  unfold Inv
  dsimp only
  refine ⟨fun t' r h => ?_, by rw [Function.update_noteq htu.symm]; exact hu, fun t' ht' => ?_⟩
  · rcases eq_or_ne t' t with rfl | ht
    · rw [Function.update_same] at h
      exact hpr r h
    · rw [Function.update_noteq ht] at h
      exact hret t' r h
  · rcases eq_or_ne t' t with rfl | ht
    · rw [Function.update_same]
      exact hp
    · rw [Function.update_noteq ht]
      exact hothers t' ht'

theorem inv_next {s : Threads k} (hs : Inv args s) (t : Fin k)
    (hlen : (next args s t).sawUninitialized.length ≤ 1) : Inv args (next args s t) := by
  obtain ⟨hret, hcls⟩ := hs
  unfold Inv
  generalize hsaw : s.sawUninitialized = saw at hcls
  match saw, hcls with
  | [], ⟨hc, hall⟩ =>
    -- the first test of the flag finds `False`: `t` becomes the initializing thread
    have hst : stmt (args t).1 (args t).2 s.cls (s.pc t) = (s.cls, .allocExp, true) := by
      rw [hall t, stmt, hc]
      rfl
    rw [next_of_stmt args hst, hsaw, if_pos rfl]
    dsimp only
    refine ⟨fun t' r h => ?_, ?_, fun t' ht' => .inl ?_⟩
    · rcases eq_or_ne t' t with rfl | ht'
      · rw [Function.update_same] at h; exact nomatch h
      · rw [Function.update_noteq ht', hall t'] at h; exact nomatch h
    · rw [Function.update_same]; exact hc
    · rw [Function.update_noteq ht', hall t']
  | [u], ⟨hu, hothers⟩ =>
    rcases eq_or_ne t u with rfl | htu
    · -- the initializing thread runs its next statement
      obtain ⟨hinit, hflag, hres⟩ := initializing_stmt (args t).1 (args t).2 hu
      have hst : stmt (args t).1 (args t).2 s.cls (s.pc t) = ((stmt (args t).1 (args t).2 s.cls (s.pc t)).1,
          (stmt (args t).1 (args t).2 s.cls (s.pc t)).2.1, false) := Prod.ext rfl (Prod.ext rfl hflag)
      rw [next_of_stmt args hst, if_neg Bool.false_ne_true, hsaw]
      dsimp only
      refine ⟨fun t' r h => ?_, by rw [Function.update_same]; exact hinit, fun t' ht' => ?_⟩
      · rcases eq_or_ne t' t with rfl | ht'
        · rw [Function.update_same] at h
          exact (hres r h).elim (hret t' r) id
        · rw [Function.update_noteq ht'] at h
          exact hret t' r h
      · rw [Function.update_noteq ht']
        rcases hothers t' ht' with h | ⟨h, hi⟩ | h
        · exact .inl h
        · exact .inr (.inl ⟨h, stmt_initialized _ _ hi _⟩)
        · exact .inr (.inr h)
    · -- another thread tests the flag, runs the body of `multiply`, or has returned
      rcases hothers t htu with hpc | ⟨hpc, hi⟩ | ⟨r, hpc⟩
      · cases hci : s.cls.initialized with
        | false =>
          -- finding it unset would make a second thread that found `_initialized` false
          have hst : stmt (args t).1 (args t).2 s.cls (s.pc t) = (s.cls, .allocExp, true) := by
            rw [hpc, stmt, hci]
            rfl
          rw [next_of_stmt args hst, if_pos rfl, hsaw] at hlen
          exact absurd hlen (by simp)
        | true =>
          have hst : stmt (args t).1 (args t).2 s.cls (s.pc t) = (s.cls, .body, false) := by
            rw [hpc, stmt, hci]
            rfl
          rw [next_of_stmt args hst, if_neg Bool.false_ne_true, hsaw]
          exact inv_update_other args hret hu hothers htu (.inr (.inl ⟨rfl, hci⟩)) fun r h => nomatch h
      · have hst : stmt (args t).1 (args t).2 s.cls (s.pc t) =
            (s.cls, .returned (GF256.multiply (args t).1 (args t).2), false) := by
          rw [hpc, hu.eq_of_initialized hi, stmt_body]
        rw [next_of_stmt args hst, if_neg Bool.false_ne_true, hsaw]
        exact inv_update_other args hret hu hothers htu (.inr (.inr ⟨_, rfl⟩))
          fun r h => (Pc.returned.inj h).symm
      · have hst : stmt (args t).1 (args t).2 s.cls (s.pc t) = (s.cls, .returned r, false) := by
          rw [hpc]
          rfl
        rw [next_of_stmt args hst, if_neg Bool.false_ne_true, hsaw]
        exact inv_update_other args hret hu hothers htu (.inr (.inr ⟨r, rfl⟩))
          fun r' h => (Pc.returned.inj h) ▸ hret t r hpc
  | _ :: _ :: _, h => exact h.elim

theorem inv_run {s : Threads k} (hs : Inv args s) (sched : List (Fin k))
    (hlen : (run args s sched).sawUninitialized.length ≤ 1) : Inv args (run args s sched) := by
  induction sched generalizing s with
  | nil => exact hs
  | cons t sched ih =>
    rw [run_cons] at hlen ⊢
    exact ih (inv_next args hs t ((length_le_run args _ sched).trans hlen)) hlen

/-- Under a one-time barrier `multiply` is safe with threads: in every schedule in which at most
one thread finds `_initialized` false, every call that has returned returned what the constant
tables give, `GF256.multiply(a, b)`. -/
theorem run_returns_product (sched : List (Fin k))
    (honce : (run args initial sched).sawUninitialized.length ≤ 1) (t : Fin k) (r : Except PyError ℤ)
    (h : (run args initial sched).pc t = .returned r) : r = GF256.multiply (args t).1 (args t).2 :=
  (inv_run args (inv_initial args) sched honce).1 t r h

theorem run_append (s : Threads k) (l₁ l₂ : List (Fin k)) :
    run args s (l₁ ++ l₂) = run args (run args s l₁) l₂ :=
  List.foldl_append _ _ _ _

theorem run_replicate_succ (s : Threads k) (u : Fin k) (j : ℕ) :
    run args s (List.replicate (j + 1) u) = next args (run args s (List.replicate j u)) u := by
  rw [List.replicate_succ', run_append]
  rfl

theorem next_update {c : ClassState} {pc : Fin k → Pc} {saw : List (Fin k)} {u : Fin k} {p : Pc}
    {c' : ClassState} {p' : Pc} (h : stmt (args u).1 (args u).2 c p = (c', p', false)) :
    next args ⟨c, Function.update pc u p, saw⟩ u = ⟨c', Function.update pc u p', saw⟩ := by
  have h' : stmt (args u).1 (args u).2 c (Function.update pc u p u) = (c', p', false) := by
    rw [Function.update_same]
    exact h
  rw [next_of_stmt args (s := ⟨c, Function.update pc u p, saw⟩) h', if_neg Bool.false_ne_true]
  dsimp only
  rw [Function.update_idem]

theorem run_fill {pc : Fin k → Pc} {saw : List (Fin k)} (u : Fin k) :
    ∀ j ≤ 255, run args ⟨⟨some (List.replicate 512 0), some (List.replicate 256 0), false⟩,
        Function.update pc u (.fill 0 1), saw⟩ (List.replicate j u) =
      ⟨⟨some (filled j).exp, some (filled j).log, false⟩, Function.update pc u (.fill j (filled j).x), saw⟩
  | 0, _ => rfl
  | j + 1, hj => by
    rw [run_replicate_succ, run_fill u j (by omega)]
    exact next_update args (stmt_fill _ _ (by omega))

theorem run_overflow {pc : Fin k → Pc} {saw : List (Fin k)} (u : Fin k) :
    ∀ j ≤ 257, run args ⟨⟨some (overflowed 255), some (filled 255).log, false⟩,
        Function.update pc u (.overflow 255), saw⟩ (List.replicate j u) =
      ⟨⟨some (overflowed (255 + j)), some (filled 255).log, false⟩,
        Function.update pc u (.overflow (255 + j)), saw⟩
  | 0, _ => rfl
  | j + 1, hj => by
    rw [run_replicate_succ, run_overflow u j (by omega)]
    exact next_update args (stmt_overflow _ _ (by omega) (by omega) _)

theorem run_initialize (s : Threads k) (u : Fin k) (hc : s.cls = ⟨none, none, false⟩)
    (hu : s.pc u = .checkInit) :
    run args s (List.replicate 519 u) =
      ⟨⟨some expTable, some logTable, true⟩, Function.update s.pc u .body, u :: s.sawUninitialized⟩ := by
  have hsplit : List.replicate 519 u = List.replicate 3 u ++ (List.replicate 255 u ++
      (List.replicate 1 u ++ (List.replicate 257 u ++ List.replicate 3 u))) := by
    simp only [← List.replicate_add]
  -- `_initialized` is tested and found false, then the two tables are allocated
  have hstart : run args s (List.replicate 3 u) =
      ⟨⟨some (List.replicate 512 0), some (List.replicate 256 0), false⟩,
        Function.update s.pc u (.fill 0 1), u :: s.sawUninitialized⟩ := by
    have h₁ : next args s u = ⟨⟨none, none, false⟩, Function.update s.pc u .allocExp,
        u :: s.sawUninitialized⟩ := by
      rw [next_of_stmt args (c := ⟨none, none, false⟩) (p := .allocExp) (f := true)
        (by rw [hu, hc]; rfl), if_pos rfl]
    have h₂ : next args ⟨⟨none, none, false⟩, Function.update s.pc u .allocExp, u :: s.sawUninitialized⟩ u =
        ⟨⟨some (List.replicate 512 0), none, false⟩, Function.update s.pc u .allocLog,
          u :: s.sawUninitialized⟩ := next_update args rfl
    show next args (next args (next args s u) u) u = _
    rw [h₁, h₂]
    exact next_update args rfl
  -- the two loops, then `log[0] = 0` and the flag
  have hend : run args ⟨⟨some (overflowed 512), some (filled 255).log, false⟩,
      Function.update s.pc u (.overflow 512), u :: s.sawUninitialized⟩ (List.replicate 3 u) =
      ⟨⟨some expTable, some logTable, true⟩, Function.update s.pc u .body, u :: s.sawUninitialized⟩ := by
    have h₁ : next args ⟨⟨some (overflowed 512), some (filled 255).log, false⟩,
        Function.update s.pc u (.overflow 512), u :: s.sawUninitialized⟩ u =
        ⟨⟨some expTable, some (filled 255).log, false⟩, Function.update s.pc u .logZero,
          u :: s.sawUninitialized⟩ := by
      rw [← overflowed_512]
      exact next_update args rfl
    have h₂ : next args ⟨⟨some expTable, some (filled 255).log, false⟩, Function.update s.pc u .logZero,
        u :: s.sawUninitialized⟩ u = ⟨⟨some expTable, some logTable, false⟩,
          Function.update s.pc u .setInit, u :: s.sawUninitialized⟩ := by
      rw [logTable_eq_set]
      exact next_update args rfl
    show next args (next args (next args _ u) u) u = _
    rw [h₁, h₂]
    exact next_update args rfl
  rw [hsplit, run_append, hstart, run_append, run_fill args u 255 le_rfl, run_append]
  have hexit : run args ⟨⟨some (filled 255).exp, some (filled 255).log, false⟩,
      Function.update s.pc u (.fill 255 (filled 255).x), u :: s.sawUninitialized⟩ (List.replicate 1 u) =
      ⟨⟨some (overflowed 255), some (filled 255).log, false⟩, Function.update s.pc u (.overflow 255),
        u :: s.sawUninitialized⟩ := by
    rw [overflowed_255]
    exact next_update args rfl
  rw [hexit, run_append, run_overflow args u 257 le_rfl]
  exact hend

theorem run_alone (u : Fin k) :
    run args initial (List.replicate 520 u) = ⟨⟨some expTable, some logTable, true⟩,
      Function.update (fun _ => .checkInit) u (.returned (GF256.multiply (args u).1 (args u).2)), [u]⟩ := by
  rw [run_replicate_succ, run_initialize args initial u rfl rfl]
  exact next_update args (stmt_body _ _)

end Threads

/-- Thread `0` runs `_initialize_tables` to its end before thread `1` tests the flag; then thread
`1` and thread `0` finish their calls. -/
def initFirstSchedule : List (Fin 2) := List.replicate 519 0 ++ [1, 1, 0]

theorem run_returns_product_init_first :
    let args : Fin 2 → ℤ × ℤ := fun t => if t = 0 then (3, 5) else (7, 11)
    ((Threads.initial : Threads 2).run args initFirstSchedule).sawUninitialized.length ≤ 1 ∧
      ((Threads.initial : Threads 2).run args initFirstSchedule).pc 1 = .returned (.ok 49) ∧
      .ok 49 = GF256.multiply (args 1).1 (args 1).2 := by
  intro args
  have h10 : (1 : Fin 2) ≠ 0 := by decide
  have hmul : GF256.multiply (args 1).1 (args 1).2 = .ok 49 := by
    have h : ((⟨7, by decide⟩ * ⟨11, by decide⟩ : GF)).val = 49 := by
      set_option maxRecDepth 20000 in decide
    have hval := GF256.multiply_val ⟨7, by decide⟩ ⟨11, by decide⟩
    rw [h] at hval
    exact hval
  set c : ClassState := ⟨some expTable, some logTable, true⟩
  set pc₀ : Fin 2 → Pc := Function.update (fun _ => .checkInit) 0 .body
  set r₁ : Pc := .returned (GF256.multiply (args 1).1 (args 1).2)
  -- thread `1` finds the flag set, and both calls run the body on the constant tables
  have h₁ : Threads.next args ⟨c, pc₀, [0]⟩ 1 = ⟨c, Function.update pc₀ 1 .body, [0]⟩ := by
    refine Threads.next_of_stmt args (c := c) (p := .body) (f := false) ?_
    show stmt _ _ c (pc₀ 1) = _
    rw [show pc₀ 1 = .checkInit from Function.update_noteq h10 _ _]
    rfl
  have h₂ : Threads.next args ⟨c, Function.update pc₀ 1 .body, [0]⟩ 1 =
      ⟨c, Function.update pc₀ 1 r₁, [0]⟩ := Threads.next_update args (stmt_body _ _)
  have h₃ : Threads.next args ⟨c, Function.update pc₀ 1 r₁, [0]⟩ 0 =
      ⟨c, Function.update (Function.update pc₀ 1 r₁) 0 (.returned (GF256.multiply (args 0).1 (args 0).2)),
        [0]⟩ := by
    refine Threads.next_of_stmt args (c := c) (f := false) ?_
    show stmt _ _ c (Function.update pc₀ 1 r₁ 0) = _
    rw [Function.update_noteq h10.symm, show pc₀ 0 = .body from Function.update_same _ _ _]
    exact stmt_body _ _
  have hrun : Threads.initial.run args initFirstSchedule =
      Threads.next args (Threads.next args (Threads.next args ⟨c, pc₀, [0]⟩ 1) 1) 0 := by
    rw [initFirstSchedule, Threads.run_append, Threads.run_initialize args _ 0 rfl rfl]
    rfl
  rw [h₁, h₂, h₃] at hrun
  have hpc : (Threads.initial.run args initFirstSchedule).pc 1 = .returned (.ok 49) := by
    rw [hrun]
    dsimp only
    rw [Function.update_noteq h10, Function.update_same]
    exact congrArg Pc.returned hmul
  have hlen : (Threads.initial.run args initFirstSchedule).sawUninitialized.length ≤ 1 := by
    rw [hrun]
    decide
  exact ⟨hlen, hpc, Threads.run_returns_product args _ hlen 1 _ hpc⟩

theorem lookupProduct_replicate {a b : GF} (ha : a ≠ 0) (hb : b ≠ 0) :
    lookupProduct (List.replicate 512 0) logTable a.val b.val = .ok 0 := by
  have hlt := Nat.add_lt_add (GF.dlog_val_lt ha) (GF.dlog_val_lt hb)
  rw [lookupProduct, getItem_logTable ha, getItem_logTable hb, ok_bind, ok_bind, ← Nat.cast_add,
    getItem_natCast, List.getElem?_replicate, if_pos (by omega)]
  rfl

/-- The schedule of the race: thread `1` finds `_initialized` false and stops before
`cls._exp_table = [0] * 512`; thread `0` runs all of `_initialize_tables`; thread `1` then
allocates its exp table of zeros, and thread `0` looks its product up there. -/
def raceSchedule : List (Fin 2) := [1] ++ List.replicate 519 0 ++ [1, 0]

theorem multiply_race (a b : GF) (ha : a ≠ 0) (hb : b ≠ 0) :
    ((Threads.initial : Threads 2).run (fun _ => ((a.val : ℤ), (b.val : ℤ))) raceSchedule).pc 0 =
        .returned (.ok 0) ∧ GF256.multiply a.val b.val ≠ .ok 0 := by
  set args : Fin 2 → ℤ × ℤ := fun _ => ((a.val : ℤ), (b.val : ℤ))
  have h01 : (0 : Fin 2) ≠ 1 := by decide
  have hnz : ((a * b).val : ℤ) ≠ 0 := mt GF.natCast_val_eq_zero.mp (mul_ne_zero ha hb)
  refine ⟨?_, by rw [GF256.multiply_val]; exact fun h => hnz (Except.ok.inj h)⟩
  -- thread `1` tests the flag; thread `0` initializes alone
  have h₁ : Threads.initial.next args 1 =
      ⟨⟨none, none, false⟩, Function.update (fun _ => .checkInit) 1 .allocExp, [1]⟩ := by
    rw [Threads.next_of_stmt args (s := Threads.initial) (t := 1) (c := ⟨none, none, false⟩)
      (p := .allocExp) (f := true) rfl, if_pos rfl]
    rfl
  have h₂ := Threads.run_initialize args
    ⟨⟨none, none, false⟩, Function.update (fun _ => .checkInit) 1 .allocExp, [1]⟩ 0 rfl
    (by dsimp only; rw [Function.update_noteq h01])
  -- thread `1` allocates its exp table, then thread `0` reads it
  have h₃ : Threads.next args ⟨⟨some expTable, some logTable, true⟩,
      Function.update (Function.update (fun _ => .checkInit) 1 .allocExp) 0 .body, [0, 1]⟩ 1 =
      ⟨⟨some (List.replicate 512 0), some logTable, true⟩,
        Function.update (Function.update (Function.update (fun _ => .checkInit) 1 .allocExp) 0 .body) 1
          .allocLog, [0, 1]⟩ := by
    rw [Threads.next_of_stmt args (c := ⟨some (List.replicate 512 0), some logTable, true⟩) (p := .allocLog)
      (f := false) (by dsimp only; rw [Function.update_noteq h01.symm, Function.update_same]; rfl),
      if_neg Bool.false_ne_true]
  rw [raceSchedule, Threads.run_append, Threads.run_append]
  simp only [Threads.run_cons, Threads.run_nil]
  rw [h₁, h₂, h₃, Threads.next_of_stmt args (c := ⟨some (List.replicate 512 0), some logTable, true⟩)
    (p := .returned (.ok 0)) (f := false)]
  · dsimp only
    rw [Function.update_same]
  · dsimp only
    rw [Function.update_noteq h01, Function.update_same]
    simp only [stmt, args, if_neg (not_or.mpr ⟨mt GF.natCast_val_eq_zero.mp ha,
      mt GF.natCast_val_eq_zero.mp hb⟩)]
    rw [lookupProduct_replicate ha hb]

end CitrateCrypto.FieldEngine
