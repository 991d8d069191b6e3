import CitrateCrypto.FieldEngine.GF
import Mathlib.Data.Int.Bitwise
import Mathlib.Algebra.GroupWithZero.Basic

namespace CitrateCrypto.FieldEngine

/-- The exceptions the subsystem raises, each with the text the source gives it. `indexError` is
Python's own `list index out of range`; `invalidTag` is the AEAD's `InvalidTag`, which has no
text. -/
inductive PyError where
  | valueError (msg : String)
  | indexError
  | zeroDivisionError (msg : String)
  | citrateError (msg : String)
  | latticeError (msg : String)
  | invalidTag
  | keyError (key : String)
  | typeError (msg : String)
  | overflowError (msg : String)
deriving DecidableEq, Repr

/-- `str(e)`; a `KeyError` shows the `repr` of its key, here a key the source spells out. -/
def PyError.str : PyError → String
  | .valueError msg => msg
  | .indexError => "list index out of range"
  | .zeroDivisionError msg => msg
  | .citrateError msg => msg
  | .latticeError msg => msg
  | .invalidTag => ""
  | .keyError key => "'" ++ key ++ "'"
  | .typeError msg => msg
  | .overflowError msg => msg

instance instDecidableEqExcept {ε α : Type} [DecidableEq ε] [DecidableEq α] :
    DecidableEq (Except ε α)
  | .ok a, .ok b => if h : a = b then isTrue (h ▸ rfl) else isFalse fun e => h (Except.ok.inj e)
  | .error a, .error b =>
    if h : a = b then isTrue (h ▸ rfl) else isFalse fun e => h (Except.error.inj e)
  | .ok _, .error _ => isFalse Except.noConfusion
  | .error _, .ok _ => isFalse Except.noConfusion

/-- `try: body` / `except Exception as e: raise err(f"{context}{str(e)}")`. -/
def reraise {α : Type} (err : String → PyError) (context : String) : Except PyError α → Except PyError α
  | .ok a => .ok a
  | .error e => .error (err (context ++ e.str))

abbrev Byte := Fin 256

/-- A `bytes` literal such as `b"citrate-ecdh"`: the UTF-8 bytes of the text. -/
def bytesOfString (s : String) : List Byte :=
  s.toUTF8.toList.map fun b => ⟨b.toNat, b.val.isLt⟩

namespace GF

/-- The field element that a Python int in `[0, 255]` stands for. -/
def ofInt (x : ℤ) : GF := ⟨(x % 256).toNat, by omega⟩

def ofByte (b : Byte) : GF := ⟨b.val, b.isLt⟩

def toByte (a : GF) : Byte := ⟨a.val, a.lt⟩

theorem val_ofInt {x : ℤ} (h0 : 0 ≤ x) (h : x < 256) : ((ofInt x).val : ℤ) = x := by
  simp only [ofInt]
  omega

@[simp] theorem ofInt_val (a : GF) : ofInt a.val = a := GF.ext (by have := a.lt; simp only [ofInt]; omega)

theorem ofInt_injOn {x y : ℤ} (hx0 : 0 ≤ x) (hx : x < 256) (hy0 : 0 ≤ y) (hy : y < 256)
    (h : ofInt x = ofInt y) : x = y := by
  rw [← val_ofInt hx0 hx, ← val_ofInt hy0 hy, h]

@[simp] theorem toByte_ofByte (b : Byte) : toByte (ofByte b) = b := rfl

@[simp] theorem ofByte_toByte (a : GF) : ofByte (toByte a) = a := rfl

theorem ofByte_injective : Function.Injective ofByte := fun a b h => by
  rw [← toByte_ofByte a, h, toByte_ofByte]

theorem natCast_val_eq_zero {a : GF} : (a.val : ℤ) = 0 ↔ a = 0 := by
  rw [Int.natCast_eq_zero, eq_zero_iff]

end GF

/-- Python's `bytes(values)`: every value must be a byte. -/
def bytesOf (values : List ℤ) : Except PyError (List Byte) :=
  values.mapM fun v =>
    if h : 0 ≤ v ∧ v < 256 then .ok ⟨v.toNat, by omega⟩
    else .error (.valueError "bytes must be in range(0, 256)")

theorem mapM_eq_ok {α β ε : Type} {f : α → Except ε β} {g : α → β} :
    ∀ {l : List α}, (∀ a ∈ l, f a = .ok (g a)) → l.mapM f = .ok (l.map g)
  | [], _ => rfl
  | a :: l, h => by
    rw [List.mapM_cons, h a (List.mem_cons_self _ _), mapM_eq_ok fun b hb => h b (List.mem_cons_of_mem _ hb)]
    rfl

theorem bytesOf_val {α : Type} (f : α → GF) :
    ∀ l : List α, bytesOf (l.map fun a => ((f a).val : ℤ)) = .ok (l.map fun a => GF.toByte (f a))
  | [] => rfl
  | a :: l => by
    rw [bytesOf, List.map_cons, List.mapM_cons, dif_pos ⟨by omega, by have := (f a).lt; omega⟩,
      ← bytesOf, bytesOf_val f l]
    rfl

/-- Python's `xs[i]` on a list of ints: a negative index counts from the end. -/
def getItem (xs : List ℕ) (i : ℤ) : Except PyError ℤ :=
  let j := if i < 0 then i + xs.length else i
  if 0 ≤ j then
    match xs[j.toNat]? with
    | some v => .ok v
    | none => .error .indexError
  else .error .indexError

namespace GF256

/-- `GF256.add`: `a ^ b` on Python ints. -/
def add (a b : ℤ) : ℤ := Int.xor a b

/-- `GF256.subtract`: the same `a ^ b`. -/
def subtract (a b : ℤ) : ℤ := Int.xor a b

def multiply (a b : ℤ) : Except PyError ℤ :=
  if a = 0 ∨ b = 0 then pure 0
  else do
    let la ← getItem logTable a
    let lb ← getItem logTable b
    getItem expTable (la + lb)

def divide (a b : ℤ) : Except PyError ℤ :=
  if b = 0 then throw (.zeroDivisionError "Division by zero in GF(2^8)")
  else if a = 0 then pure 0
  else do
    let la ← getItem logTable a
    let lb ← getItem logTable b
    getItem expTable (la - lb + 255)

def power (a exp : ℤ) : Except PyError ℤ :=
  if exp = 0 then pure 1
  else if a = 0 then pure 0
  else do
    let la ← getItem logTable a
    getItem expTable ((la * exp) % 255)

def inverse (a : ℤ) : Except PyError ℤ :=
  if a = 0 then throw (.zeroDivisionError "Zero has no inverse in GF(2^8)")
  else do
    let la ← getItem logTable a
    getItem expTable (255 - la)

end GF256

theorem ok_bind {α β : Type} (a : α) (f : α → Except PyError β) : (Except.ok a >>= f) = f a := rfl

theorem isOk_iff {α : Type} (x : Except PyError α) : x.isOk = true ↔ ∃ a, x = .ok a := by
  cases x <;> simp [Except.isOk, Except.toBool]

theorem map_eq_ok {α β : Type} {f : α → β} {x : Except PyError α} {b : β} (h : f <$> x = .ok b) :
    ∃ a, x = .ok a ∧ b = f a := by
  cases x with
  | error e => exact nomatch h
  | ok a => exact ⟨a, rfl, (Except.ok.inj h).symm⟩

theorem map_eq_error {α β : Type} {f : α → β} {x : Except PyError α} {e : PyError}
    (h : f <$> x = .error e) : x = .error e := by
  cases x with
  | error e' => rw [show e' = e from Except.error.inj h]
  | ok a => exact nomatch h

theorem bind_eq_ok {α β : Type} {x : Except PyError α} {f : α → Except PyError β} {b : β}
    (h : (x >>= f) = .ok b) : ∃ a, x = .ok a ∧ f a = .ok b := by
  cases x with
  | error e => exact nomatch h
  | ok a => exact ⟨a, rfl, h⟩

theorem reraise_eq_ok {α : Type} {err : String → PyError} {context : String}
    {x : Except PyError α} {a : α} (h : reraise err context x = .ok a) : x = .ok a := by
  cases x with
  | error e => exact nomatch h
  | ok a => exact h

theorem getItem_natCast (xs : List ℕ) (i : ℕ) : getItem xs i = match xs[i]? with
    | some v => .ok v
    | none => .error .indexError := by
  have h : ¬((i : ℤ) < 0) := Int.not_lt.mpr (Int.natCast_nonneg i)
  simp only [getItem, h, if_false, Int.natCast_nonneg, if_true]
  rfl

theorem getItem_logTable {a : GF} (ha : a ≠ 0) : getItem logTable a.val = .ok (dlog a.val) := by
  rw [getItem_natCast, logTable_eq_dlog ((GF.eq_zero_iff a).not.mp ha) a.lt]

theorem getItem_expTable {i : ℕ} (hi : i < 512) : getItem expTable i = .ok (genPow i) := by
  rw [getItem_natCast, expTable_getElem? hi]

namespace GF256

theorem add_val (a b : GF) : add a.val b.val = (a + b).val := rfl

theorem subtract_val (a b : GF) : subtract a.val b.val = (a - b).val := rfl

theorem multiply_val (a b : GF) : multiply a.val b.val = .ok (a * b).val := by
  have hzero : ((a.val : ℤ) = 0 ∨ (b.val : ℤ) = 0) ↔ (a = 0 ∨ b = 0) := by
    rw [GF.natCast_val_eq_zero, GF.natCast_val_eq_zero]
  rw [multiply, GF.mul_def]
  by_cases h : a = 0 ∨ b = 0
  · rw [if_pos (hzero.mpr h), if_pos h]
    rfl
  · obtain ⟨ha, hb⟩ := not_or.mp h
    have hlt := Nat.add_lt_add (GF.dlog_val_lt ha) (GF.dlog_val_lt hb)
    rw [if_neg (mt hzero.mp h), if_neg h, getItem_logTable ha, getItem_logTable hb, ok_bind, ok_bind,
      ← Nat.cast_add, getItem_expTable (by omega)]

theorem divide_val (a : GF) {b : GF} (hb : b ≠ 0) : divide a.val b.val = .ok (a / b).val := by
  rw [divide, if_neg (mt GF.natCast_val_eq_zero.mp hb)]
  by_cases ha : a = 0
  · rw [if_pos (GF.natCast_val_eq_zero.mpr ha), ha, zero_div]
    rfl
  · have hla := GF.dlog_val_lt ha
    have hlb := GF.dlog_val_lt hb
    rw [if_neg (mt GF.natCast_val_eq_zero.mp ha), getItem_logTable ha, getItem_logTable hb, ok_bind,
      ok_bind, show (dlog a.val : ℤ) - dlog b.val + 255 = ((dlog a.val + 255 - dlog b.val : ℕ) : ℤ) by omega,
      getItem_expTable (by omega), GF.div_def, GF.inv_def, if_neg hb, GF.mul_def,
      if_neg (not_or.mpr ⟨ha, GF.mk_genPow_ne_zero _⟩)]
    dsimp only
    rw [dlog_genPow_mod, ← genPow_mod, ← genPow_mod (dlog a.val + _)]
    congr 3
    omega

theorem inverse_val {a : GF} (ha : a ≠ 0) : inverse a.val = .ok a⁻¹.val := by
  have hla := GF.dlog_val_lt ha
  rw [inverse, if_neg (mt GF.natCast_val_eq_zero.mp ha), getItem_logTable ha, ok_bind,
    show (255 : ℤ) - dlog a.val = ((255 - dlog a.val : ℕ) : ℤ) by omega, getItem_expTable (by omega),
    GF.inv_def, if_neg ha]

theorem power_val (a : GF) (e : ℕ) : power a.val e = .ok (a ^ e).val := by
  rcases Nat.eq_zero_or_pos e with rfl | he
  · rfl
  by_cases ha : a = 0
  · rw [power, if_neg (by omega), if_pos (GF.natCast_val_eq_zero.mpr ha), ha, zero_pow he.ne']
    rfl
  · have hla := GF.dlog_val_lt ha
    rw [power, if_neg (by omega), if_neg (mt GF.natCast_val_eq_zero.mp ha), getItem_logTable ha,
      ok_bind, show (dlog a.val : ℤ) * e % 255 = ((dlog a.val * e % 255 : ℕ) : ℤ) by norm_cast,
      getItem_expTable (by omega), GF.val_pow_of_ne_zero ha, genPow_mod]

/-- Table-based `power` is repeated `multiply`: `power(a, 0) = 1` and
`power(a, e + 1) = multiply(a, power(a, e))` for every byte `a` and every exponent `e`. -/
theorem power_succ_eq_multiply {a : ℤ} (h0 : 0 ≤ a) (h : a ≤ 255) (e : ℕ) :
    power a 0 = .ok 1 ∧ power a (e + 1 : ℕ) = power a e >>= multiply a := by
  refine ⟨rfl, ?_⟩
  obtain ⟨g, rfl⟩ : ∃ g : GF, (g.val : ℤ) = a := ⟨GF.ofInt a, GF.val_ofInt h0 (by omega)⟩
  rw [power_val, power_val, ok_bind, multiply_val, pow_succ']

theorem power_succ_eq_multiply_three :
    (0 : ℤ) ≤ 3 ∧ (3 : ℤ) ≤ 255 ∧ power 3 0 = .ok 1 ∧ power 3 (2 + 1 : ℕ) = power 3 (2 : ℕ) >>= multiply 3 :=
  ⟨by decide, by decide, power_succ_eq_multiply (by decide) (by decide) 2⟩

end GF256

end CitrateCrypto.FieldEngine
