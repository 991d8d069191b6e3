import CitrateCrypto.FieldEngine.Ops

namespace CitrateCrypto.Wire

open FieldEngine

/-- `Py_hexdigits[n]`: the lower-case digit `bytes.hex()` writes for `n < 16`. -/
def hexDigit (n : ℕ) : Char := Char.ofNat (if n < 10 then 48 + n else 87 + n)

/-- The two digits `bytes.hex()` writes for one byte, high nibble first. -/
def byteHex (b : Byte) : List Char := [hexDigit (b.val / 16), hexDigit (b.val % 16)]

/-- The characters of `bytes.hex()`. -/
def hexChars (bs : List Byte) : List Char := bs.flatMap byteHex

def hex (bs : List Byte) : String := ⟨hexChars bs⟩

/-- `Py_ISSPACE`: space, tab, newline, vertical tab, form feed and carriage return. -/
def isSpace (c : Char) : Bool :=
  c = ' ' || c = '\t' || c = '\n' || c = '\x0b' || c = '\x0c' || c = '\r'

/-- `_PyLong_DigitValue`: the value of an ASCII digit or letter in base 36, and `37` for every
other character. -/
def digitValue (c : Char) : ℕ :=
  if 48 ≤ c.toNat ∧ c.toNat ≤ 57 then c.toNat - 48
  else if 97 ≤ c.toNat ∧ c.toNat ≤ 122 then c.toNat - 87
  else if 65 ≤ c.toNat ∧ c.toNat ≤ 90 then c.toNat - 55
  else 37

/-- The `ValueError` of `bytes.fromhex`, at the index of the character it could not use. -/
def fromhexError (invalidChar : ℕ) : PyError :=
  .valueError s!"non-hexadecimal number found in fromhex() arg at position {invalidChar}"

/-- The loop of `_PyBytes_FromHex` over an ASCII string, from index `pos`: `top` is the digit
value of `c` and `bot` that of `d`. -/
def fromhexLoop : List Char → ℕ → Except PyError (List Byte)
  | [], _ => .ok []
  | c :: str, pos =>
    if isSpace c then fromhexLoop str (pos + 1)
    else if 16 ≤ digitValue c then .error (fromhexError pos)
    else match str with
      | [] => .error (fromhexError (pos + 1))
      | d :: str =>
        if 16 ≤ digitValue d then .error (fromhexError (pos + 1))
        else ((((digitValue c <<< 4) + digitValue d : ℕ) : Byte) :: ·) <$> fromhexLoop str (pos + 2)

def fromhex (string : String) : Except PyError (List Byte) :=
  let str := string.toList
  if str.any (128 ≤ ·.toNat) then .error (fromhexError (str.findIdx (128 ≤ ·.toNat)))
  else fromhexLoop str 0

theorem digitValue_hexDigit : ∀ n < 16, digitValue (hexDigit n) = n := by decide

theorem isSpace_hexDigit : ∀ n < 16, isSpace (hexDigit n) = false := by decide

theorem hexDigit_toNat_lt : ∀ n < 16, (hexDigit n).toNat < 128 := by decide

theorem toLower_hexDigit : ∀ n < 16, (hexDigit n).toLower = hexDigit n := by decide

theorem digitValue_of_isSpace {c : Char} (h : isSpace c = true) : digitValue c = 37 := by
  simp only [isSpace, Bool.or_eq_true, decide_eq_true_eq] at h
  rcases h with ((((rfl | rfl) | rfl) | rfl) | rfl) | rfl <;> rfl

theorem digitValue_of_not_ascii {c : Char} (h : 128 ≤ c.toNat) : digitValue c = 37 := by
  unfold digitValue
  split_ifs <;> omega

theorem hexDigit_digitValue {c : Char} (h : digitValue c < 16) :
    hexDigit (digitValue c) = c.toLower := by
  have hc := Char.ofNat_toNat c
  unfold digitValue at h ⊢
  simp only [hexDigit, Char.toLower, ge_iff_le]
  split_ifs at h ⊢ <;> first
    | exact congrArg Char.ofNat (by omega)
    | exact (congrArg Char.ofNat (by omega)).trans hc

theorem val_ofDigits {top bot : ℕ} (htop : top < 16) (hbot : bot < 16) :
    ((((top <<< 4) + bot : ℕ) : Byte)).val = 16 * top + bot := by
  rw [Fin.val_natCast, Nat.shiftLeft_eq]
  omega

theorem ofDigits_byteHex (b : Byte) : ((((b.val / 16) <<< 4) + b.val % 16 : ℕ) : Byte) = b :=
  Fin.ext (by rw [val_ofDigits (by omega) (by omega)]; omega)

theorem fromhexLoop_cons_cons {c d : Char} (str : List Char) (pos : ℕ) (hc : isSpace c = false)
    (htop : digitValue c < 16) (hbot : digitValue d < 16) :
    fromhexLoop (c :: d :: str) pos =
      ((((digitValue c <<< 4) + digitValue d : ℕ) : Byte) :: ·) <$> fromhexLoop str (pos + 2) := by
  rw [fromhexLoop, if_neg (by simp [hc]), if_neg (by omega)]
  exact if_neg (by omega)

theorem fromhexLoop_hexChars (bs : List Byte) (pos : ℕ) : fromhexLoop (hexChars bs) pos = .ok bs := by
  induction bs generalizing pos with
  | nil => rfl
  | cons b bs ih =>
    have hhi : b.val / 16 < 16 := by omega
    have hlo : b.val % 16 < 16 := by omega
    rw [hexChars, List.flatMap_cons, byteHex, List.cons_append, List.cons_append, List.nil_append,
      fromhexLoop_cons_cons _ _ (isSpace_hexDigit _ hhi) (by rwa [digitValue_hexDigit _ hhi])
        (by rwa [digitValue_hexDigit _ hlo]), digitValue_hexDigit _ hhi, digitValue_hexDigit _ hlo,
      ofDigits_byteHex, ← hexChars, ih]
    rfl

theorem fromhex_hex (bs : List Byte) : fromhex (hex bs) = .ok bs := by
  have hascii : (hexChars bs).any (128 ≤ ·.toNat) = false := by
    simp only [List.any_eq_false, hexChars, List.mem_flatMap, byteHex, decide_eq_true_eq,
      not_le]
    rintro c ⟨b, -, hc⟩
    rcases List.mem_pair.mp hc with rfl | rfl <;> exact hexDigit_toNat_lt _ (by omega)
  rw [fromhex, hex]
  simp only [String.toList, hascii, Bool.false_eq_true, if_false]
  exact fromhexLoop_hexChars bs 0

theorem hexChars_of_fromhexLoop : ∀ {str : List Char} {pos : ℕ} {bs : List Byte},
    fromhexLoop str pos = .ok bs → hexChars bs = (str.filter (!isSpace ·)).map Char.toLower
  | [], _, bs, h => by rw [← Except.ok.inj h]; rfl
  | c :: str, pos, bs, h => by
    unfold fromhexLoop at h
    split_ifs at h with hs htop
    · rw [List.filter_cons_of_neg (by simp [hs])]
      exact hexChars_of_fromhexLoop h
    · match str, h with
      | [], h => exact nomatch h
      | d :: str, h =>
        dsimp only at h
        split_ifs at h with hbot
        obtain ⟨bs, hrest, rfl⟩ := map_eq_ok h
        have hd : isSpace d = false := by
          by_contra hd
          rw [digitValue_of_isSpace (Bool.not_eq_false _ ▸ hd)] at hbot
          omega
        rw [List.filter_cons_of_pos (by simp [hs]), List.filter_cons_of_pos (by simp [hd]),
          List.map_cons, List.map_cons, ← hexChars_of_fromhexLoop hrest,
          ← hexDigit_digitValue (not_le.mp htop), ← hexDigit_digitValue (not_le.mp hbot)]
        simp only [hexChars, List.flatMap_cons, byteHex, List.cons_append, List.nil_append,
          val_ofDigits (not_le.mp htop) (not_le.mp hbot)]
        congr 3 <;> omega

theorem hexChars_of_fromhex {string : String} {bs : List Byte} (h : fromhex string = .ok bs) :
    hexChars bs = (string.toList.filter (!isSpace ·)).map Char.toLower := by
  dsimp only [fromhex] at h
  split_ifs at h
  exact hexChars_of_fromhexLoop h

/-- `bytes.fromhex` accepts a string only if, with its whitespace removed and its letters
lowered, it is the text `bytes.hex()` writes for the bytes returned. -/
theorem hex_of_fromhex {string : String} {bs : List Byte} (h : fromhex string = .ok bs) :
    hex bs = ⟨(string.toList.filter (!isSpace ·)).map Char.toLower⟩ := by
  rw [hex, hexChars_of_fromhex h]

/-- Whitespace before a pair and upper-case digits are read, and written back as `hex()` does. -/
theorem hex_of_fromhex_spaced :
    fromhex " 0A ff" = .ok [10, 255] ∧
      hex [10, 255] = ⟨(" 0A ff".toList.filter (!isSpace ·)).map Char.toLower⟩ :=
  have h : fromhex " 0A ff" = .ok [10, 255] := rfl
  ⟨h, hex_of_fromhex h⟩

theorem fromhexLoop_error : ∀ {str : List Char} {pos : ℕ} {e : PyError},
    fromhexLoop str pos = .error e →
      ∃ i ≤ str.length, e = fromhexError (pos + i) ∧ ∀ c ∈ str[i]?, 16 ≤ digitValue c
  | [], _, _, h => nomatch h
  | c :: str, pos, e, h => by
    unfold fromhexLoop at h
    split_ifs at h with hs htop
    · obtain ⟨i, hi, rfl, hbad⟩ := fromhexLoop_error h
      exact ⟨i + 1, by simp [hi], congrArg fromhexError (by omega), by simpa using hbad⟩
    · exact ⟨0, by simp, (Except.error.inj h).symm, by simpa using htop⟩
    · match str, h with
      | [], h => exact ⟨1, by simp, (Except.error.inj h).symm, by simp⟩
      | d :: str, h =>
        dsimp only at h
        split_ifs at h with hbot
        · exact ⟨1, by simp, (Except.error.inj h).symm, by simpa using hbot⟩
        · obtain ⟨i, hi, rfl, hbad⟩ := fromhexLoop_error (map_eq_error h)
          exact ⟨i + 2, by simp [hi], congrArg fromhexError (by omega), by simpa using hbad⟩

/-- Every `ValueError` of `bytes.fromhex` names an index of the string that holds no hex digit,
or the end of the string, which a pair left open reaches. -/
theorem fromhex_error {string : String} {e : PyError} (h : fromhex string = .error e) :
    ∃ i ≤ string.length, e = fromhexError i ∧ ∀ c ∈ string.toList[i]?, 16 ≤ digitValue c := by
  dsimp only [fromhex] at h
  split_ifs at h with hascii
  · refine ⟨_, List.findIdx_le_length _, (Except.error.inj h).symm, fun c hc => ?_⟩
    have hc := List.findIdx_of_getElem?_eq_some (Option.mem_def.mp hc)
    rw [digitValue_of_not_ascii (of_decide_eq_true hc)]
    omega
  · simpa using fromhexLoop_error h

/-- Whitespace is skipped before a pair, never inside one: in `"0 a"` the space is read as the
second digit. -/
theorem fromhex_error_space_in_pair :
    fromhex "0 a" = .error (fromhexError 1) ∧
      ∃ i ≤ "0 a".length, fromhexError 1 = fromhexError i ∧
        ∀ c ∈ "0 a".toList[i]?, 16 ≤ digitValue c :=
  have h : fromhex "0 a" = .error (fromhexError 1) := rfl
  ⟨h, fromhex_error h⟩

end CitrateCrypto.Wire
