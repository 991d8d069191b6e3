import CitrateCrypto.Wire.Hex

namespace CitrateCrypto.Wire

open FieldEngine

abbrev PyStr := List ℕ

def isSurrogate (ch : ℕ) : Bool := decide (0xD800 ≤ ch ∧ ch ≤ 0xDFFF)

/-- A Unicode scalar value: a code point below `0x110000` that is no surrogate. -/
def IsScalar (ch : ℕ) : Prop := ch < 0x110000 ∧ isSurrogate ch = false

instance (ch : ℕ) : Decidable (IsScalar ch) := inferInstanceAs (Decidable (_ ∧ _))

/-- The bytes `utf8_encoder` writes for one code point that is no surrogate. -/
def encodeChar (ch : ℕ) : List ℕ :=
  if ch < 0x80 then [ch]
  else if ch < 0x800 then [0xC0 ||| ch >>> 6, 0x80 ||| ch &&& 0x3F]
  else if ch < 0x10000 then [0xE0 ||| ch >>> 12, 0x80 ||| ch >>> 6 &&& 0x3F, 0x80 ||| ch &&& 0x3F]
  else
    [0xF0 ||| ch >>> 18, 0x80 ||| ch >>> 12 &&& 0x3F, 0x80 ||| ch >>> 6 &&& 0x3F,
      0x80 ||| ch &&& 0x3F]

/-- `str()` of the `UnicodeEncodeError` for a run of `runLength` surrogates at index `start`, the
first of them `ch`. -/
def encodeError (start ch runLength : ℕ) : PyError :=
  if runLength = 1 then
    let code := String.mk
      [hexDigit (ch / 4096 % 16), hexDigit (ch / 256 % 16), hexDigit (ch / 16 % 16), hexDigit (ch % 16)]
    .valueError s!"'utf-8' codec can't encode character '\\u{code}' in position {start}: surrogates not allowed"
  else
    let last := start + runLength - 1
    .valueError s!"'utf-8' codec can't encode characters in position {start}-{last}: surrogates not allowed"

/-- The loop of `unicode_encode_utf8` with the strict error handler, from index `i`. -/
def encodeLoop : PyStr → ℕ → Except PyError (List ℕ)
  | [], _ => .ok []
  | ch :: s, i =>
    if isSurrogate ch then .error (encodeError i ch ((ch :: s).takeWhile isSurrogate).length)
    else (encodeChar ch ++ ·) <$> encodeLoop s (i + 1)

def encodeUtf8 (s : PyStr) : Except PyError (List Byte) :=
  (·.map fun b : ℕ => (b : Byte)) <$> encodeLoop s 0

def isContinuationByte (ch : ℕ) : Bool := decide (0x80 ≤ ch ∧ ch < 0xC0)

/-- What one round of `utf8_decode` ends with at a lead byte: a code point and the number of
bytes it took, or the code its caller switches on: end of data (`0`), an invalid start byte
(`1`), or an invalid continuation byte after `k` bytes that were good (`k + 1`). -/
inductive Utf8Step where
  | char (ch width : ℕ)
  | endOfData
  | invalidStart
  | invalidContinuation (k : ℕ)
deriving DecidableEq, Repr

/-- The branch of `utf8_decode` for a lead byte in `[0xC2, 0xE0)`: `\xC2\x80-\xDF\xBF`. -/
def utf8Step2 (ch : ℕ) : List ℕ → Utf8Step
  | [] => .endOfData
  | ch2 :: _ =>
    if !isContinuationByte ch2 then .invalidContinuation 1
    else .char ((ch <<< 6) + ch2 - ((0xC0 <<< 6) + 0x80)) 2

/-- The branch of `utf8_decode` for a lead byte in `[0xE0, 0xF0)`: `\xE0\xA0\x80-\xEF\xBF\xBF`,
without the surrogates `\xED\xA0\x80-\xED\xBF\xBF`. -/
def utf8Step3 (ch : ℕ) : List ℕ → Utf8Step
  | [] => .endOfData
  | [ch2] =>
    if !isContinuationByte ch2 || (if ch2 < 0xA0 then ch == 0xE0 else ch == 0xED) then
      .invalidContinuation 1
    else .endOfData
  | ch2 :: ch3 :: _ =>
    if !isContinuationByte ch2 then .invalidContinuation 1
    else if ch == 0xE0 && ch2 < 0xA0 then .invalidContinuation 1
    else if ch == 0xED && ch2 ≥ 0xA0 then .invalidContinuation 1
    else if !isContinuationByte ch3 then .invalidContinuation 2
    else .char ((ch <<< 12) + (ch2 <<< 6) + ch3 - ((0xE0 <<< 12) + (0x80 <<< 6) + 0x80)) 3

/-- The branch of `utf8_decode` for a lead byte in `[0xF0, 0xF5)`:
`\xF0\x90\x80\x80-\xF4\x8F\xBF\xBF`. -/
def utf8Step4 (ch : ℕ) : List ℕ → Utf8Step
  | [] => .endOfData
  | [ch2] =>
    if !isContinuationByte ch2 || (if ch2 < 0x90 then ch == 0xF0 else ch == 0xF4) then
      .invalidContinuation 1
    else .endOfData
  | [ch2, ch3] =>
    if !isContinuationByte ch2 || (if ch2 < 0x90 then ch == 0xF0 else ch == 0xF4) then
      .invalidContinuation 1
    else if !isContinuationByte ch3 then .invalidContinuation 2
    else .endOfData
  | ch2 :: ch3 :: ch4 :: _ =>
    if !isContinuationByte ch2 then .invalidContinuation 1
    else if ch == 0xF0 && ch2 < 0x90 then .invalidContinuation 1
    else if ch == 0xF4 && ch2 ≥ 0x90 then .invalidContinuation 1
    else if !isContinuationByte ch3 then .invalidContinuation 2
    else if !isContinuationByte ch4 then .invalidContinuation 3
    else .char ((ch <<< 18) + (ch2 <<< 12) + (ch3 <<< 6) + ch4 -
      ((0xF0 <<< 18) + (0x80 <<< 12) + (0x80 <<< 6) + 0x80)) 4

/-- One round of `utf8_decode` at the lead byte `ch`, with `s` the bytes after it. -/
def utf8Step (ch : ℕ) (s : List ℕ) : Utf8Step :=
  if ch < 0x80 then .char ch 1
  else if ch < 0xE0 then
    if ch < 0xC2 then .invalidStart else utf8Step2 ch s
  else if ch < 0xF0 then utf8Step3 ch s
  else if ch < 0xF5 then utf8Step4 ch s
  else .invalidStart

theorem lor_c0 : ∀ x < 32, 0xC0 ||| x = 0xC0 + x := by decide

theorem lor_e0 : ∀ x < 16, 0xE0 ||| x = 0xE0 + x := by decide

theorem lor_f0 : ∀ x < 8, 0xF0 ||| x = 0xF0 + x := by decide

set_option maxRecDepth 2000 in
theorem lor_80 : ∀ x < 64, 0x80 ||| x = 0x80 + x := by decide

theorem continuation_eq (x : ℕ) : 0x80 ||| x &&& 0x3F = 0x80 + x % 64 := by
  rw [Nat.and_pow_two_sub_one_eq_mod x 6, lor_80 _ (Nat.mod_lt _ (by decide))]

theorem encodeChar_one {ch : ℕ} (h : ch < 0x80) : encodeChar ch = [ch] := by
  rw [encodeChar, if_pos h]

theorem encodeChar_two {ch : ℕ} (h1 : 0x80 ≤ ch) (h2 : ch < 0x800) :
    encodeChar ch = [0xC0 + ch / 64, 0x80 + ch % 64] := by
  rw [encodeChar, if_neg (by omega), if_pos h2, continuation_eq, Nat.shiftRight_eq_div_pow,
    lor_c0 _ (by omega)]

theorem encodeChar_three {ch : ℕ} (h1 : 0x800 ≤ ch) (h2 : ch < 0x10000) :
    encodeChar ch = [0xE0 + ch / 4096, 0x80 + ch / 64 % 64, 0x80 + ch % 64] := by
  rw [encodeChar, if_neg (by omega), if_neg (by omega), if_pos h2, continuation_eq, continuation_eq,
    Nat.shiftRight_eq_div_pow, Nat.shiftRight_eq_div_pow, lor_e0 _ (by omega)]

theorem encodeChar_four {ch : ℕ} (h1 : 0x10000 ≤ ch) (h2 : ch < 0x110000) :
    encodeChar ch =
      [0xF0 + ch / 262144, 0x80 + ch / 4096 % 64, 0x80 + ch / 64 % 64, 0x80 + ch % 64] := by
  rw [encodeChar, if_neg (by omega), if_neg (by omega), if_neg (by omega), continuation_eq,
    continuation_eq, continuation_eq, Nat.shiftRight_eq_div_pow, Nat.shiftRight_eq_div_pow,
    Nat.shiftRight_eq_div_pow, lor_f0 _ (by omega)]

theorem isContinuationByte_iff {ch : ℕ} :
    isContinuationByte ch = true ↔ 0x80 ≤ ch ∧ ch < 0xC0 := by
  simp [isContinuationByte]

/-- A round that returns a code point has read its encoding. -/
def ReadsChar (ch : ℕ) (s : List ℕ) (c w : ℕ) : Prop :=
  IsScalar c ∧ ∃ rest, ch :: s = encodeChar c ++ rest ∧ w = (encodeChar c).length

theorem isSurrogate_eq_false {ch : ℕ} (h : ch < 0xD800 ∨ 0xDFFF < ch) : isSurrogate ch = false :=
  decide_eq_false (by omega)

theorem utf8Step2_char {ch c w : ℕ} {s : List ℕ} (hlo : 0xC2 ≤ ch) (hhi : ch < 0xE0)
    (h : utf8Step2 ch s = .char c w) : ReadsChar ch s c w := by
  match s, h with
  | ch2 :: rest, h =>
    rw [utf8Step2] at h
    split_ifs at h with hc
    obtain ⟨rfl, rfl⟩ := Utf8Step.char.inj h
    have hc : 0x80 ≤ ch2 ∧ ch2 < 0xC0 := isContinuationByte_iff.mp (by simpa using hc)
    have hv : ch <<< 6 + ch2 - (0xC0 <<< 6 + 0x80) = (ch - 0xC0) * 64 + (ch2 - 0x80) := by
      simp only [Nat.shiftLeft_eq]
      omega
    rw [ReadsChar, hv, encodeChar_two (by omega) (by omega)]
    refine ⟨⟨by omega, isSurrogate_eq_false (by omega)⟩, rest, ?_, rfl⟩
    simp only [List.cons_append, List.nil_append, List.cons.injEq, and_true]
    omega

theorem utf8Step3_char {ch c w : ℕ} {s : List ℕ} (hlo : 0xE0 ≤ ch) (hhi : ch < 0xF0)
    (h : utf8Step3 ch s = .char c w) : ReadsChar ch s c w := by
  match s, h with
  | [ch2], h =>
    rw [utf8Step3] at h
    split_ifs at h
  | ch2 :: ch3 :: rest, h =>
    rw [utf8Step3] at h
    split_ifs at h with hc2 hlow hsur hc3
    obtain ⟨rfl, rfl⟩ := Utf8Step.char.inj h
    have hc2 : 0x80 ≤ ch2 ∧ ch2 < 0xC0 := isContinuationByte_iff.mp (by simpa using hc2)
    have hc3 : 0x80 ≤ ch3 ∧ ch3 < 0xC0 := isContinuationByte_iff.mp (by simpa using hc3)
    -- no overlong form, no surrogate
    have hlow : ch = 0xE0 → 0xA0 ≤ ch2 := by simpa using hlow
    have hsur : ch = 0xED → ch2 < 0xA0 := by simpa using hsur
    have hv : ch <<< 12 + ch2 <<< 6 + ch3 - (0xE0 <<< 12 + 0x80 <<< 6 + 0x80) =
        (ch - 0xE0) * 4096 + (ch2 - 0x80) * 64 + (ch3 - 0x80) := by
      simp only [Nat.shiftLeft_eq]
      omega
    rw [ReadsChar, hv, encodeChar_three (by omega) (by omega)]
    refine ⟨⟨by omega, isSurrogate_eq_false (by omega)⟩, rest, ?_, rfl⟩
    simp only [List.cons_append, List.nil_append, List.cons.injEq, and_true]
    omega

theorem utf8Step4_char {ch c w : ℕ} {s : List ℕ} (hlo : 0xF0 ≤ ch) (hhi : ch < 0xF5)
    (h : utf8Step4 ch s = .char c w) : ReadsChar ch s c w := by
  match s, h with
  | [ch2], h =>
    rw [utf8Step4] at h
    split_ifs at h
  | [ch2, ch3], h =>
    rw [utf8Step4] at h
    split_ifs at h
  | ch2 :: ch3 :: ch4 :: rest, h =>
    rw [utf8Step4] at h
    split_ifs at h with hc2 hlow hhigh hc3 hc4
    obtain ⟨rfl, rfl⟩ := Utf8Step.char.inj h
    have hc2 : 0x80 ≤ ch2 ∧ ch2 < 0xC0 := isContinuationByte_iff.mp (by simpa using hc2)
    have hc3 : 0x80 ≤ ch3 ∧ ch3 < 0xC0 := isContinuationByte_iff.mp (by simpa using hc3)
    have hc4 : 0x80 ≤ ch4 ∧ ch4 < 0xC0 := isContinuationByte_iff.mp (by simpa using hc4)
    -- no overlong form, nothing past `U+10FFFF`
    have hlow : ch = 0xF0 → 0x90 ≤ ch2 := by simpa using hlow
    have hhigh : ch = 0xF4 → ch2 < 0x90 := by simpa using hhigh
    have hv : ch <<< 18 + ch2 <<< 12 + ch3 <<< 6 + ch4 -
        (0xF0 <<< 18 + 0x80 <<< 12 + 0x80 <<< 6 + 0x80) =
        (ch - 0xF0) * 262144 + (ch2 - 0x80) * 4096 + (ch3 - 0x80) * 64 + (ch4 - 0x80) := by
      simp only [Nat.shiftLeft_eq]
      omega
    rw [ReadsChar, hv, encodeChar_four (by omega) (by omega)]
    refine ⟨⟨by omega, isSurrogate_eq_false (by omega)⟩, rest, ?_, rfl⟩
    simp only [List.cons_append, List.nil_append, List.cons.injEq, and_true]
    omega

theorem utf8Step_char {ch c w : ℕ} {s : List ℕ} (h : utf8Step ch s = .char c w) :
    ReadsChar ch s c w := by
  rw [utf8Step] at h
  split_ifs at h with h1 h2 h3 h4 h5
  · obtain ⟨rfl, rfl⟩ := Utf8Step.char.inj h
    rw [ReadsChar, encodeChar_one h1]
    exact ⟨⟨by omega, isSurrogate_eq_false (by omega)⟩, s, rfl, rfl⟩
  · exact utf8Step2_char (by omega) h2 h
  · exact utf8Step3_char (by omega) h4 h
  · exact utf8Step4_char (by omega) h5 h

theorem utf8Step_endOfData {ch : ℕ} {s : List ℕ} (h : utf8Step ch s = .endOfData) :
    s.length ≤ 2 := by
  rcases s with _ | ⟨a, _ | ⟨b, _ | ⟨c, s⟩⟩⟩
  iterate 3 simp only [List.length_cons, List.length_nil]; omega
  rw [utf8Step] at h
  split_ifs at h <;> simp only [utf8Step2, utf8Step3, utf8Step4] at h <;> split_ifs at h

theorem utf8Step_invalidContinuation {ch k : ℕ} {s : List ℕ}
    (h : utf8Step ch s = .invalidContinuation k) : 1 ≤ k ∧ k ≤ 3 ∧ k ≤ s.length := by
  rw [utf8Step] at h
  split_ifs at h <;> rcases s with _ | ⟨a, _ | ⟨b, _ | ⟨c, s⟩⟩⟩ <;>
    simp only [utf8Step2, utf8Step3, utf8Step4] at h <;> (try split_ifs at h) <;> cases h <;>
    simp only [List.length_cons, List.length_nil] <;> omega

theorem encodeChar_ne_nil (ch : ℕ) : encodeChar ch ≠ [] := by
  unfold encodeChar
  split_ifs <;> simp

theorem ReadsChar.width {ch c w : ℕ} {s : List ℕ} (h : ReadsChar ch s c w) :
    0 < w ∧ w ≤ s.length + 1 := by
  obtain ⟨-, rest, hs, rfl⟩ := h
  have := congrArg List.length hs
  simp only [List.length_cons, List.length_append] at this
  exact ⟨List.length_pos.mpr (encodeChar_ne_nil c), by omega⟩

theorem not_isContinuationByte_eq {ch : ℕ} (h1 : 0x80 ≤ ch) (h2 : ch < 0xC0) :
    (!isContinuationByte ch) = false := by
  rw [isContinuationByte_iff.mpr ⟨h1, h2⟩]; rfl

theorem utf8Step_encodeChar {c : ℕ} (hc : IsScalar c) (rest : List ℕ) :
    ∃ ch tl, encodeChar c = ch :: tl ∧
      utf8Step ch (tl ++ rest) = .char c (encodeChar c).length := by
  obtain ⟨hmax, hsur⟩ := hc
  have hsur : 0xD800 ≤ c → 0xDFFF < c := by simpa [isSurrogate] using hsur
  by_cases h1 : c < 0x80
  · rw [encodeChar_one h1]
    exact ⟨c, [], rfl, by rw [utf8Step, if_pos h1]; rfl⟩
  by_cases h2 : c < 0x800
  · rw [encodeChar_two (by omega) h2]
    refine ⟨_, _, rfl, ?_⟩
    rw [utf8Step, if_neg (by omega), if_pos (by omega), if_neg (by omega), List.singleton_append,
      utf8Step2, not_isContinuationByte_eq (by omega) (by omega)]
    simp only [Bool.false_eq_true, if_false, List.length_cons, List.length_singleton,
      List.length_nil, Nat.shiftLeft_eq, Nat.reducePow, Utf8Step.char.injEq, and_true]
    omega
  by_cases h3 : c < 0x10000
  · rw [encodeChar_three (by omega) h3]
    refine ⟨_, _, rfl, ?_⟩
    rw [utf8Step, if_neg (by omega), if_neg (by omega), if_pos (by omega), List.cons_append,
      List.singleton_append, utf8Step3, not_isContinuationByte_eq (by omega) (by omega),
      not_isContinuationByte_eq (by omega) (by omega)]
    simp only [Bool.false_eq_true, if_false, Bool.and_eq_true, beq_iff_eq, decide_eq_true_eq,
      ge_iff_le, List.length_cons, List.length_singleton, List.length_nil, Nat.shiftLeft_eq,
      Nat.reducePow, Utf8Step.char.injEq, and_true]
    rw [if_neg (by omega), if_neg (by omega), Utf8Step.char.injEq]
    omega
  · rw [encodeChar_four (by omega) hmax]
    refine ⟨_, _, rfl, ?_⟩
    rw [utf8Step, if_neg (by omega), if_neg (by omega), if_neg (by omega), if_pos (by omega),
      List.cons_append, List.cons_append, List.singleton_append, utf8Step4,
      not_isContinuationByte_eq (by omega) (by omega), not_isContinuationByte_eq (by omega) (by omega),
      not_isContinuationByte_eq (by omega) (by omega)]
    simp only [Bool.false_eq_true, if_false, Bool.and_eq_true, beq_iff_eq, decide_eq_true_eq,
      ge_iff_le, List.length_cons, List.length_singleton, List.length_nil, Nat.shiftLeft_eq,
      Nat.reducePow, Utf8Step.char.injEq, and_true]
    rw [if_neg (by omega), if_neg (by omega), Utf8Step.char.injEq]
    omega

/-- `str()` of the `UnicodeDecodeError` for the bytes `[start, stop)`, the first of them `ch`. -/
def decodeError (ch start stop : ℕ) (reason : String) : PyError :=
  if stop = start + 1 then
    let byte := String.mk (byteHex ch)
    .valueError s!"'utf-8' codec can't decode byte 0x{byte} in position {start}: {reason}"
  else
    let last := stop - 1
    .valueError s!"'utf-8' codec can't decode bytes in position {start}-{last}: {reason}"

/-- The loop of `unicode_decode_utf8` with the strict error handler, from byte index `pos`. -/
def decodeLoop : List ℕ → ℕ → Except PyError PyStr
  | [], _ => .ok []
  | ch :: s, pos =>
    match h : utf8Step ch s with
    | .char c width =>
      have := (utf8Step_char h).width
      (c :: ·) <$> decodeLoop ((ch :: s).drop width) (pos + width)
    | .endOfData => .error (decodeError ch pos (pos + (ch :: s).length) "unexpected end of data")
    | .invalidStart => .error (decodeError ch pos (pos + 1) "invalid start byte")
    | .invalidContinuation k => .error (decodeError ch pos (pos + k) "invalid continuation byte")
termination_by s => s.length
decreasing_by simp only [List.length_drop, List.length_cons]; omega

def decodeUtf8 (data : List Byte) : Except PyError PyStr := decodeLoop (data.map (·.val)) 0

theorem decodeLoop_cons (ch : ℕ) (s : List ℕ) (pos : ℕ) :
    decodeLoop (ch :: s) pos = match utf8Step ch s with
      | .char c width => (c :: ·) <$> decodeLoop ((ch :: s).drop width) (pos + width)
      | .endOfData => .error (decodeError ch pos (pos + (ch :: s).length) "unexpected end of data")
      | .invalidStart => .error (decodeError ch pos (pos + 1) "invalid start byte")
      | .invalidContinuation k =>
        .error (decodeError ch pos (pos + k) "invalid continuation byte") := by
  rw [decodeLoop]
  split <;> next h => simp only [h]

theorem decodeLoop_flatMap_encodeChar : ∀ (s : PyStr), (∀ c ∈ s, IsScalar c) → ∀ pos,
    decodeLoop (s.flatMap encodeChar) pos = .ok s
  | [], _, pos => by rw [List.flatMap_nil, decodeLoop]
  | c :: s, hs, pos => by
    obtain ⟨ch, tl, henc, hstep⟩ :=
      utf8Step_encodeChar (hs c (List.mem_cons_self _ _)) (s.flatMap encodeChar)
    rw [List.flatMap_cons, henc, List.cons_append, decodeLoop_cons, hstep]
    dsimp only
    rw [← List.cons_append, ← henc, List.drop_left,
      decodeLoop_flatMap_encodeChar s (fun c hc => hs c (List.mem_cons_of_mem _ hc))]
    rfl

theorem flatMap_encodeChar_of_decodeLoop : ∀ {bs : List ℕ} {pos : ℕ} {s : PyStr},
    decodeLoop bs pos = .ok s → (∀ c ∈ s, IsScalar c) ∧ s.flatMap encodeChar = bs
  | [], pos, s, h => by
    rw [decodeLoop] at h
    cases h
    exact ⟨fun _ h => (nomatch h), rfl⟩
  | ch :: bs, pos, s, h => by
    rw [decodeLoop_cons] at h
    cases hstep : utf8Step ch bs with
    | char c w =>
      rw [hstep] at h
      obtain ⟨s', hrest, rfl⟩ := map_eq_ok h
      obtain ⟨hc, rest, hbs, rfl⟩ := utf8Step_char hstep
      have hlen := ((utf8Step_char hstep).width).1
      rw [hbs, List.drop_left] at hrest
      have := congrArg List.length hbs
      simp only [List.length_cons, List.length_append] at this
      obtain ⟨hs', hflat⟩ := flatMap_encodeChar_of_decodeLoop hrest
      refine ⟨fun c' hc' => ?_, by rw [List.flatMap_cons, hflat, hbs]⟩
      rcases List.mem_cons.mp hc' with rfl | hc'
      exacts [hc, hs' c' hc']
    | endOfData => rw [hstep] at h; cases h
    | invalidStart => rw [hstep] at h; cases h
    | invalidContinuation k => rw [hstep] at h; cases h
termination_by bs => bs.length
decreasing_by
  simp only [List.length_cons]
  have := congrArg List.length hbs
  simp only [List.length_cons, List.length_append] at this
  have := List.length_pos.mpr (encodeChar_ne_nil c)
  omega

theorem utf8Step_of_prefix {ch c : ℕ} {s : List ℕ} (hc : IsScalar c)
    (hp : encodeChar c <+: ch :: s) :
    utf8Step ch s = .char c (encodeChar c).length := by
  obtain ⟨rest, hrest⟩ := hp
  obtain ⟨ch', tl, henc, hstep⟩ := utf8Step_encodeChar hc rest
  rw [henc, List.cons_append] at hrest
  obtain ⟨rfl, rfl⟩ := List.cons.inj hrest
  exact hstep

theorem decodeLoop_error : ∀ {bs : List ℕ} {pos : ℕ} {e : PyError},
    decodeLoop bs pos = .error e →
    ∃ (pre : PyStr) (ch : ℕ) (rest : List ℕ), bs = pre.flatMap encodeChar ++ ch :: rest ∧
      (∀ c ∈ pre, IsScalar c) ∧ (∀ c, IsScalar c → ¬ encodeChar c <+: ch :: rest) ∧
      ∃ stop reason, pos + (pre.flatMap encodeChar).length < stop ∧
        stop ≤ pos + (pre.flatMap encodeChar).length + min 4 (rest.length + 1) ∧
        e = decodeError ch (pos + (pre.flatMap encodeChar).length) stop reason
  | [], pos, e, h => by rw [decodeLoop] at h; cases h
  | ch :: bs, pos, e, h => by
    rw [decodeLoop_cons] at h
    have here : ∀ {r : Utf8Step}, utf8Step ch bs = r → (∀ c w, r ≠ .char c w) →
        ∀ c, IsScalar c → ¬ encodeChar c <+: ch :: bs := fun hstep hr c hc hp =>
      hr _ _ (hstep ▸ utf8Step_of_prefix hc hp)
    cases hstep : utf8Step ch bs with
    | char c w =>
      rw [hstep] at h
      obtain ⟨hc, rest, hbs, rfl⟩ := utf8Step_char hstep
      have hrest := map_eq_error h
      rw [hbs, List.drop_left] at hrest
      obtain ⟨pre, ch', rest', rfl, hpre, hno, stop, reason, h1, h2, rfl⟩ :=
        decodeLoop_error hrest
      refine ⟨c :: pre, ch', rest', by rw [hbs, List.flatMap_cons, List.append_assoc],
        List.forall_mem_cons.mpr ⟨hc, hpre⟩, hno, stop, reason, ?_⟩
      rw [List.flatMap_cons, List.length_append, ← Nat.add_assoc]
      exact ⟨h1, h2, rfl⟩
    | endOfData =>
      rw [hstep] at h
      cases h
      have := utf8Step_endOfData hstep
      refine ⟨[], ch, bs, rfl, fun _ h => (nomatch h), here hstep fun _ _ h => (nomatch h),
        _, _, ?_, ?_, rfl⟩ <;>
        simp only [List.flatMap_nil, List.length_nil, List.length_cons] <;> omega
    | invalidStart =>
      rw [hstep] at h
      cases h
      refine ⟨[], ch, bs, rfl, fun _ h => (nomatch h), here hstep fun _ _ h => (nomatch h),
        _, _, ?_, ?_, rfl⟩ <;>
        simp only [List.flatMap_nil, List.length_nil] <;> omega
    | invalidContinuation k =>
      rw [hstep] at h
      cases h
      have := utf8Step_invalidContinuation hstep
      refine ⟨[], ch, bs, rfl, fun _ h => (nomatch h), here hstep fun _ _ h => (nomatch h),
        _, _, ?_, ?_, rfl⟩ <;>
        simp only [List.flatMap_nil, List.length_nil] <;> omega
termination_by bs => bs.length
decreasing_by
  simp only [List.length_cons]
  have := congrArg List.length hbs
  simp only [List.length_cons, List.length_append] at this
  have := List.length_pos.mpr (encodeChar_ne_nil c)
  omega

theorem encodeLoop_eq_ok : ∀ (s : PyStr), (∀ c ∈ s, isSurrogate c = false) → ∀ i,
    encodeLoop s i = .ok (s.flatMap encodeChar)
  | [], _, _ => rfl
  | ch :: s, hs, i => by
    rw [encodeLoop, if_neg (by rw [hs ch (List.mem_cons_self _ _)]; decide),
      encodeLoop_eq_ok s (fun c hc => hs c (List.mem_cons_of_mem _ hc)) (i + 1)]
    rfl

theorem encodeLoop_surrogate : ∀ (pre : PyStr) {ch : ℕ} (rest : PyStr) (i : ℕ),
    (∀ c ∈ pre, isSurrogate c = false) → isSurrogate ch = true →
    encodeLoop (pre ++ ch :: rest) i =
      .error (encodeError (i + pre.length) ch ((ch :: rest).takeWhile isSurrogate).length)
  | [], ch, rest, i, _, h => by rw [List.nil_append, encodeLoop, if_pos h]; rfl
  | c :: pre, ch, rest, i, hpre, h => by
    rw [List.cons_append, encodeLoop, if_neg (by rw [hpre c (List.mem_cons_self _ _)]; decide),
      encodeLoop_surrogate pre rest (i + 1) (fun c hc => hpre c (List.mem_cons_of_mem _ hc)) h,
      List.length_cons, ← Nat.add_assoc, Nat.add_right_comm]
    rfl

theorem encodeChar_lt {c : ℕ} (hc : c < 0x110000) : ∀ b ∈ encodeChar c, b < 256 := by
  intro b hb
  by_cases h1 : c < 0x80
  · rw [encodeChar_one h1, List.mem_singleton] at hb; omega
  by_cases h2 : c < 0x800
  · rw [encodeChar_two (by omega) h2] at hb
    simp only [List.mem_cons, List.not_mem_nil, or_false] at hb
    omega
  by_cases h3 : c < 0x10000
  · rw [encodeChar_three (by omega) h3] at hb
    simp only [List.mem_cons, List.not_mem_nil, or_false] at hb
    omega
  · rw [encodeChar_four (by omega) hc] at hb
    simp only [List.mem_cons, List.not_mem_nil, or_false] at hb
    omega

theorem encodeUtf8_eq_ok {s : PyStr} (hs : ∀ c ∈ s, isSurrogate c = false) :
    encodeUtf8 s = .ok ((s.flatMap encodeChar).map fun b : ℕ => (b : Byte)) := by
  rw [encodeUtf8, encodeLoop_eq_ok s hs]; rfl

/-- `str.encode('utf-8')` raises at the first surrogate, and names the run of surrogates that
starts there. -/
theorem encodeUtf8_surrogate (pre : PyStr) {ch : ℕ} (rest : PyStr)
    (hpre : ∀ c ∈ pre, isSurrogate c = false) (h : isSurrogate ch = true) :
    encodeUtf8 (pre ++ ch :: rest) =
      .error (encodeError pre.length ch ((ch :: rest).takeWhile isSurrogate).length) := by
  rw [encodeUtf8, encodeLoop_surrogate pre rest 0 hpre h, Nat.zero_add]; rfl

theorem encodeUtf8_surrogate_pair :
    (∀ c ∈ [0x41], isSurrogate c = false) ∧ isSurrogate 0xD800 = true ∧
      encodeUtf8 [0x41, 0xD800, 0xDC00, 0x42] = .error (encodeError 1 0xD800 2) :=
  ⟨by decide, rfl, encodeUtf8_surrogate [0x41] [0xDC00, 0x42] (by decide) rfl⟩

theorem map_val_map_natCast {bs : List ℕ} (h : ∀ b ∈ bs, b < 256) :
    ((bs.map fun b : ℕ => (b : Byte)).map (·.val)) = bs := by
  rw [List.map_map]
  conv_rhs => rw [← List.map_id bs]
  exact List.map_congr_left fun b hb => Nat.mod_eq_of_lt (h b hb)

theorem decodeUtf8_encodeChars {s : PyStr} (hs : ∀ c ∈ s, IsScalar c) :
    decodeUtf8 ((s.flatMap encodeChar).map fun b : ℕ => (b : Byte)) = .ok s := by
  rw [decodeUtf8, map_val_map_natCast fun b hb => ?_, decodeLoop_flatMap_encodeChar s hs]
  obtain ⟨c, hc, hb⟩ := List.mem_flatMap.mp hb
  exact encodeChar_lt (hs c hc).1 b hb

/-- Round trip: `s.encode('utf-8').decode('utf-8') == s` for every string of scalar values. -/
theorem decodeUtf8_encodeUtf8 (s : PyStr) (hs : ∀ c ∈ s, IsScalar c) :
    (encodeUtf8 s >>= decodeUtf8) = .ok s := by
  rw [encodeUtf8_eq_ok fun c hc => (hs c hc).2, ok_bind, decodeUtf8_encodeChars hs]

theorem decodeUtf8_encodeUtf8_two_scalars :
    (∀ c ∈ [0xE9, 0x1F600], IsScalar c) ∧ (encodeUtf8 [0xE9, 0x1F600] >>= decodeUtf8) = .ok [0xE9, 0x1F600] :=
  ⟨by decide, decodeUtf8_encodeUtf8 _ (by decide)⟩

theorem encodeUtf8_of_decodeUtf8 {data : List Byte} {s : PyStr} (h : decodeUtf8 data = .ok s) :
    (∀ c ∈ s, IsScalar c) ∧ encodeUtf8 s = .ok data := by
  obtain ⟨hs, hflat⟩ := flatMap_encodeChar_of_decodeLoop h
  refine ⟨hs, ?_⟩
  rw [encodeUtf8_eq_ok fun c hc => (hs c hc).2, hflat, List.map_map]
  exact congrArg Except.ok (List.map_id'' Fin.cast_val_eq_self _)

/-- `bytes.decode('utf-8')` accepts exactly the encodings of strings of scalar values, and
inverts `str.encode('utf-8')` on them: no overlong form, no surrogate and nothing past `U+10FFFF`
decodes. -/
theorem decodeUtf8_eq_ok_iff {data : List Byte} {s : PyStr} :
    decodeUtf8 data = .ok s ↔ (∀ c ∈ s, IsScalar c) ∧ encodeUtf8 s = .ok data := by
  refine ⟨encodeUtf8_of_decodeUtf8, fun ⟨hs, henc⟩ => ?_⟩
  rw [encodeUtf8_eq_ok fun c hc => (hs c hc).2] at henc
  rw [← Except.ok.inj henc, decodeUtf8_encodeChars hs]

/-- `bytes.decode('utf-8')` raises where the longest prefix of whole characters ends: no scalar
value's encoding starts there, and the error names the byte there and at most four bytes from
it, all inside the data. -/
theorem decodeUtf8_error {data : List Byte} {e : PyError} (h : decodeUtf8 data = .error e) :
    ∃ (pre : PyStr) (ch : ℕ) (rest : List ℕ), data.map (·.val) = pre.flatMap encodeChar ++ ch :: rest ∧
      (∀ c ∈ pre, IsScalar c) ∧ (∀ c, IsScalar c → ¬ encodeChar c <+: ch :: rest) ∧
      ∃ stop reason, (pre.flatMap encodeChar).length < stop ∧
        stop ≤ (pre.flatMap encodeChar).length + min 4 (rest.length + 1) ∧
        e = decodeError ch (pre.flatMap encodeChar).length stop reason := by
  obtain ⟨pre, ch, rest, hdata, hpre, hno, stop, reason, h1, h2, he⟩ := decodeLoop_error h
  simp only [Nat.zero_add] at h1 h2 he
  exact ⟨pre, ch, rest, hdata, hpre, hno, stop, reason, h1, h2, he⟩

theorem decodeUtf8_error_truncated :
    decodeUtf8 [0x41, 0xE2, 0x82] = .error (decodeError 0xE2 1 3 "unexpected end of data") ∧
      ∃ (pre : PyStr) (ch : ℕ) (rest : List ℕ),
      ([0x41, 0xE2, 0x82] : List Byte).map (·.val) = pre.flatMap encodeChar ++ ch :: rest ∧
      (∀ c ∈ pre, IsScalar c) ∧ (∀ c, IsScalar c → ¬ encodeChar c <+: ch :: rest) ∧
      ∃ stop reason, (pre.flatMap encodeChar).length < stop ∧
        stop ≤ (pre.flatMap encodeChar).length + min 4 (rest.length + 1) ∧
        decodeError 0xE2 1 3 "unexpected end of data" =
          decodeError ch (pre.flatMap encodeChar).length stop reason :=
  have h : decodeUtf8 [0x41, 0xE2, 0x82] =
      .error (decodeError 0xE2 1 3 "unexpected end of data") := by
    show decodeLoop [0x41, 0xE2, 0x82] 0 = _
    rw [decodeLoop_cons, show utf8Step 0x41 [0xE2, 0x82] = .char 0x41 1 from rfl]
    show (0x41 :: ·) <$> decodeLoop [0xE2, 0x82] 1 = _
    rw [decodeLoop_cons, show utf8Step 0xE2 [0x82] = .endOfData from rfl]
    rfl
  ⟨h, decodeUtf8_error h⟩

end CitrateCrypto.Wire
