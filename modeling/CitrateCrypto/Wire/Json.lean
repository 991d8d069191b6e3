import CitrateCrypto.Wire.Hex

namespace CitrateCrypto.Wire

open FieldEngine

/-- The Python values that the metadata dicts hold, as `json` writes and reads them. -/
inductive PyValue where
  | none
  | bool (b : Bool)
  | int (i : ℤ)
  | str (s : String)
  | list (xs : List PyValue)
  | dict (items : List (String × PyValue))

namespace PyValue

def typeName : PyValue → String
  | .none => "NoneType"
  | .bool _ => "bool"
  | .int _ => "int"
  | .str _ => "str"
  | .list _ => "list"
  | .dict _ => "dict"

/-- `v[key]` for a `str` key; the `TypeError` texts are those of CPython 3.11. -/
def getItem (v : PyValue) (key : String) : Except PyError PyValue :=
  match v with
  | .dict items =>
    match items.lookup key with
    | some value => .ok value
    | Option.none => .error (.keyError key)
  | .list _ => .error (.typeError "list indices must be integers or slices, not str")
  | .str _ => .error (.typeError "string indices must be integers, not 'str'")
  | v => .error (.typeError ("'" ++ v.typeName ++ "' object is not subscriptable"))

/-- `bytes.fromhex(v)`, which names `None` by its value and any other argument by its type. -/
def fromhex (v : PyValue) : Except PyError (List Byte) :=
  match v with
  | .str s => Wire.fromhex s
  | .none => .error (.typeError "fromhex() argument must be str, not None")
  | v => .error (.typeError ("fromhex() argument must be str, not " ++ v.typeName))

def hexField (v : PyValue) (key : String) : Except PyError (List Byte) :=
  v.getItem key >>= fromhex

end PyValue

def strDict (items : List (String × String)) : PyValue :=
  .dict (items.map fun kv => (kv.1, .str kv.2))

/-- `json.dumps` and `json.loads`: a dict of strings with distinct keys is read back as written. -/
structure JsonCodec where
  dumps : PyValue → String
  loads : String → Except PyError PyValue
  loads_dumps : ∀ items : List (String × String), (items.map Prod.fst).Nodup →
    loads (dumps (strDict items)) = .ok (strDict items)

/-- `json.loads(v)`, which parses only text. -/
def JsonCodec.loadsValue (json : JsonCodec) (v : PyValue) : Except PyError PyValue :=
  match v with
  | .str s => json.loads s
  | v => .error (.typeError ("the JSON object must be str, bytes or bytearray, not " ++ v.typeName))

@[simp] theorem PyValue.fromhex_str (s : String) : PyValue.fromhex (.str s) = Wire.fromhex s := rfl

@[simp] theorem JsonCodec.loadsValue_str (json : JsonCodec) (s : String) :
    json.loadsValue (.str s) = json.loads s := rfl

theorem JsonCodec.loadsValue_dumps (json : JsonCodec) (items : List (String × String))
    (h : (items.map Prod.fst).Nodup) :
    json.loadsValue (.str (json.dumps (strDict items))) = .ok (strDict items) :=
  json.loads_dumps items h

section EscapedCodec

-- A codec meeting the law: every character behind a `c`, every string closed by an `e`.

def escapeChars (s : String) : List Char := s.data.flatMap (fun c => ['c', c]) ++ ['e']

def unescapeChars : List Char → List Char → Option (List String)
  | acc, 'c' :: c :: rest => unescapeChars (c :: acc) rest
  | acc, 'e' :: rest => (unescapeChars [] rest).map (⟨acc.reverse⟩ :: ·)
  | [], [] => some []
  | _, _ => Option.none

def pairStrings : List String → Option (List (String × String))
  | k :: v :: rest => (pairStrings rest).map ((k, v) :: ·)
  | [] => some []
  | [_] => Option.none

theorem unescapeChars_escape (rest : List Char) :
    ∀ (cs acc : List Char), unescapeChars acc (cs.flatMap (fun c => ['c', c]) ++ 'e' :: rest) =
      (unescapeChars [] rest).map (⟨acc.reverse ++ cs⟩ :: ·)
  | [], acc => by simp [unescapeChars]
  | c :: cs, acc => by
    simp only [List.flatMap_cons, List.cons_append, List.nil_append, unescapeChars]
    rw [unescapeChars_escape rest cs (c :: acc), List.reverse_cons, List.append_assoc]
    rfl

theorem escapeChars_append (s : String) (rest : List Char) :
    escapeChars s ++ rest = s.data.flatMap (fun c => ['c', c]) ++ 'e' :: rest := by
  simp [escapeChars]

theorem unescapeChars_strDict (items : List (String × String)) :
    unescapeChars [] (items.flatMap fun kv => escapeChars kv.1 ++ escapeChars kv.2) =
      some (items.flatMap fun kv => [kv.1, kv.2]) := by
  induction items with
  | nil => rfl
  | cons kv items ih =>
    rw [List.flatMap_cons, List.append_assoc, escapeChars_append, escapeChars_append,
      unescapeChars_escape, unescapeChars_escape, ih]
    rfl

theorem pairStrings_flatMap (items : List (String × String)) :
    pairStrings (items.flatMap fun kv => [kv.1, kv.2]) = some items := by
  induction items with
  | nil => rfl
  | cons kv items ih =>
    rw [List.flatMap_cons, List.cons_append, List.cons_append, List.nil_append, pairStrings, ih]
    rfl

def escapedCodec : JsonCodec where
  dumps v := match v with
    | .dict items => ⟨items.flatMap fun kv => match kv.2 with
      | .str s => escapeChars kv.1 ++ escapeChars s
      | _ => []⟩
    | _ => ""
  loads s := match unescapeChars [] s.data >>= pairStrings with
    | some items => .ok (strDict items)
    | Option.none => .error (.valueError "Expecting value")
  loads_dumps items _ := by
    simp only [strDict, List.flatMap_map]
    rw [unescapeChars_strDict, Option.bind_eq_bind, Option.some_bind, pairStrings_flatMap]

end EscapedCodec

end CitrateCrypto.Wire
