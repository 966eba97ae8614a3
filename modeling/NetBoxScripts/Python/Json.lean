import NetBoxScripts.Python.Text

/-!
# JSON values

The values a `JSONField` stores and reads back, and their canonical text: sorted keys, no
blanks, every character outside printable ASCII escaped.

## Main definitions

* `Json`: the values, a float by its text
* `dumps`: `json.dumps(value, sort_keys=True, separators=(',', ':'), ensure_ascii=True)`
-/

namespace NetBoxScripts

/-- What `float.__repr__` gives of a finite number: a numeral with a point or an exponent. It tells
floats apart. -/
structure FloatText where
  text : PyStr
  numeral : ∀ c ∈ text, (48 ≤ c ∧ c ≤ 57) ∨ c = 43 ∨ c = 45 ∨ c = 46 ∨ c = 101
  marked : 46 ∈ text ∨ 101 ∈ text

/-- A JSON value as Python holds it; the fields of an object keep their order. -/
inductive Json
  | null
  | bool (b : Bool)
  | int (n : ℤ)
  | float (x : FloatText)
  | str (s : PyStr)
  | arr (items : List Json)
  | obj (fields : List (PyStr × Json))

namespace Json

/-- `value.get(key)` of an object, and `none` of anything else. -/
def get? : Json → PyStr → Option Json
  | .obj fields, key => (fields.find? fun field => field.1 = key).map Prod.snd
  | _, _ => none

/-- `isinstance(value, str)`, with the string. -/
def str? : Json → Option PyStr
  | .str s => some s
  | _ => none

/-- `isinstance(value, int) and not isinstance(value, bool)`, with the number. -/
def int? : Json → Option ℤ
  | .int n => some n
  | _ => none

/-! ## Canonical text -/

/-- One lower-case hexadecimal digit. -/
def hexDigit (n : ℕ) : ℕ := if n < 10 then 48 + n else 87 + n

/-- `'{:04x}'.format(n)` for `n < 0x10000` -/
def hex4 (n : ℕ) : PyStr :=
  [hexDigit (n / 4096 % 16), hexDigit (n / 256 % 16), hexDigit (n / 16 % 16), hexDigit (n % 16)]

/-- `\uXXXX` -/
def unicodeEscape (n : ℕ) : PyStr := backslash :: 117 :: hex4 n

/-- The text of one character inside a string, with `ensure_ascii`. -/
def escapeChar (c : ℕ) : PyStr :=
  if c = 34 then [backslash, 34]
  else if c = backslash then [backslash, backslash]
  else if c = 10 then [backslash, 110]
  else if c = 13 then [backslash, 114]
  else if c = 9 then [backslash, 116]
  else if c = 12 then [backslash, 102]
  else if c = 8 then [backslash, 98]
  else if 32 ≤ c ∧ c ≤ 126 then [c]
  else if c < 0x10000 then unicodeEscape c
  else unicodeEscape (0xD800 + (c - 0x10000) / 1024) ++
    unicodeEscape (0xDC00 + (c - 0x10000) % 1024)

/-- The text of a string. -/
def quote (s : PyStr) : PyStr := 34 :: (s.flatMap escapeChar ++ [34])

/-- The text of an integer. -/
def intText : ℤ → PyStr
  | .ofNat n => decimal n
  | .negSucc n => 45 :: decimal (n + 1)

/-- `','.join(parts)` -/
def commaJoin (parts : List PyStr) : PyStr := [44].intercalate parts

mutual

/-- `json.dumps(value, sort_keys=True, separators=(',', ':'), ensure_ascii=True)` -/
def dumps : Json → PyStr
  | .null => py "null"
  | .bool b => if b then py "true" else py "false"
  | .int n => intText n
  | .float x => x.text
  | .str s => quote s
  | .arr items => 91 :: (commaJoin (dumpsItems items) ++ [93])
  | .obj fields =>
    123 :: (commaJoin (((dumpsFields fields).insertionSort fun a b => a.1 ≤ b.1).map fun field =>
      quote field.1 ++ 58 :: field.2) ++ [125])

/-- The texts of an array's items. -/
def dumpsItems : List Json → List PyStr
  | [] => []
  | item :: items => dumps item :: dumpsItems items

/-- The keys of an object with the texts of their values. -/
def dumpsFields : List (PyStr × Json) → List (PyStr × PyStr)
  | [] => []
  | (key, value) :: fields => (key, dumps value) :: dumpsFields fields

end

theorem dumpsItems_eq_map (items : List Json) : dumpsItems items = items.map dumps := by
  induction items with
  | nil => rfl
  | cons item items ih => rw [dumpsItems, ih, List.map_cons]

/-! ## Storage -/

/-- The order `jsonb` keeps the keys of an object in: the shorter ones first. -/
def keyBefore (a b : PyStr) : Prop :=
  a.length < b.length ∨ (a.length = b.length ∧ a ≤ b)

instance : DecidableRel keyBefore := fun a b => by
  unfold keyBefore
  infer_instance

mutual

/-- The value a `jsonb` column gives back: the same, with the keys of objects in its order. -/
def stored : Json → Json
  | .arr items => .arr (storedItems items)
  | .obj fields => .obj ((storedFields fields).insertionSort fun a b => keyBefore a.1 b.1)
  | value => value

/-- The items of an array as they are given back. -/
def storedItems : List Json → List Json
  | [] => []
  | item :: items => stored item :: storedItems items

/-- The fields of an object as they are given back. -/
def storedFields : List (PyStr × Json) → List (PyStr × Json)
  | [] => []
  | (key, value) :: fields => (key, stored value) :: storedFields fields

end

theorem storedItems_eq_map (items : List Json) : storedItems items = items.map stored := by
  induction items with
  | nil => rfl
  | cons item items ih => rw [storedItems, ih, List.map_cons]

example : dumps (.arr [.obj [(py "b", .int 12), (py "a", .str [34, 0xE9])]]) =
    py "[\x7b\"a\":\"\\\"\\u00e9\",\"b\":12\x7d]" := by decide

end Json

end NetBoxScripts
