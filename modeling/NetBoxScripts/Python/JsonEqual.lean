import Mathlib.Data.Int.Log
import Mathlib.Data.Rat.Floor
import NetBoxScripts.Python.Json

/-!
# What `==` tells apart

Two JSON values are equal in Python when they are made of the same numbers, strings and keys:
`True`, `1` and `1.0` are one number, and the order of keys does not count.

## Main definitions

* `FloatText.value`: the number a float stands for
* `PyValue`: values as `==` sees them
* `Json.same`: `==`
-/

namespace NetBoxScripts

/-! ## Numbers -/

/-- A numeral without its sign: digits, a point, digits. -/
def decimalValue (text : PyStr) : ℚ :=
  let digits (text : PyStr) : ℕ := text.foldl (fun n c => n * 10 + (c - 48)) 0
  let whole := text.takeWhile (· ≠ 46)
  let fraction := (text.dropWhile (· ≠ 46)).drop 1
  digits whole + digits fraction / 10 ^ fraction.length

/-- An exponent with its sign. -/
def exponentValue (text : PyStr) : ℤ :=
  let digits (text : PyStr) : ℕ := text.foldl (fun n c => n * 10 + (c - 48)) 0
  match text with
  | 45 :: text => -digits text
  | 43 :: text => digits text
  | text => digits text

/-- The number a numeral writes. -/
def numeralValue (text : PyStr) : ℚ :=
  let (sign, text) : ℚ × PyStr := if text.head? = some 45 then (-1, text.tail) else (1, text)
  let mantissa := text.takeWhile (· ≠ 101)
  let exponent := (text.dropWhile (· ≠ 101)).drop 1
  sign * decimalValue mantissa * 10 ^ exponentValue exponent

/-- The nearest integer, the even one of two. -/
def roundHalfEven (q : ℚ) : ℤ :=
  let rest := q - ⌊q⌋
  if rest < 1 / 2 then ⌊q⌋
  else if 1 / 2 < rest then ⌊q⌋ + 1
  else if ⌊q⌋ % 2 = 0 then ⌊q⌋ else ⌊q⌋ + 1

/-- The double nearest to a number: 53 bits above `2 ^ (-1074)`. -/
def nearestDouble (q : ℚ) : ℚ :=
  if q = 0 then 0
  else
    let exponent := max (Int.log 2 |q| - 52) (-1074)
    roundHalfEven (q / 2 ^ exponent) * 2 ^ exponent

/-- The number a float stands for. -/
def FloatText.value (x : FloatText) : ℚ := nearestDouble (numeralValue x.text)

/-! ## Values -/

/-- A value as `==` sees it; a dictionary by its keys in order. -/
inductive PyValue
  | none
  | number (q : ℚ)
  | text (s : PyStr)
  | list (items : List PyValue)
  | dict (fields : List (PyStr × PyValue))

namespace PyValue

mutual

/-- Whether two values are the same. -/
def decEq : (a b : PyValue) → Decidable (a = b)
  | .none, .none => .isTrue rfl
  | .number p, .number q => decidable_of_iff (p = q) ⟨congrArg _, number.inj⟩
  | .text s, .text t => decidable_of_iff (s = t) ⟨congrArg _, text.inj⟩
  | .list a, .list b =>
    match decEqItems a b with
    | .isTrue h => .isTrue (congrArg _ h)
    | .isFalse h => .isFalse fun heq => h (list.inj heq)
  | .dict a, .dict b =>
    match decEqFields a b with
    | .isTrue h => .isTrue (congrArg _ h)
    | .isFalse h => .isFalse fun heq => h (dict.inj heq)
  | .none, .number _ | .none, .text _ | .none, .list _ | .none, .dict _
  | .number _, .none | .number _, .text _ | .number _, .list _ | .number _, .dict _
  | .text _, .none | .text _, .number _ | .text _, .list _ | .text _, .dict _
  | .list _, .none | .list _, .number _ | .list _, .text _ | .list _, .dict _
  | .dict _, .none | .dict _, .number _ | .dict _, .text _ | .dict _, .list _ => .isFalse nofun

/-- Whether two lists of values are the same. -/
def decEqItems : (a b : List PyValue) → Decidable (a = b)
  | [], [] => .isTrue rfl
  | [], _ :: _ | _ :: _, [] => .isFalse nofun
  | x :: a, y :: b =>
    match decEq x y, decEqItems a b with
    | .isTrue hxy, .isTrue hab => .isTrue (by rw [hxy, hab])
    | .isFalse hxy, _ => .isFalse fun heq => hxy (List.cons.inj heq).1
    | _, .isFalse hab => .isFalse fun heq => hab (List.cons.inj heq).2

/-- Whether two lists of fields are the same. -/
def decEqFields : (a b : List (PyStr × PyValue)) → Decidable (a = b)
  | [], [] => .isTrue rfl
  | [], _ :: _ | _ :: _, [] => .isFalse nofun
  | (k, x) :: a, (l, y) :: b =>
    if hkl : k = l then
      match decEq x y, decEqFields a b with
      | .isTrue hxy, .isTrue hab => .isTrue (by rw [hkl, hxy, hab])
      | .isFalse hxy, _ => .isFalse fun heq => hxy (Prod.mk.inj (List.cons.inj heq).1).2
      | _, .isFalse hab => .isFalse fun heq => hab (List.cons.inj heq).2
    else .isFalse fun heq => hkl (Prod.mk.inj (List.cons.inj heq).1).1

end

instance : DecidableEq PyValue := decEq

end PyValue

namespace Json

/-- The number a value is, a truth value included. -/
def number? : Json → Option ℚ
  | .bool b => some (if b then 1 else 0)
  | .int n => some n
  | .float x => some x.value
  | _ => none

mutual

/-- The value as `==` sees it. -/
def seen : Json → PyValue
  | .null => .none
  | .bool b => .number (if b then 1 else 0)
  | .int n => .number n
  | .float x => .number x.value
  | .str s => .text s
  | .arr items => .list (seenItems items)
  | .obj fields => .dict ((seenFields fields).insertionSort fun a b => a.1 ≤ b.1)

/-- The items of an array as `==` sees them. -/
def seenItems : List Json → List PyValue
  | [] => []
  | item :: items => seen item :: seenItems items

/-- The fields of an object as `==` sees them. -/
def seenFields : List (PyStr × Json) → List (PyStr × PyValue)
  | [] => []
  | (key, value) :: fields => (key, seen value) :: seenFields fields

end

/-- `==`, of values whose objects have distinct keys. -/
def same (a b : Json) : Bool := a.seen = b.seen

@[simp] theorem same_iff {a b : Json} : same a b = true ↔ a.seen = b.seen := decide_eq_true_iff

end Json

example : Json.same (.obj [(py "a", .bool true), (py "b", .null)])
    (.obj [(py "b", .null), (py "a", .int 1)]) = true := by decide

end NetBoxScripts
