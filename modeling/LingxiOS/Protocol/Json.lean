-- SUMMARY: JSON values as the control plane reads them.
import LingxiOS.Base.Text
import Mathlib.Data.List.Sort

/-! # JSON Values

`meta`, action arguments and action values are `unknown` in the source. They are
read through property access, compared with `isDeepStrictEqual`, and in a few
places coerced with `String(...)`. Numbers are integers here: the fields the
modelled code reads are versions, counters and identifiers. -/

namespace LingxiOS

inductive Json where
  | null
  | bool (b : Bool)
  | num (n : Int)
  | str (s : String)
  | arr (items : List Json)
  | obj (fields : List (String × Json))
  deriving Inhabited

/-- The fields of a JSON object, as a `Record<string, unknown>`. -/
abbrev JsonObject := List (String × Json)

namespace Json

mutual

/-- Equality of the values as they are written. -/
def same : Json → Json → Bool
  | .null, .null => true
  | .bool a, .bool b => a == b
  | .num a, .num b => a == b
  | .str a, .str b => a == b
  | .arr xs, .arr ys => sameItems xs ys
  | .obj xs, .obj ys => sameFields xs ys
  | _, _ => false

def sameItems : List Json → List Json → Bool
  | [], [] => true
  | x :: xs, y :: ys => same x y && sameItems xs ys
  | _, _ => false

def sameFields : List (String × Json) → List (String × Json) → Bool
  | [], [] => true
  | (k, v) :: xs, (l, w) :: ys => k == l && same v w && sameFields xs ys
  | _, _ => false

end

mutual

theorem same_iff : ∀ a b : Json, same a b = true ↔ a = b
  | .null, b => by cases b <;> simp [same]
  | .bool _, b => by cases b <;> simp [same]
  | .num _, b => by cases b <;> simp [same]
  | .str _, b => by cases b <;> simp [same]
  | .arr xs, b => by
      cases b with
      | arr ys => simp [same, sameItems_iff xs ys]
      | _ => simp [same]
  | .obj xs, b => by
      cases b with
      | obj ys => simp [same, sameFields_iff xs ys]
      | _ => simp [same]

theorem sameItems_iff : ∀ xs ys : List Json, sameItems xs ys = true ↔ xs = ys
  | [], ys => by cases ys <;> simp [sameItems]
  | x :: xs, ys => by
      cases ys with
      | nil => simp [sameItems]
      | cons y ys => simp [sameItems, same_iff x y, sameItems_iff xs ys]

theorem sameFields_iff : ∀ xs ys : List (String × Json), sameFields xs ys = true ↔ xs = ys
  | [], ys => by cases ys <;> simp [sameFields]
  | (k, v) :: xs, ys => by
      cases ys with
      | nil => simp [sameFields]
      | cons y ys =>
          obtain ⟨l, w⟩ := y
          simp [sameFields, same_iff v w, sameFields_iff xs ys, and_assoc]

end

instance : DecidableEq Json := fun a b => decidable_of_iff (same a b = true) (same_iff a b)

mutual

/-- The value with the keys of every object in order. -/
def sortKeys : Json → Json
  | .arr xs => .arr (sortItems xs)
  | .obj fields => .obj ((sortFields fields).insertionSort (fun a b => a.1 ≤ b.1))
  | v => v

def sortItems : List Json → List Json
  | [] => []
  | x :: xs => sortKeys x :: sortItems xs

def sortFields : List (String × Json) → List (String × Json)
  | [] => []
  | (k, v) :: rest => (k, sortKeys v) :: sortFields rest

end

/-- `isDeepStrictEqual`: equal values, with the keys of objects in any order. -/
def deepEqual (a b : Json) : Bool := decide (a.sortKeys = b.sortKeys)

@[simp] theorem deepEqual_self (a : Json) : deepEqual a a = true := by simp [deepEqual]

/-- `String(n)`: from 10²¹ on a number is written with an exponent. -/
def numberText (n : Int) : String :=
  if n.natAbs < 10 ^ 21 then toString n
  else
    let digits := (toString n.natAbs).toList
    let significant := (digits.reverse.dropWhile (· == '0')).reverse
    (if n < 0 then "-" else "")
      ++ String.ofList (significant.take 1)
      ++ (if significant.length = 1 then "" else "." ++ String.ofList (significant.drop 1))
      ++ "e+" ++ toString (digits.length - 1)

mutual

/-- `String(value)`. -/
def toJsString : Json → String
  | .null => "null"
  | .bool b => if b then "true" else "false"
  | .num n => numberText n
  | .str s => s
  | .arr xs => String.intercalate "," (itemStrings xs)
  | .obj _ => "[object Object]"

/-- The items of a joined array, where `null` prints as nothing. -/
def itemStrings : List Json → List String
  | [] => []
  | x :: xs =>
      (match x with
        | .null => ""
        | y => toJsString y) :: itemStrings xs

end

def isString : Json → Bool
  | .str _ => true
  | _ => false

end Json

namespace Json

mutual

/-- `canonicalJson`: the JSON text with the keys of every object sorted. -/
def canonical : Json → String
  | .null => "null"
  | .bool b => if b then "true" else "false"
  | .num n => toString n
  | .str s => Text.quote s
  | .arr xs => "[" ++ String.intercalate "," (canonicalItems xs) ++ "]"
  | .obj fields =>
      let members := (canonicalFields fields).insertionSort (fun a b => a.1 ≤ b.1)
      "\x7b" ++ String.intercalate "," (members.map Prod.snd) ++ "\x7d"

def canonicalItems : List Json → List String
  | [] => []
  | x :: xs => canonical x :: canonicalItems xs

/-- Each field's key with the text of its member. -/
def canonicalFields : List (String × Json) → List (String × String)
  | [] => []
  | (k, v) :: rest => (k, Text.quote k ++ ":" ++ canonical v) :: canonicalFields rest

end

mutual

/-- `JSON.stringify(value)`. -/
def stringify : Json → String
  | .null => "null"
  | .bool b => if b then "true" else "false"
  | .num n => toString n
  | .str s => Text.quote s
  | .arr xs => "[" ++ String.intercalate "," (stringifyItems xs) ++ "]"
  | .obj fields => "\x7b" ++ String.intercalate "," (stringifyFields fields) ++ "\x7d"

def stringifyItems : List Json → List String
  | [] => []
  | x :: xs => stringify x :: stringifyItems xs

def stringifyFields : List (String × Json) → List String
  | [] => []
  | (k, v) :: rest => (Text.quote k ++ ":" ++ stringify v) :: stringifyFields rest

end

/-- `typeof value === 'object'` of a value that is not `null`; arrays are objects. -/
def isObject : Json → Bool
  | .obj _ | .arr _ => true
  | _ => false

/-- `value[key]` of an object; an array has no named fields. -/
def field (v : Json) (key : String) : Option Json :=
  match v with
  | .obj fields => fields.lookup key
  | _ => none

end Json

/-- `String(value)` of a property that may be absent. -/
def jsString : Option Json → String
  | none => "undefined"
  | some v => v.toJsString

namespace JsonObject

/-- `record?.[key]` of a record that may be absent. -/
def get? (record : Option JsonObject) (key : String) : Option Json :=
  record.bind (fun fields => fields.lookup key)

/-- The string stored under a key, if a string is stored there. -/
def getString? (record : Option JsonObject) (key : String) : Option String :=
  match get? record key with
  | some (.str s) => some s
  | _ => none

@[simp] theorem get?_none (key : String) : get? none key = none := rfl

theorem getString?_eq_some_iff {record : Option JsonObject} {key s : String} :
    getString? record key = some s ↔ get? record key = some (.str s) := by
  unfold getString?
  split <;> simp_all

end JsonObject

end LingxiOS
