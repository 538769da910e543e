-- SUMMARY: PostgreSQL's JSONB operators on JSON values.
import LingxiOS.Base.Sql
import LingxiOS.Protocol.Actions

/-! # JSONB

A JSONB value is a JSON value; a column or an operand that is NULL is `none`,
which is not the JSON `null`. -/

namespace LingxiOS

namespace Jsonb

/-- Keys are stored by length, then byte by byte. -/
def keyOrder (a b : String) : Bool :=
  a.utf8ByteSize < b.utf8ByteSize || (a.utf8ByteSize == b.utf8ByteSize && decide (a ≤ b))

mutual

/-- The text of a JSONB value. -/
def text : Json → String
  | .null => "null"
  | .bool b => if b then "true" else "false"
  | .num n => toString n
  | .str s => Text.quote s
  | .arr xs => "[" ++ String.intercalate ", " (textItems xs) ++ "]"
  | .obj fields =>
      let members := (textFields fields).insertionSort (fun a b => keyOrder a.1 b.1)
      "\x7b" ++ String.intercalate ", " (members.map Prod.snd) ++ "\x7d"

def textItems : List Json → List String
  | [] => []
  | x :: xs => text x :: textItems xs

def textFields : List (String × Json) → List (String × String)
  | [] => []
  | (k, v) :: rest => (k, Text.quote k ++ ": " ++ text v) :: textFields rest

end

/-- A value as text: a string is itself, and `null` is NULL. -/
def asText : Json → Option String
  | .null => none
  | .str s => some s
  | v => some (text v)

/-- `value -> key`. -/
def get (value : Option Json) (key : String) : Option Json := value.bind (·.field key)

/-- `value ->> key`. -/
def getText (value : Option Json) (key : String) : Option String := (get value key).bind asText

/-- `jsonb_array_elements(value)`. -/
def elements : Json → Except String (List Json)
  | .arr items => .ok items
  | .obj _ => .error "cannot extract elements from an object"
  | _ => .error "cannot extract elements from a scalar"

/-- PostgreSQL stores every character of a text but U+0000. -/
def storableText (s : String) : Bool := !s.toList.contains '\x00'

mutual

/-- Whether a value can be stored: no text of it holds U+0000. -/
def storable : Json → Bool
  | .str s => storableText s
  | .arr xs => storableItems xs
  | .obj fields => storableFields fields
  | _ => true

def storableItems : List Json → Bool
  | [] => true
  | x :: xs => storable x && storableItems xs

def storableFields : List (String × Json) → Bool
  | [] => true
  | (k, v) :: rest => storableText k && storable v && storableFields rest

end

@[simp] theorem get_none (key : String) : get none key = none := rfl

@[simp] theorem get_some (value : Json) (key : String) : get (some value) key = value.field key := rfl

@[simp] theorem getText_none (key : String) : getText none key = none := rfl

@[simp] theorem asText_str (s : String) : asText (.str s) = some s := rfl

@[simp] theorem asText_bool (b : Bool) : asText (.bool b) = some (if b then "true" else "false") := by
  simp [asText, text]

end Jsonb

/-! ## The fields of stored actions -/

@[simp] theorem Json.field_obj (fields : JsonObject) (key : String) :
    (Json.obj fields).field key = fields.lookup key := rfl

theorem lookup_member {α : Type} (key other : String) (value : α) (rest : List (String × α)) :
    ((key, value) :: rest).lookup other = if other = key then some value else rest.lookup other := by
  rw [List.lookup_cons]
  by_cases h : other = key
  · simp [h]
  · have hbeq : (other == key) = false := beq_false_of_ne h
    simp [hbeq, h]

theorem lookup_optionalField {α : Type} (key other : String) (value : Option α) (toJson : α → Json) :
    (optionalField key value toJson).lookup other
      = if other = key then value.map toJson else none := by
  cases value with
  | none => simp [optionalField]
  | some v => exact lookup_member key other (toJson v) []

theorem lookup_unless {c : Prop} [Decidable c] (key other : String) (value : Json) :
    (if c then [] else [(key, value)]).lookup other
      = if other = key then (if c then none else some value) else none := by
  by_cases hc : c
  · simp [hc]
  · simpa [hc] using lookup_member key other value []

section

variable (result : HostActionResult)

@[simp] theorem field_ok : result.toJson.field "ok" = some (.bool result.ok) := by
  simp [HostActionResult.toJson, Json.field, List.lookup_append, lookup_unless]

@[simp] theorem field_executionState : result.toJson.field "executionState"
    = result.executionState.map fun state => .str state.name := by
  simp [HostActionResult.toJson, Json.field, List.lookup_append, lookup_optionalField,
    lookup_unless, lookup_member]

@[simp] theorem field_artifacts : result.toJson.field "artifacts"
    = if result.artifacts.isEmpty then none
      else some (.arr (result.artifacts.map KernelArtifact.toJson)) := by
  simp [HostActionResult.toJson, Json.field, List.lookup_append, lookup_optionalField,
    lookup_unless, lookup_member]

@[simp] theorem field_approval : result.toJson.field "approval"
    = result.approval.map fun id => .obj [("id", .str id), ("status", .str "PENDING")] := by
  simp [HostActionResult.toJson, Json.field, List.lookup_append, lookup_optionalField,
    lookup_unless, lookup_member]

@[simp] theorem field_directive : result.toJson.field "directive"
    = result.directive.map HostDirective.toJson := by
  simp [HostActionResult.toJson, Json.field, List.lookup_append, lookup_optionalField,
    lookup_unless, lookup_member]

end

/-! ## Spreading -/

namespace JsonObject

/-- Write a member over an object: a known key keeps its place, `undefined` writes nothing
    and hides what was there. -/
def assign (fields : JsonObject) (key : String) (value : Option Json) : JsonObject :=
  match value with
  | none => fields.filter fun member => member.1 ≠ key
  | some v =>
      if fields.any fun member => member.1 = key then
        fields.map fun member => if member.1 = key then (key, v) else member
      else fields ++ [(key, v)]

/-- `{ ...fields, ...members }`. -/
def assignAll (fields : JsonObject) (members : List (String × Option Json)) : JsonObject :=
  members.foldl (fun fields member => assign fields member.1 member.2) fields

theorem lookup_filter_ne (fields : JsonObject) (key other : String) :
    (fields.filter fun member => member.1 ≠ key).lookup other
      = if other = key then none else fields.lookup other := by
  induction fields with
  | nil => simp
  | cons first rest ih =>
      obtain ⟨name, value⟩ := first
      by_cases hname : name = key
      · subst hname
        rw [List.filter_cons_of_neg (by simp), ih, lookup_member]
        split <;> rfl
      · rw [List.filter_cons_of_pos (by simpa using hname), lookup_member, ih, lookup_member]
        by_cases hother : other = name
        · simp [hother, hname]
        · simp [hother]

theorem lookup_replace (fields : JsonObject) (key other : String) (value : Json) :
    (fields.map fun member => if member.1 = key then (key, value) else member).lookup other
      = if other = key then (fields.lookup key).map fun _ => value else fields.lookup other := by
  induction fields with
  | nil => simp
  | cons first rest ih =>
      obtain ⟨name, old⟩ := first
      by_cases hname : name = key
      · subst hname
        simp only [List.map_cons, if_true, lookup_member, ih]
        split <;> simp_all
      · simp only [List.map_cons, hname, if_false, lookup_member, ih, Ne.symm hname]
        by_cases hother : other = name
        · simp [hother, hname]
        · simp [hother]

theorem lookup_append_new (fields : JsonObject) (key other : String) (value : Json)
    (hnew : fields.lookup key = none) :
    (fields ++ [(key, value)]).lookup other
      = if other = key then some value else fields.lookup other := by
  rw [List.lookup_append, lookup_member]
  by_cases hother : other = key
  · simp [hother, hnew]
  · simp [hother]

theorem lookup_isSome_iff (fields : JsonObject) (key : String) :
    (fields.lookup key).isSome = fields.any fun member => member.1 = key := by
  induction fields with
  | nil => rfl
  | cons first rest ih =>
      obtain ⟨name, value⟩ := first
      rw [lookup_member, List.any_cons, ← ih]
      by_cases hname : key = name
      · simp [hname]
      · simp [hname, Ne.symm hname]

/-- An assignment decides its own key and no other. -/
theorem lookup_assign (fields : JsonObject) (key other : String) (value : Option Json) :
    (assign fields key value).lookup other
      = if other = key then value else fields.lookup other := by
  cases value with
  | none => simpa [assign] using lookup_filter_ne fields key other
  | some v =>
      simp only [assign, ← lookup_isSome_iff]
      split
      · rename_i hsome
        rw [lookup_replace]
        obtain ⟨old, hold⟩ := Option.isSome_iff_exists.1 hsome
        simp [hold]
      · rename_i hnone
        exact lookup_append_new fields key other v (Option.not_isSome_iff_eq_none.1 hnone)

@[simp] theorem assignAll_nil (fields : JsonObject) : assignAll fields [] = fields := rfl

@[simp] theorem assignAll_cons (fields : JsonObject) (key : String) (value : Option Json)
    (rest : List (String × Option Json)) :
    assignAll fields ((key, value) :: rest) = assignAll (assign fields key value) rest := rfl

@[simp] theorem assignAll_append (fields : JsonObject) (first rest : List (String × Option Json)) :
    assignAll fields (first ++ rest) = assignAll (assignAll fields first) rest :=
  List.foldl_append

end JsonObject

/-! ## Keys in order -/

namespace Json

theorem sortItems_eq_map (xs : List Json) : sortItems xs = xs.map sortKeys := by
  induction xs with
  | nil => rfl
  | cons x xs ih => simp [sortItems, ih]

theorem sortFields_eq_map (fields : JsonObject) :
    sortFields fields = fields.map fun member => (member.1, sortKeys member.2) := by
  induction fields with
  | nil => rfl
  | cons member rest ih =>
      obtain ⟨key, value⟩ := member
      simp [sortFields, ih]

/-- Members come in the order of their keys. -/
abbrev keyLe (a b : String × Json) : Prop := a.1 ≤ b.1

theorem lookup_orderedInsert (member : String × Json) (fields : JsonObject) (key : String) :
    (List.orderedInsert keyLe member fields).lookup key
      = if key = member.1 then some member.2 else fields.lookup key := by
  induction fields with
  | nil => exact lookup_member member.1 key member.2 []
  | cons first rest ih =>
      rw [List.orderedInsert_cons]
      split
      · exact lookup_member member.1 key member.2 (first :: rest)
      · rename_i hlater
        have hne : member.1 ≠ first.1 := by
          intro heq
          apply hlater
          change member.1 ≤ first.1
          exact heq ▸ String.le_refl member.1
        rw [lookup_member first.1 key first.2, ih, lookup_member first.1 key first.2]
        by_cases hkey : key = member.1
        · have hfirst : key ≠ first.1 := fun heq => hne (hkey.symm.trans heq)
          simp [hkey, hne]
        · simp [hkey]

theorem lookup_insertionSort (fields : JsonObject) (key : String) :
    (fields.insertionSort keyLe).lookup key = fields.lookup key := by
  induction fields with
  | nil => rfl
  | cons first rest ih =>
      rw [List.insertionSort_cons, lookup_orderedInsert, ih, lookup_member first.1 key first.2]

theorem lookup_sortFields (fields : JsonObject) (key : String) :
    (sortFields fields).lookup key = (fields.lookup key).map sortKeys := by
  induction fields with
  | nil => rfl
  | cons first rest ih =>
      obtain ⟨name, value⟩ := first
      rw [sortFields, lookup_member, lookup_member, ih]
      split <;> rfl

/-- The order of the keys does not matter to property access. -/
theorem field_sortKeys (v : Json) (key : String) :
    v.sortKeys.field key = (v.field key).map sortKeys := by
  cases v with
  | obj fields =>
      rw [sortKeys, field_obj, field_obj, lookup_insertionSort, lookup_sortFields]
  | _ => rfl

theorem sortFields_insertionSort (fields : JsonObject) :
    sortFields (fields.insertionSort keyLe) = (sortFields fields).insertionSort keyLe := by
  rw [sortFields_eq_map, sortFields_eq_map]
  exact List.map_insertionSort _ _ _ _ fun _ _ _ _ => Iff.rfl

mutual

/-- A value whose keys are in order is left as it is. -/
theorem sortKeys_sortKeys : (v : Json) → v.sortKeys.sortKeys = v.sortKeys
  | .null | .bool _ | .num _ | .str _ => by simp [sortKeys]
  | .arr xs => by simp [sortKeys, sortItems_sortItems xs]
  | .obj fields => by
      simp only [sortKeys]
      rw [sortFields_insertionSort, sortFields_sortFields fields]
      congr 1
      have : Std.Total keyLe := ⟨fun a b => String.le_total a.1 b.1⟩
      have : IsTrans _ keyLe := ⟨fun _ _ _ => String.le_trans⟩
      exact List.Pairwise.insertionSort_eq (List.pairwise_insertionSort keyLe _)

theorem sortItems_sortItems : (xs : List Json) → sortItems (sortItems xs) = sortItems xs
  | [] => rfl
  | x :: xs => by simp [sortItems, sortKeys_sortKeys x, sortItems_sortItems xs]

theorem sortFields_sortFields : (fields : JsonObject) →
    sortFields (sortFields fields) = sortFields fields
  | [] => rfl
  | (key, value) :: rest => by
      simp [sortFields, sortKeys_sortKeys value, sortFields_sortFields rest]

end

end Json

end LingxiOS
