-- SUMMARY: Values of a running program, and what JSON.stringify writes of them.
import LingxiOS.Protocol.Stringify

/-! # Live Values

A value of a running program is more than JSON: it can be undefined, a number without a
literal, a date or an array with holes. `JSON.stringify` leaves out what it cannot write. -/

namespace LingxiOS.Stringify

open JsonText

inductive Live where
  /-- `undefined`, a function or a symbol. -/
  | undefined
  /-- A missing item of an array. -/
  | hole
  | null
  | bool (b : Bool)
  | num (n : Number)
  /-- `NaN` or an infinity. -/
  | nonFinite
  | str (s : Units)
  /-- A date, as `toISOString` writes it if it is a valid one. -/
  | date (iso : Option Units)
  | arr (items : List Live)
  /-- The own properties of an object, in their order. -/
  | obj (members : List (Units × Live))

namespace Live

variable {v : Live} {items : List Live} {members : List (Units × Live)}

/-- Induction over the items and the members of a value. -/
@[elab_as_elim]
theorem induct {P : Live → Prop}
    (atom : ∀ v, (∀ items, v ≠ .arr items) → (∀ members, v ≠ .obj members) → P v)
    (arr : ∀ items, (∀ v ∈ items, P v) → P (.arr items))
    (obj : ∀ members, (∀ m ∈ members, P m.2) → P (.obj members)) (v : Live) : P v := by
  refine @Live.rec P (fun items => ∀ v ∈ items, P v) (fun members => ∀ m ∈ members, P m.2)
    (fun m => P m.2) ?undefined ?hole ?null ?bool ?num ?nonFinite ?str ?date arr obj ?nil ?cons ?none ?some ?mk v
  case undefined => exact atom _ (by simp) (by simp)
  case hole => exact atom _ (by simp) (by simp)
  case null => exact atom _ (by simp) (by simp)
  case bool => exact fun b => atom _ (by simp) (by simp)
  case num => exact fun n => atom _ (by simp) (by simp)
  case nonFinite => exact atom _ (by simp) (by simp)
  case str => exact fun s => atom _ (by simp) (by simp)
  case date => exact fun iso => atom _ (by simp) (by simp)
  case nil => simp
  case cons => exact fun v items hv hitems => List.forall_mem_cons.2 ⟨hv, hitems⟩
  case none => simp
  case some => exact fun m members hm hmembers => List.forall_mem_cons.2 ⟨hm, hmembers⟩
  case mk => exact fun k v hv => hv

/-! ## JSON.stringify -/

mutual

/-- What `JSON.stringify` writes of a value, if it writes anything. -/
def serialize : Live → Option (Value Number)
  | .undefined | .hole => none
  | .null | .nonFinite | .date none => some .null
  | .bool b => some (.bool b)
  | .num n => some (.num n)
  | .str s | .date (some s) => some (.str s)
  | .arr items => some (.arr (serializeItems items))
  | .obj members => some (.obj (serializeMembers members))

def serializeItems : List Live → List (Value Number)
  | [] => []
  | v :: rest => (serialize v).getD .null :: serializeItems rest

def serializeMembers : List (Units × Live) → List (Units × Value Number)
  | [] => []
  | (k, v) :: rest =>
      match serialize v with
      | none => serializeMembers rest
      | some w => (k, w) :: serializeMembers rest

end

/-- `JSON.stringify(value)`. -/
def stringify (v : Live) : Option Units := (serialize v).map (print jsStyle Number.text)

theorem serializeItems_eq_map (items : List Live) :
    serializeItems items = items.map fun v => (serialize v).getD .null := by
  induction items with
  | nil => rfl
  | cons v rest ih => rw [serializeItems, ih, List.map_cons]

theorem serializeMembers_eq_filterMap (members : List (Units × Live)) :
    serializeMembers members = members.filterMap fun m => (serialize m.2).map (m.1, ·) := by
  induction members with
  | nil => rfl
  | cons m rest ih =>
      rw [serializeMembers, ih]
      cases hm : serialize m.2 with
      | none => simp [hm]
      | some w => simp [hm]

/-! ## Well-formed values -/

mutual

/-- Strings are of 16-bit units, and the names of an object differ. -/
def Proper : Live → Prop
  | .str s | .date (some s) => ∀ u ∈ s, u < 0x10000
  | .arr items => ProperItems items
  | .obj members => (members.map Prod.fst).Nodup ∧ ProperMembers members
  | _ => True

def ProperItems : List Live → Prop
  | [] => True
  | v :: rest => Proper v ∧ ProperItems rest

def ProperMembers : List (Units × Live) → Prop
  | [] => True
  | (k, v) :: rest => (∀ u ∈ k, u < 0x10000) ∧ Proper v ∧ ProperMembers rest

end

mutual

instance decidableProper : (v : Live) → Decidable v.Proper
  | .str s => inferInstanceAs (Decidable (∀ u ∈ s, u < 0x10000))
  | .date (some s) => inferInstanceAs (Decidable (∀ u ∈ s, u < 0x10000))
  | .arr items => decidableProperItems items
  | .obj members =>
      have := decidableProperMembers members
      inferInstanceAs (Decidable ((members.map Prod.fst).Nodup ∧ ProperMembers members))
  | .undefined | .hole | .null | .bool _ | .num _ | .nonFinite | .date none => .isTrue trivial

instance decidableProperItems : (items : List Live) → Decidable (ProperItems items)
  | [] => .isTrue trivial
  | v :: rest =>
      have := decidableProper v
      have := decidableProperItems rest
      inferInstanceAs (Decidable (Proper v ∧ ProperItems rest))

instance decidableProperMembers : (members : List (Units × Live)) →
    Decidable (ProperMembers members)
  | [] => .isTrue trivial
  | (k, v) :: rest =>
      have := decidableProper v
      have := decidableProperMembers rest
      inferInstanceAs (Decidable ((∀ u ∈ k, u < 0x10000) ∧ Proper v ∧ ProperMembers rest))

end

theorem properItems_iff : ProperItems items ↔ ∀ v ∈ items, Proper v := by
  induction items with
  | nil => simp [ProperItems]
  | cons v rest ih => simp [ProperItems, ih]

theorem properMembers_iff :
    ProperMembers members ↔ ∀ m ∈ members, (∀ u ∈ m.1, u < 0x10000) ∧ Proper m.2 := by
  induction members with
  | nil => simp [ProperMembers]
  | cons m rest ih => simp [ProperMembers, ih, and_assoc]

/-- What is written of a value is of 16-bit units. -/
theorem serialize_over (v : Live) :
    v.Proper → ∀ w, v.serialize = some w → w.Over (· < 0x10000) := by
  induction v using Live.induct with
  | atom v harr hobj =>
      intro hproper w hw
      cases v with
      | arr items => exact absurd rfl (harr items)
      | obj members => exact absurd rfl (hobj members)
      | undefined | hole => cases hw
      | null | bool | num | nonFinite =>
          cases hw
          trivial
      | str s =>
          cases hw
          exact hproper
      | date iso =>
          cases iso with
          | none =>
              cases hw
              trivial
          | some s =>
              cases hw
              exact hproper
  | arr items ih =>
      intro hproper w hw
      cases hw
      have hproper := properItems_iff.1 hproper
      refine overItems_iff.2 fun w hw => ?_
      rw [serializeItems_eq_map] at hw
      obtain ⟨v, hv, rfl⟩ := List.mem_map.1 hw
      cases hs : v.serialize with
      | none => trivial
      | some w => exact ih v hv (hproper v hv) w hs
  | obj members ih =>
      intro hproper w hw
      cases hw
      have hproper := properMembers_iff.1 hproper.2
      refine overMembers_iff.2 fun n hn => ?_
      rw [serializeMembers_eq_filterMap] at hn
      obtain ⟨m, hm, hn⟩ := List.mem_filterMap.1 hn
      obtain ⟨w, hw, rfl⟩ := Option.map_eq_some_iff.1 hn
      exact ⟨(hproper m hm).1, ih m hm (hproper m hm).2 w hw⟩

/-! ## Property order -/

/-- The index a property name is, below 2³² - 1. -/
def arrayIndex? : Units → Option Nat
  | [48] => some 0
  | name =>
      let index := name.foldl (fun n u => 10 * n + (u - 48)) 0
      if name.head?.any (fun u => 49 ≤ u) && name.all (fun u => 48 ≤ u && u ≤ 57)
          && index < 4294967295
        then some index else none

/-- `Object.fromEntries` of entries with different names: indices come first, in ascending
    order. -/
def fromEntries (entries : List (Units × Live)) : Live :=
  .obj ((entries.filter fun m => (arrayIndex? m.1).isSome).insertionSort
      (fun a b => (arrayIndex? a.1).getD 0 ≤ (arrayIndex? b.1).getD 0)
    ++ entries.filter fun m => (arrayIndex? m.1).isNone)

end Live

/-! ## Stored values -/

/-- The names of each object differ. -/
inductive Distinct : Value Number → Prop
  | null : Distinct .null
  | bool (b : Bool) : Distinct (.bool b)
  | num (n : Number) : Distinct (.num n)
  | str (s : Units) : Distinct (.str s)
  | arr {items : List (Value Number)} (h : ∀ v ∈ items, Distinct v) : Distinct (.arr items)
  | obj {members : List (Units × Value Number)} (hnodup : (members.map Prod.fst).Nodup)
      (h : ∀ m ∈ members, Distinct m.2) : Distinct (.obj members)

end LingxiOS.Stringify
