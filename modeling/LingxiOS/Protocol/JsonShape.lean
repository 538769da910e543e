-- SUMMARY: Shapes of JSON values: writing data and reading it back.
import LingxiOS.Base.Double
import LingxiOS.Base.TextCoding
import LingxiOS.Protocol.Stringify

/-! # Shapes

A shape says how data stands in a JSON value. It is read from the value as it was written, and
so also from the value's text. -/

namespace LingxiOS.Stringify

open JsonText

variable {α : Type}

theorem literal_injective : Function.Injective literal := fun _ _ h =>
  String.toList_inj.1 (List.map_injective_iff.2 (fun _ _ => Char.ext ∘ UInt32.toNat.inj) h)

@[simp] theorem literal_beq (a b : String) : (literal a == literal b) = (a == b) := by
  rw [Bool.eq_iff_iff, beq_iff_eq, beq_iff_eq, literal_injective.eq_iff]

/-- Data that is written as a value and read from one. -/
structure Shape (α : Type) where
  write : α → Value Number
  read : Value Number → Option α
  /-- What can be written. -/
  Fits : α → Prop
  read_write : ∀ a, Fits a → read (write a) = some a
  write_over : ∀ a, Fits a → (write a).Over (· < 0x10000)

/-- The text of data that fits gives it back. -/
theorem Shape.parse_write (shape : Shape α) {a : α} (h : shape.Fits a) :
    (parse (print jsStyle Number.text (shape.write a))).bind shape.read = some a := by
  rw [parse_jsStyle (shape.write_over a h), Option.bind_some, shape.read_write a h]

/-! ## Plain values -/

def valueShape : Shape (Value Number) where
  write v := v
  read := some
  Fits v := v.Over (· < 0x10000)
  read_write _ _ := rfl
  write_over _ h := h

def textShape : Shape Units where
  write := .str
  read
    | .str s => some s
    | _ => none
  Fits s := ∀ u ∈ s, u < 0x10000
  read_write _ _ := rfl
  write_over _ h := h

/-- A string without halves of pairs. -/
def stringShape : Shape String where
  write s := .str (TextCoding.units s.toList)
  read
    | .str s => some (String.ofList (TextCoding.scalars s))
    | _ => none
  Fits _ := True
  read_write s _ := by simp [TextCoding.scalars_units]
  write_over s _ := TextCoding.units_lt s.toList

def flagShape : Shape Bool where
  write := .bool
  read
    | .bool b => some b
    | _ => none
  Fits _ := True
  read_write _ _ := rfl
  write_over _ _ := trivial

/-- A number that is counted with. -/
def naturalShape : Shape Nat where
  write n := .num (.ofInt n)
  read
    | .num n => (Double.ofLiteral n).integer?.bind Int.toNat?
    | _ => none
  Fits n := n < 2 ^ 53
  read_write n h := by
    have hsafe : |(n : ℤ)| < 2 ^ 53 := by
      rw [abs_of_nonneg (Int.natCast_nonneg n)]
      exact_mod_cast h
    simp only [Double.ofLiteral_ofInt hsafe, Double.integer?_ofInt]
    rfl
  write_over _ _ := trivial

@[simp] theorem stringShape_read_write (s : String) :
    stringShape.read (stringShape.write s) = some s := stringShape.read_write s trivial

@[simp] theorem flagShape_read_write (b : Bool) : flagShape.read (flagShape.write b) = some b := rfl

def listShape (shape : Shape α) : Shape (List α) where
  write l := .arr (l.map shape.write)
  read
    | .arr items => items.mapM shape.read
    | _ => none
  Fits l := ∀ a ∈ l, shape.Fits a
  read_write l h := by
    induction l with
    | nil => rfl
    | cons a rest ih =>
        obtain ⟨hfirst, hrest⟩ := List.forall_mem_cons.1 h
        simp only [List.map_cons, List.mapM_cons, shape.read_write a hfirst]
        simp only [ih hrest]
        rfl
  write_over l h := overItems_iff.2 (List.forall_mem_map.2 fun a ha => shape.write_over a (h a ha))

@[simp] theorem strings_read_write (l : List String) :
    (listShape stringShape).read ((listShape stringShape).write l) = some l :=
  (listShape stringShape).read_write l fun _ _ => trivial

/-! ## Members -/

abbrev Members := List (Units × Value Number)

/-- `object[name]`; of two members with one name the later counts. -/
def find (name : String) (members : Members) : Option (Value Number) :=
  members.reverse.lookup (literal name)

/-- A member that is left out where its value is undefined. -/
def given (name : String) (value : Option (Value Number)) : Members :=
  value.toList.map fun v => (literal name, v)

@[simp] theorem find_append (name : String) (before behind : Members) :
    find name (before ++ behind) = (find name behind).or (find name before) := by
  rw [find, find, find, List.reverse_append, List.lookup_append]

@[simp] theorem find_given (name other : String) (value : Option (Value Number)) :
    find name (given other value) = if name == other then value else none := by
  cases value with
  | none => simp [find, given]
  | some v =>
      have hlookup : find name (given other (some v))
          = if literal name == literal other then some v else none := by
        change List.lookup (literal name) [(literal other, v)] = _
        rw [List.lookup_cons]
        cases literal name == literal other <;> rfl
      rw [hlookup, literal_beq]

theorem find_eq_none {name : String} {members : Members}
    (h : ∀ m ∈ members, m.1 ≠ literal name) : find name members = none := by
  rw [find, List.lookup_eq_none_iff]
  intro m hm
  simpa using (h m (List.mem_reverse.1 hm)).symm

theorem given_over {name : String} {value : Option (Value Number)}
    (hname : ∀ u ∈ literal name, u < 0x10000) (h : ∀ v ∈ value, v.Over (· < 0x10000)) :
    Value.OverMembers (· < 0x10000) (given name value) :=
  overMembers_iff.2 (List.forall_mem_map.2 fun v hv => ⟨hname, h v (Option.mem_toList.1 hv)⟩)

theorem given_some_over {name : String} {v : Value Number} (hname : ∀ u ∈ literal name, u < 0x10000)
    (h : v.Over (· < 0x10000)) : Value.OverMembers (· < 0x10000) (given name (some v)) :=
  given_over hname fun _ hv => Option.some.inj hv ▸ h

theorem overMembers_append {p : Nat → Prop} {before behind : Members} :
    Value.OverMembers p (before ++ behind)
      ↔ Value.OverMembers p before ∧ Value.OverMembers p behind := by
  simp only [overMembers_iff, List.forall_mem_append]

namespace Shape

variable (shape : Shape α)

/-- A member that must be there. -/
def member (name : String) (members : Members) : Option α := (find name members).bind shape.read

/-- A member that may be undefined. -/
def optional (name : String) (members : Members) : Option (Option α) :=
  (find name members).mapM shape.read

theorem optional_write {value : Option α} (h : ∀ a ∈ value, shape.Fits a) :
    (value.map shape.write).mapM shape.read = some value := by
  cases value with
  | none => rfl
  | some a => simp [shape.read_write a (h a rfl)]

theorem over_map {value : Option α} (h : ∀ a ∈ value, shape.Fits a) :
    ∀ v ∈ value.map shape.write, v.Over (· < 0x10000) := by
  intro v hv
  obtain ⟨a, ha, rfl⟩ := Option.mem_map.1 hv
  exact shape.write_over a (h a ha)

end Shape

end LingxiOS.Stringify
