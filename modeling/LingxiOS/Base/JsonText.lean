-- SUMMARY: JSON text: writing a value, a strict reader, and the round trip.
import Mathlib.Data.List.Lex
import Mathlib.Data.Nat.Digits.Defs

/-! # JSON Text

Text is a list of code units. A value is written in some style, which fixes how
strings are escaped and what stands between items, with some way to write numbers; the reader follows the JSON grammar and accepts nothing
else. Reading what was written gives the value back, number by number: a number
whose text the reader refuses makes it refuse the whole text. -/

namespace JsonText

abbrev Units := List Nat

/-! ## Values -/

/-- One digit or more. -/
structure Digits where
  head : Fin 10
  tail : List (Fin 10)
  deriving DecidableEq

/-- The whole part of a number has no leading zero. -/
inductive Whole where
  | zero
  | positive (head : Fin 9) (tail : List (Fin 10))
  deriving DecidableEq

structure Exponent where
  capital : Bool
  /-- The sign, if one is written: `true` is a minus. -/
  sign : Option Bool
  digits : Digits
  deriving DecidableEq

/-- A number literal. -/
structure Number where
  negative : Bool
  whole : Whole
  fraction : Option Digits
  exponent : Option Exponent
  deriving DecidableEq

/-- A JSON value whose numbers are of some type. -/
inductive Value (ν : Type) where
  | null
  | bool (b : Bool)
  | num (n : ν)
  | str (s : Units)
  | arr (items : List (Value ν))
  | obj (members : List (Units × Value ν))

/-- Induction over the items and the members of a value. -/
@[elab_as_elim]
theorem Value.induct {ν : Type} {P : Value ν → Prop} (null : P .null) (bool : ∀ b, P (.bool b))
    (num : ∀ n, P (.num n)) (str : ∀ s, P (.str s))
    (arr : ∀ items, (∀ v ∈ items, P v) → P (.arr items))
    (obj : ∀ members, (∀ m ∈ members, P m.2) → P (.obj members)) (v : Value ν) : P v := by
  refine @Value.rec ν P (fun items => ∀ v ∈ items, P v) (fun members => ∀ m ∈ members, P m.2)
    (fun m => P m.2) null bool num str arr obj ?nil ?cons ?none ?some ?mk v
  case nil => simp
  case cons => exact fun v items hv hitems => List.forall_mem_cons.2 ⟨hv, hitems⟩
  case none => simp
  case some => exact fun m members hm hmembers => List.forall_mem_cons.2 ⟨hm, hmembers⟩
  case mk => exact fun k v hv => hv

/-! ## Writing -/

def digitUnit (d : Fin 10) : Nat := 48 + d.val

def Digits.text (ds : Digits) : Units := digitUnit ds.head :: ds.tail.map digitUnit

def Whole.text : Whole → Units
  | .zero => [48]
  | .positive head tail => (49 + head.val) :: tail.map digitUnit

def fractionText : Option Digits → Units
  | none => []
  | some ds => 46 :: ds.text

def exponentText : Option Exponent → Units
  | none => []
  | some e =>
      (if e.capital then 69 else 101)
        :: (match e.sign with
            | none => []
            | some true => [45]
            | some false => [43]) ++ e.digits.text

def Number.text (n : Number) : Units :=
  (if n.negative then [45] else []) ++ (n.whole.text ++ (fractionText n.fraction ++
    exponentText n.exponent))

/-- The whole part of a natural number. -/
def Whole.ofNat (n : Nat) : Whole :=
  match (Nat.digits 10 n).reverse with
  | [] => .zero
  | d :: ds => .positive ⟨(d - 1) % 9, Nat.mod_lt _ (by decide)⟩ (ds.map (Fin.ofNat 10))

theorem Whole.length_ofNat (n : Nat) :
    (Whole.ofNat n).text.length = max 1 (Nat.digits 10 n).length := by
  unfold Whole.ofNat
  split
  case h_1 hnil =>
    have hdigits : Nat.digits 10 n = [] := List.reverse_eq_nil_iff.1 hnil
    rw [hdigits]
    rfl
  case h_2 first rest hdigits =>
    have hlength := congrArg List.length hdigits
    simp only [List.length_reverse, List.length_cons] at hlength
    simp only [Whole.text, List.length_cons, List.length_map]
    omega

/-- The literal of an integer. -/
def Number.ofInt (n : Int) : Number := ⟨decide (n < 0), .ofNat n.natAbs, none, none⟩

theorem Number.length_ofInt {n : Int} (h : 0 ≤ n) :
    (Number.ofInt n).text.length = max 1 (Nat.digits 10 n.natAbs).length := by
  have hsign : decide (n < 0) = false := decide_eq_false (by omega)
  simp [Number.text, Number.ofInt, hsign, fractionText, exponentText, Whole.length_ofNat]

example : (Number.ofInt (-1203)).text = [45, 49, 50, 48, 51] := by decide +kernel

/-- How strings and the gaps between items are written. -/
structure Style where
  escape : Units → Units
  comma : Units
  colon : Units

section Print

variable {ν : Type} (style : Style) (write : ν → Units)

def quote (s : Units) : Units := 34 :: style.escape s ++ [34]

mutual

def print : Value ν → Units
  | .null => [110, 117, 108, 108]
  | .bool true => [116, 114, 117, 101]
  | .bool false => [102, 97, 108, 115, 101]
  | .num n => write n
  | .str s => quote style s
  | .arr items => 91 :: printItems items ++ [93]
  | .obj members => 123 :: printMembers members ++ [125]

def printItems : List (Value ν) → Units
  | [] => []
  | [v] => print v
  | v :: w :: rest => print v ++ style.comma ++ printItems (w :: rest)

def printMembers : List (Units × Value ν) → Units
  | [] => []
  | [(k, v)] => quote style k ++ style.colon ++ print v
  | (k, v) :: m :: rest =>
      quote style k ++ style.colon ++ print v ++ style.comma ++ printMembers (m :: rest)

end

end Print

/-! ## Reading -/

/-- JSON white space. -/
def isSpace (u : Nat) : Bool := u == 32 || u == 9 || u == 10 || u == 13

def skipSpace : Units → Units
  | [] => []
  | u :: rest => if isSpace u then skipSpace rest else u :: rest

def digit? (u : Nat) : Option (Fin 10) :=
  if h : 48 ≤ u ∧ u < 58 then some ⟨u - 48, by omega⟩ else none

def takeDigits : Units → List (Fin 10) × Units
  | [] => ([], [])
  | u :: rest =>
      match digit? u with
      | none => ([], u :: rest)
      | some d => (d :: (takeDigits rest).1, (takeDigits rest).2)

def readDigits (text : Units) : Option (Digits × Units) :=
  match takeDigits text with
  | ([], _) => none
  | (d :: ds, rest) => some (⟨d, ds⟩, rest)

def readWhole : Units → Option (Whole × Units)
  | [] => none
  | u :: rest =>
      if u = 48 then some (.zero, rest)
      else if h : 49 ≤ u ∧ u < 58 then
        some (.positive ⟨u - 49, by omega⟩ (takeDigits rest).1, (takeDigits rest).2)
      else none

def readFraction : Units → Option (Option Digits × Units)
  | [] => some (none, [])
  | u :: rest =>
      if u = 46 then (readDigits rest).map (fun r => (some r.1, r.2)) else some (none, u :: rest)

/-- The sign of an exponent, if there is one. -/
def readSign : Units → Option Bool × Units
  | [] => (none, [])
  | u :: rest =>
      if u = 45 then (some true, rest) else if u = 43 then (some false, rest) else (none, u :: rest)

def readExponent : Units → Option (Option Exponent × Units)
  | [] => some (none, [])
  | u :: rest =>
      if u = 69 ∨ u = 101 then
        (readDigits (readSign rest).2).map
          (fun r => (some ⟨decide (u = 69), (readSign rest).1, r.1⟩, r.2))
      else some (none, u :: rest)

/-- A leading minus. -/
def readMinus : Units → Bool × Units
  | [] => (false, [])
  | u :: rest => if u = 45 then (true, rest) else (false, u :: rest)

def readNumber (text : Units) : Option (Number × Units) :=
  (readWhole (readMinus text).2).bind fun whole =>
    (readFraction whole.2).bind fun fraction =>
      (readExponent fraction.2).map fun exponent =>
        (⟨(readMinus text).1, whole.1, fraction.1, exponent.1⟩, exponent.2)

def hexDigit? (u : Nat) : Option Nat :=
  if 48 ≤ u ∧ u < 58 then some (u - 48)
  else if 97 ≤ u ∧ u < 103 then some (u - 87)
  else if 65 ≤ u ∧ u < 71 then some (u - 55)
  else none

/-- The unit a four-digit escape stands for. -/
def readHex (a b c d : Nat) : Option Nat :=
  (hexDigit? a).bind fun a => (hexDigit? b).bind fun b => (hexDigit? c).bind fun c =>
    (hexDigit? d).map fun d => a * 4096 + b * 256 + c * 16 + d

/-- The unit a short escape stands for. -/
def shortEscape? (u : Nat) : Option Nat :=
  if u = 34 then some 34 else if u = 92 then some 92 else if u = 47 then some 47
  else if u = 98 then some 8 else if u = 102 then some 12 else if u = 110 then some 10
  else if u = 114 then some 13 else if u = 116 then some 9 else none

/-- The rest of a string after its opening quote. -/
def readString : Units → Option (Units × Units)
  | [] => none
  | 34 :: rest => some ([], rest)
  | 92 :: 117 :: a :: b :: c :: d :: rest =>
      (readHex a b c d).bind fun u => (readString rest).map fun r => (u :: r.1, r.2)
  | 92 :: e :: rest =>
      (shortEscape? e).bind fun u => (readString rest).map fun r => (u :: r.1, r.2)
  | u :: rest =>
      if u < 32 ∨ u = 92 then none else (readString rest).map fun r => (u :: r.1, r.2)

mutual

def readValue : Nat → Units → Option (Value Number × Units)
  | 0, _ => none
  | fuel + 1, text =>
      match skipSpace text with
      | 110 :: 117 :: 108 :: 108 :: rest => some (.null, rest)
      | 116 :: 114 :: 117 :: 101 :: rest => some (.bool true, rest)
      | 102 :: 97 :: 108 :: 115 :: 101 :: rest => some (.bool false, rest)
      | 34 :: rest => (readString rest).map fun r => (.str r.1, r.2)
      | 91 :: rest =>
          match skipSpace rest with
          | 93 :: rest => some (.arr [], rest)
          | rest => (readItems fuel rest).map fun r => (.arr r.1, r.2)
      | 123 :: rest =>
          match skipSpace rest with
          | 125 :: rest => some (.obj [], rest)
          | rest => (readMembers fuel rest).map fun r => (.obj r.1, r.2)
      | text => (readNumber text).map fun r => (.num r.1, r.2)

def readItems : Nat → Units → Option (List (Value Number) × Units)
  | 0, _ => none
  | fuel + 1, text =>
      (readValue fuel text).bind fun v =>
        match skipSpace v.2 with
        | 44 :: rest => (readItems fuel rest).map fun r => (v.1 :: r.1, r.2)
        | 93 :: rest => some ([v.1], rest)
        | _ => none

def readMembers : Nat → Units → Option (List (Units × Value Number) × Units)
  | 0, _ => none
  | fuel + 1, text =>
      match skipSpace text with
      | 34 :: rest =>
          (readString rest).bind fun k =>
            match skipSpace k.2 with
            | 58 :: rest =>
                (readValue fuel rest).bind fun v =>
                  match skipSpace v.2 with
                  | 44 :: rest => (readMembers fuel rest).map fun r => ((k.1, v.1) :: r.1, r.2)
                  | 125 :: rest => some ([(k.1, v.1)], rest)
                  | _ => none
            | _ => none
      | _ => none

end

/-- The value of a text that is one JSON value and nothing else. -/
def parse (text : Units) : Option (Value Number) :=
  (readValue (text.length + 1) text).bind fun r => if skipSpace r.2 = [] then some r.1 else none

/-! ## Numbers -/

/-- What may follow a number without being taken for a part of it. -/
def Stops : Units → Prop
  | [] => True
  | u :: _ => digit? u = none ∧ u ≠ 46 ∧ u ≠ 69 ∧ u ≠ 101

/-- The next unit is no digit. -/
def NoDigit : Units → Prop
  | [] => True
  | u :: _ => digit? u = none

theorem Stops.noDigit {rest : Units} (h : Stops rest) : NoDigit rest := by
  cases rest with
  | nil => trivial
  | cons u rest => exact h.1

@[simp] theorem digit?_digitUnit (d : Fin 10) : digit? (digitUnit d) = some d := by
  have hd := d.isLt
  simp [digit?, digitUnit]
  omega

theorem takeDigits_map (ds : List (Fin 10)) {rest : Units} (hrest : NoDigit rest) :
    takeDigits (ds.map digitUnit ++ rest) = (ds, rest) := by
  induction ds with
  | nil =>
      cases rest with
      | nil => rfl
      | cons u rest => simp [takeDigits, show digit? u = none from hrest]
  | cons d ds ih => simp [takeDigits, ih]

theorem readDigits_text (ds : Digits) {rest : Units} (hrest : NoDigit rest) :
    readDigits (ds.text ++ rest) = some (ds, rest) := by
  have htake := takeDigits_map (ds.head :: ds.tail) hrest
  simp only [List.map_cons] at htake
  simp only [readDigits, Digits.text, htake]

theorem readWhole_text (w : Whole) {rest : Units} (hrest : NoDigit rest) :
    readWhole (w.text ++ rest) = some (w, rest) := by
  cases w with
  | zero => simp [readWhole, Whole.text]
  | positive head tail =>
      have hhead := head.isLt
      have hne : 49 + head.val ≠ 48 := by omega
      have hrange : 49 ≤ 49 + head.val ∧ 49 + head.val < 58 := by omega
      simp [readWhole, Whole.text, hne, hrange, takeDigits_map tail hrest]

theorem noDigit_exponentText (e : Option Exponent) {rest : Units} (hrest : NoDigit rest) :
    NoDigit (exponentText e ++ rest) := by
  cases e with
  | none => exact hrest
  | some e =>
      cases hcapital : e.capital with
      | true => simp [exponentText, hcapital, NoDigit, digit?]
      | false => simp [exponentText, hcapital, NoDigit, digit?]

theorem readFraction_text (f : Option Digits) {rest : Units} (hrest : NoDigit rest)
    (hdot : rest.head? ≠ some 46) :
    readFraction (fractionText f ++ rest) = some (f, rest) := by
  cases f with
  | none =>
      cases rest with
      | nil => rfl
      | cons u rest =>
          have hu : u ≠ 46 := by simpa using hdot
          simp [fractionText, readFraction, hu]
  | some ds => simp [fractionText, readFraction, readDigits_text ds hrest]

theorem readExponent_text (e : Option Exponent) {rest : Units} (hrest : Stops rest) :
    readExponent (exponentText e ++ rest) = some (e, rest) := by
  cases e with
  | none =>
      cases rest with
      | nil => rfl
      | cons u rest =>
          obtain ⟨-, -, hupper, hlower⟩ := hrest
          simp [exponentText, readExponent, hupper, hlower]
  | some e =>
      obtain ⟨capital, sign, ds⟩ := e
      have hsign : readSign ((match sign with
          | none => []
          | some true => [45]
          | some false => [43]) ++ (ds.text ++ rest)) = (sign, ds.text ++ rest) := by
        have hhead := ds.head.isLt
        cases sign with
        | none =>
            have h45 : 48 + ds.head.val ≠ 45 := by omega
            have h43 : 48 + ds.head.val ≠ 43 := by omega
            simp [readSign, Digits.text, digitUnit, h45, h43]
        | some negative => cases negative <;> simp [readSign]
      cases capital with
      | true => simp [exponentText, readExponent, hsign, readDigits_text ds hrest.noDigit]
      | false => simp [exponentText, readExponent, hsign, readDigits_text ds hrest.noDigit]

/-- A number literal is read to its end. -/
theorem readNumber_text (n : Number) {rest : Units} (hrest : Stops rest) :
    readNumber (n.text ++ rest) = some (n, rest) := by
  obtain ⟨negative, whole, fraction, exponent⟩ := n
  have hminus : readMinus ((if negative then [45] else []) ++ (whole.text ++
      (fractionText fraction ++ (exponentText exponent ++ rest))))
      = (negative, whole.text ++ (fractionText fraction ++ (exponentText exponent ++ rest))) := by
    cases negative with
    | true => simp [readMinus]
    | false =>
        cases whole with
        | zero => simp [readMinus, Whole.text]
        | positive head tail =>
            have hne : 49 + head.val ≠ 45 := by omega
            simp [readMinus, Whole.text, hne]
  have hexponent := noDigit_exponentText exponent hrest.noDigit
  have hdot : (exponentText exponent ++ rest).head? ≠ some 46 := by
    cases exponent with
    | none =>
        cases rest with
        | nil => simp [exponentText]
        | cons u rest => simpa [exponentText] using hrest.2.1
    | some e => cases hcapital : e.capital <;> simp [exponentText, hcapital]
  have hfraction : NoDigit (fractionText fraction ++ (exponentText exponent ++ rest)) := by
    cases fraction with
    | none => exact hexponent
    | some ds => simp [fractionText, NoDigit, digit?]
  simp only [readNumber, Number.text, List.append_assoc, hminus, readWhole_text whole hfraction,
    readFraction_text fraction hexponent hdot, readExponent_text exponent hrest, Option.bind_some,
    Option.map_some]

/-- The characters a number is written with: digits, signs, the dot and the exponent's letter. -/
theorem Number.text_plain (n : Number) :
    ∀ u ∈ n.text, (48 ≤ u ∧ u < 58) ∨ u = 43 ∨ u = 45 ∨ u = 46 ∨ u = 69 ∨ u = 101 := by
  have hdigits : ∀ ds : List (Fin 10), ∀ u ∈ ds.map digitUnit,
      (48 ≤ u ∧ u < 58) ∨ u = 43 ∨ u = 45 ∨ u = 46 ∨ u = 69 ∨ u = 101 := by
    intro ds u hu
    obtain ⟨d, -, rfl⟩ := List.mem_map.1 hu
    have hd := d.isLt
    simp only [digitUnit]
    omega
  have hsome : ∀ ds : Digits, ∀ u ∈ ds.text,
      (48 ≤ u ∧ u < 58) ∨ u = 43 ∨ u = 45 ∨ u = 46 ∨ u = 69 ∨ u = 101 := fun ds =>
    hdigits (ds.head :: ds.tail)
  obtain ⟨negative, whole, fraction, exponent⟩ := n
  simp only [Number.text, List.mem_append]
  rintro u (hu | hu | hu | hu)
  · cases negative <;> simp_all
  · cases whole with
    | zero => simp_all [Whole.text]
    | positive head tail =>
        have hhead := head.isLt
        rcases List.mem_cons.1 hu with rfl | hu
        · omega
        · exact hdigits tail u hu
  · cases fraction with
    | none => simp [fractionText] at hu
    | some ds =>
        rcases List.mem_cons.1 hu with rfl | hu
        · omega
        · exact hsome ds u hu
  · cases exponent with
    | none => simp [exponentText] at hu
    | some e =>
        rcases List.mem_append.1 hu with hu | hu
        · rcases List.mem_cons.1 hu with rfl | hu
          · split <;> omega
          · obtain ⟨capital, sign, ds⟩ := e
            rcases sign with - | - | - <;> simp_all
        · exact hsome e.digits u hu

theorem Number.text_bounds (n : Number) : ∀ u ∈ n.text, 43 ≤ u ∧ u ≤ 101 := by
  intro u hu
  have hplain := n.text_plain u hu
  omega

/-! ## Reading what was written -/

namespace Value

variable {ν : Type}

mutual

/-- The value a reader finds, if every number can be read: characters become
    units, and numbers what their text denotes. -/
def denote (number : ν → Option Number) (encode : Units → Units) :
    Value ν → Option (Value Number)
  | .null => some .null
  | .bool b => some (.bool b)
  | .num n => (number n).map .num
  | .str s => some (.str (encode s))
  | .arr items => (denoteItems number encode items).map .arr
  | .obj members => (denoteMembers number encode members).map .obj

def denoteItems (number : ν → Option Number) (encode : Units → Units) :
    List (Value ν) → Option (List (Value Number))
  | [] => some []
  | v :: rest =>
      (denote number encode v).bind fun w => (denoteItems number encode rest).map (w :: ·)

def denoteMembers (number : ν → Option Number) (encode : Units → Units) :
    List (Units × Value ν) → Option (List (Units × Value Number))
  | [] => some []
  | (k, v) :: rest =>
      (denote number encode v).bind fun w =>
        (denoteMembers number encode rest).map ((encode k, w) :: ·)

end

mutual

/-- Every character of every string satisfies a predicate. -/
def Over (p : Nat → Prop) : Value ν → Prop
  | .str s => ∀ u ∈ s, p u
  | .arr items => OverItems p items
  | .obj members => OverMembers p members
  | _ => True

def OverItems (p : Nat → Prop) : List (Value ν) → Prop
  | [] => True
  | v :: rest => Over p v ∧ OverItems p rest

def OverMembers (p : Nat → Prop) : List (Units × Value ν) → Prop
  | [] => True
  | (k, v) :: rest => (∀ u ∈ k, p u) ∧ Over p v ∧ OverMembers p rest

end

mutual

/-- How deep a reader has to recurse. -/
def height : Value ν → Nat
  | .arr items => 1 + heightItems items
  | .obj members => 1 + heightMembers members
  | _ => 1

def heightItems : List (Value ν) → Nat
  | [] => 0
  | v :: rest => 1 + max (height v) (heightItems rest)

def heightMembers : List (Units × Value ν) → Nat
  | [] => 0
  | (_, v) :: rest => 1 + max (height v) (heightMembers rest)

end

theorem one_le_height (v : Value ν) : 1 ≤ v.height := by
  cases v <;> simp [height]

end Value

/-- A style whose strings and gaps read back. -/
structure Style.Sound (style : Style) (encode : Units → Units) (p : Nat → Prop) : Prop where
  escape : ∀ s, (∀ u ∈ s, p u) → ∀ rest,
    readString (style.escape s ++ (34 :: rest)) = some (encode s, rest)
  comma : ∃ gap, style.comma = 44 :: gap ∧ ∀ u ∈ gap, isSpace u = true
  colon : ∃ gap, style.colon = 58 :: gap ∧ ∀ u ∈ gap, isSpace u = true

/-- The first unit of a number, or of what is written in its place. -/
def StartsNumber (u : Nat) : Prop :=
  isSpace u = false ∧ u ≠ 34 ∧ u ≠ 91 ∧ u ≠ 93 ∧ u ≠ 102 ∧ u ≠ 110 ∧ u ≠ 116 ∧ u ≠ 123

instance (u : Nat) : Decidable (StartsNumber u) :=
  inferInstanceAs (Decidable (_ ∧ _ ∧ _ ∧ _ ∧ _ ∧ _ ∧ _ ∧ _))

/-- Numbers whose text is read as what they denote, or refused. -/
structure Writes {ν : Type} (write : ν → Units) (number : ν → Option Number) : Prop where
  starts : ∀ n, ∃ u us, write n = u :: us ∧ StartsNumber u
  read : ∀ n rest, Stops rest → readNumber (write n ++ rest) = (number n).map fun m => (m, rest)

theorem skipSpace_of_not {u : Nat} (rest : Units) (h : isSpace u = false) :
    skipSpace (u :: rest) = u :: rest := by
  simp [skipSpace, h]

theorem skipSpace_gap {gap : Units} (h : ∀ u ∈ gap, isSpace u = true) (rest : Units) :
    skipSpace (gap ++ rest) = skipSpace rest := by
  induction gap with
  | nil => rfl
  | cons u gap ih =>
      obtain ⟨hu, hgap⟩ := List.forall_mem_cons.1 h
      simp [skipSpace, hu, ih hgap]

theorem readValue_gap {gap : Units} (h : ∀ u ∈ gap, isSpace u = true) (fuel : Nat)
    (rest : Units) : readValue fuel (gap ++ rest) = readValue fuel rest := by
  cases fuel with
  | zero => simp only [readValue]
  | succ fuel => simp only [readValue, skipSpace_gap h]

theorem readItems_gap {gap : Units} (h : ∀ u ∈ gap, isSpace u = true) (fuel : Nat)
    (rest : Units) : readItems fuel (gap ++ rest) = readItems fuel rest := by
  cases fuel with
  | zero => simp only [readItems]
  | succ fuel => simp only [readItems, readValue_gap h]

theorem readMembers_gap {gap : Units} (h : ∀ u ∈ gap, isSpace u = true) (fuel : Nat)
    (rest : Units) : readMembers fuel (gap ++ rest) = readMembers fuel rest := by
  cases fuel with
  | zero => simp only [readMembers]
  | succ fuel => simp only [readMembers, skipSpace_gap h]

section

variable {ν : Type} {style : Style} {write : ν → Units} {number : ν → Option Number}
  {encode : Units → Units} {p : Nat → Prop}

/-- Strings read back when each of their characters does. -/
theorem readString_flatMap {escape encode : Nat → Units}
    (h : ∀ c, p c → ∀ rest, readString (escape c ++ rest)
      = (readString rest).map fun r => (encode c ++ r.1, r.2))
    (s : Units) (hs : ∀ u ∈ s, p u) (rest : Units) :
    readString (s.flatMap escape ++ (34 :: rest)) = some (s.flatMap encode, rest) := by
  induction s with
  | nil => simp [readString]
  | cons c s ih =>
      obtain ⟨hc, hs⟩ := List.forall_mem_cons.1 hs
      rw [List.flatMap_cons, List.append_assoc, h c hc, ih hs]
      simp

/-- A written value starts with a unit that no list ends with. -/
theorem print_head (hwrites : Writes write number) (v : Value ν) :
    ∃ u us, print style write v = u :: us ∧ isSpace u = false ∧ u ≠ 93 := by
  cases v with
  | null => exact ⟨_, _, rfl, rfl, by decide⟩
  | bool b => cases b <;> exact ⟨_, _, rfl, rfl, by decide⟩
  | num n =>
      obtain ⟨u, us, hprint, hspace, -, -, h93, -⟩ := hwrites.starts n
      exact ⟨u, us, hprint, hspace, h93⟩
  | str s => exact ⟨_, _, rfl, rfl, by decide⟩
  | arr items => exact ⟨_, _, rfl, rfl, by decide⟩
  | obj members => exact ⟨_, _, rfl, rfl, by decide⟩

theorem readValue_number (hwrites : Writes write number) (n : ν) (fuel : Nat) {rest : Units}
    (hrest : Stops rest) : readValue (fuel + 1) (write n ++ rest)
      = ((number n).map .num).map fun v => (v, rest) := by
  obtain ⟨u, us, hwrite, hspace, h34, h91, -, h102, h110, h116, h123⟩ := hwrites.starts n
  have hread := hwrites.read n rest hrest
  rw [hwrite, List.cons_append] at hread ⊢
  simp only [readValue, skipSpace_of_not _ hspace]
  split <;> simp_all [Option.map_map, Function.comp_def]

theorem quote_head (style : Style) (s rest : Units) :
    quote style s ++ rest = 34 :: (style.escape s ++ (34 :: rest)) := by
  simp [quote]

theorem stops_comma (hstyle : style.Sound encode p) (rest : Units) :
    Stops (style.comma ++ rest) := by
  obtain ⟨gap, hcomma, -⟩ := hstyle.comma
  simp [hcomma, Stops, digit?]

theorem stops_close (rest : Units) : Stops (93 :: rest) ∧ Stops (125 :: rest) := by
  simp [Stops, digit?]

mutual

/-- Reading a written value, with enough fuel, gives what its numbers denote. -/
theorem readValue_print (hstyle : style.Sound encode p) (hwrites : Writes write number) :
    (fuel : Nat) → (v : Value ν) → v.height ≤ fuel → v.Over p → (rest : Units) → Stops rest →
      readValue fuel (print style write v ++ rest)
        = (v.denote number encode).map fun w => (w, rest)
  | 0, v, hfuel, _, _, _ => by have := v.one_le_height; omega
  | fuel + 1, .null, _, _, rest, _ => by simp [readValue, print, Value.denote, skipSpace, isSpace]
  | fuel + 1, .bool b, _, _, rest, _ => by
      cases b <;> simp [readValue, print, Value.denote, skipSpace, isSpace]
  | fuel + 1, .num n, _, _, rest, hrest => readValue_number hwrites n fuel hrest
  | fuel + 1, .str s, _, hover, rest, _ => by
      have hread := hstyle.escape s hover rest
      simp [readValue, print, quote_head, Value.denote, skipSpace, isSpace, hread]
  | fuel + 1, .arr [], _, _, rest, _ => by
      simp [readValue, print, printItems, Value.denote, Value.denoteItems, skipSpace, isSpace]
  | fuel + 1, .arr (v :: vs), hfuel, hover, rest, _ => by
      have hheight : Value.heightItems (v :: vs) ≤ fuel := by
        simp only [Value.height] at hfuel; omega
      have hread := readItems_print hstyle hwrites fuel (v :: vs) hheight hover (by simp) rest
      obtain ⟨u, us, hprint, hspace, h93⟩ : ∃ u us, printItems style write (v :: vs) = u :: us ∧
          isSpace u = false ∧ u ≠ 93 := by
        obtain ⟨u, us, hprint, hspace, h93⟩ : ∃ u us, print style write v = u :: us ∧
            isSpace u = false ∧ u ≠ 93 := print_head hwrites v
        cases vs with
        | nil => exact ⟨u, us, by simpa [printItems] using hprint, hspace, h93⟩
        | cons w vs =>
            exact ⟨u, us ++ style.comma ++ printItems style write (w :: vs),
              by simp [printItems, hprint], hspace, h93⟩
      rw [hprint, List.cons_append] at hread
      simp only [readValue, print, hprint, List.cons_append, List.append_assoc, List.nil_append,
        skipSpace_of_not _ (show isSpace 91 = false from rfl), skipSpace_of_not _ hspace]
      split
      · simp_all
      · simp [hread, Value.denote, Option.map_map, Function.comp_def]
  | fuel + 1, .obj [], _, _, rest, _ => by
      simp [readValue, print, printMembers, Value.denote, Value.denoteMembers, skipSpace, isSpace]
  | fuel + 1, .obj ((k, v) :: ms), hfuel, hover, rest, _ => by
      have hheight : Value.heightMembers ((k, v) :: ms) ≤ fuel := by
        simp only [Value.height] at hfuel; omega
      have hread := readMembers_print hstyle hwrites fuel ((k, v) :: ms) hheight hover (by simp)
        rest
      obtain ⟨us, hprint⟩ : ∃ us, printMembers style write ((k, v) :: ms) = 34 :: us := by
        cases ms with
        | nil => exact ⟨_, by simp only [printMembers, quote, List.cons_append]; rfl⟩
        | cons m ms => exact ⟨_, by simp only [printMembers, quote, List.cons_append]; rfl⟩
      rw [hprint, List.cons_append] at hread
      simp only [readValue, print, hprint, List.cons_append, List.append_assoc, List.nil_append,
        skipSpace_of_not _ (show isSpace 123 = false from rfl),
        skipSpace_of_not _ (show isSpace 34 = false from rfl), hread]
      simp [Value.denote, Option.map_map, Function.comp_def]

theorem readItems_print (hstyle : style.Sound encode p) (hwrites : Writes write number) :
    (fuel : Nat) → (vs : List (Value ν)) → Value.heightItems vs ≤ fuel → Value.OverItems p vs →
      vs ≠ [] → (rest : Units) →
      readItems fuel (printItems style write vs ++ (93 :: rest))
        = (Value.denoteItems number encode vs).map fun w => (w, rest)
  | _, [], _, _, hne, _ => absurd rfl hne
  | 0, v :: vs, hfuel, _, _, _ => by simp [Value.heightItems] at hfuel
  | fuel + 1, [v], hfuel, hover, _, rest => by
      have hheight : v.height ≤ fuel := by simp only [Value.heightItems] at hfuel; omega
      have hread := readValue_print hstyle hwrites fuel v hheight hover.1 (93 :: rest)
        (stops_close rest).1
      cases hdenote : v.denote number encode with
      | none => simp [readItems, printItems, Value.denoteItems, hread, hdenote]
      | some w =>
          simp [readItems, printItems, Value.denoteItems, hread, hdenote, skipSpace, isSpace]
  | fuel + 1, v :: w :: vs, hfuel, hover, _, rest => by
      have hheight : v.height ≤ fuel := by simp only [Value.heightItems] at hfuel; omega
      have hrest : Value.heightItems (w :: vs) ≤ fuel := by
        simp only [Value.heightItems] at hfuel ⊢; omega
      have htail := readItems_print hstyle hwrites fuel (w :: vs) hrest hover.2 (by simp) rest
      have hread := readValue_print hstyle hwrites fuel v hheight hover.1
        (style.comma ++ (printItems style write (w :: vs) ++ (93 :: rest))) (stops_comma hstyle _)
      obtain ⟨gap, hcomma, hgap⟩ := hstyle.comma
      simp only [readItems, printItems, List.append_assoc, hread, Value.denoteItems]
      cases hdenote : v.denote number encode with
      | none => simp
      | some v' =>
          simp only [Option.map_some, Option.bind_some, hcomma, List.cons_append,
            skipSpace_of_not _ (show isSpace 44 = false from rfl), readItems_gap hgap, htail]
          simp [Value.denoteItems, Option.map_map, Function.comp_def]

theorem readMembers_print (hstyle : style.Sound encode p) (hwrites : Writes write number) :
    (fuel : Nat) → (ms : List (Units × Value ν)) → Value.heightMembers ms ≤ fuel →
      Value.OverMembers p ms → ms ≠ [] → (rest : Units) →
      readMembers fuel (printMembers style write ms ++ (125 :: rest))
        = (Value.denoteMembers number encode ms).map fun w => (w, rest)
  | _, [], _, _, hne, _ => absurd rfl hne
  | 0, (k, v) :: ms, hfuel, _, _, _ => by simp [Value.heightMembers] at hfuel
  | fuel + 1, [(k, v)], hfuel, hover, _, rest => by
      have hheight : v.height ≤ fuel := by simp only [Value.heightMembers] at hfuel; omega
      have hread := readValue_print hstyle hwrites fuel v hheight hover.2.1 (125 :: rest)
        (stops_close rest).2
      obtain ⟨gap, hcolon, hgap⟩ := hstyle.colon
      have hkey := hstyle.escape k hover.1
        (style.colon ++ (print style write v ++ (125 :: rest)))
      simp only [readMembers, printMembers, quote, List.append_assoc, List.cons_append,
        List.nil_append, skipSpace_of_not _ (show isSpace 34 = false from rfl), hkey,
        Option.bind_some]
      rw [hcolon, List.cons_append, skipSpace_of_not _ (show isSpace 58 = false from rfl)]
      simp only [readValue_gap hgap, hread, Value.denoteMembers]
      cases hdenote : v.denote number encode with
      | none => simp
      | some w => simp [skipSpace, isSpace]
  | fuel + 1, (k, v) :: m :: ms, hfuel, hover, _, rest => by
      have hheight : v.height ≤ fuel := by simp only [Value.heightMembers] at hfuel; omega
      have hrest : Value.heightMembers (m :: ms) ≤ fuel := by
        simp only [Value.heightMembers] at hfuel ⊢; omega
      have htail := readMembers_print hstyle hwrites fuel (m :: ms) hrest hover.2.2 (by simp) rest
      have hread := readValue_print hstyle hwrites fuel v hheight hover.2.1
        (style.comma ++ (printMembers style write (m :: ms) ++ (125 :: rest)))
        (stops_comma hstyle _)
      obtain ⟨gap, hcolon, hgap⟩ := hstyle.colon
      obtain ⟨gap', hcomma, hgap'⟩ := hstyle.comma
      have hkey := hstyle.escape k hover.1 (style.colon ++ (print style write v ++
        (style.comma ++ (printMembers style write (m :: ms) ++ (125 :: rest)))))
      simp only [readMembers, printMembers, quote, List.append_assoc, List.cons_append,
        List.nil_append, skipSpace_of_not _ (show isSpace 34 = false from rfl), hkey,
        Option.bind_some]
      rw [hcolon, List.cons_append, skipSpace_of_not _ (show isSpace 58 = false from rfl)]
      simp only [readValue_gap hgap, hread, Value.denoteMembers]
      cases hdenote : v.denote number encode with
      | none => simp
      | some w =>
          simp only [Option.map_some, Option.bind_some, hcomma, List.cons_append,
            skipSpace_of_not _ (show isSpace 44 = false from rfl), readMembers_gap hgap', htail]
          simp [Value.denoteMembers, Option.map_map, Function.comp_def]

end

mutual

theorem height_le_length (hwrites : Writes write number) :
    (v : Value ν) → v.height ≤ (print style write v).length
  | .null => by simp [Value.height, print]
  | .bool b => by cases b <;> simp [Value.height, print]
  | .num n => by
      obtain ⟨u, us, hwrite, -⟩ := hwrites.starts n
      simp [Value.height, print, hwrite]
  | .str s => by simp [Value.height, print, quote]
  | .arr items => by
      have := heightItems_le_length hwrites items
      simp only [Value.height, print, List.cons_append, List.length_cons, List.length_append,
        List.length_nil]
      omega
  | .obj members => by
      have := heightMembers_le_length hwrites members
      simp only [Value.height, print, List.cons_append, List.length_cons, List.length_append,
        List.length_nil]
      omega

theorem heightItems_le_length (hwrites : Writes write number) :
    (vs : List (Value ν)) → Value.heightItems vs ≤ (printItems style write vs).length + 1
  | [] => by simp [Value.heightItems]
  | [v] => by
      have := height_le_length hwrites v
      simp only [Value.heightItems, printItems]
      omega
  | v :: w :: vs => by
      have := height_le_length hwrites v
      have := heightItems_le_length hwrites (w :: vs)
      have hpos : 0 < (print style write v).length := by
        obtain ⟨u, us, hprint, -⟩ := print_head hwrites v
        rw [hprint]
        exact Nat.succ_pos _
      rw [Value.heightItems]
      simp only [printItems, List.length_append]
      omega

theorem heightMembers_le_length (hwrites : Writes write number) :
    (ms : List (Units × Value ν)) →
      Value.heightMembers ms ≤ (printMembers style write ms).length + 1
  | [] => by simp [Value.heightMembers]
  | [(k, v)] => by
      have := height_le_length hwrites v
      simp only [Value.heightMembers, printMembers, List.length_append]
      omega
  | (k, v) :: m :: ms => by
      have := height_le_length hwrites v
      have := heightMembers_le_length hwrites (m :: ms)
      rw [Value.heightMembers]
      simp only [printMembers, quote, List.length_append, List.length_cons]
      omega

end

/-- A written value, with white space after it, is parsed as what it denotes. -/
theorem parse_print (hstyle : style.Sound encode p) (hwrites : Writes write number) {v : Value ν}
    (hover : v.Over p) {gap : Units} (hgap : ∀ u ∈ gap, isSpace u = true) :
    parse (print style write v ++ gap) = v.denote number encode := by
  have hfuel : v.height ≤ (print style write v ++ gap).length + 1 := by
    have hheight : v.height ≤ (print style write v).length := height_le_length hwrites v
    simp only [List.length_append]
    omega
  have hstops : Stops gap := by
    cases gap with
    | nil => trivial
    | cons u gap =>
        have hu := hgap u List.mem_cons_self
        simp only [isSpace, Bool.or_eq_true, beq_iff_eq] at hu
        simp only [Stops, digit?]
        rcases hu with ((rfl | rfl) | rfl) | rfl <;> simp
  have hskip : skipSpace gap = [] := by
    simpa [skipSpace] using skipSpace_gap hgap []
  rw [parse, readValue_print hstyle hwrites _ v hfuel hover gap hstops]
  cases v.denote number encode with
  | none => rfl
  | some w => simp [hskip]

end

/-! ## The characters of a text -/

section

variable {ν : Type} {style : Style} {write : ν → Units}

/-- What values are written with besides their strings and numbers. -/
def marks : Units :=
  [34, 91, 93, 123, 125] ++ [110, 117, 108, 108] ++ [116, 114, 117, 101] ++ [102, 97, 108, 115, 101]

/-- A predicate of every character a style writes, for strings over another. -/
structure Style.Within (style : Style) (write : ν → Units) (p q : Nat → Prop) : Prop where
  marks : ∀ u ∈ marks, q u
  escape : ∀ s, (∀ u ∈ s, p u) → ∀ u ∈ style.escape s, q u
  comma : ∀ u ∈ style.comma, q u
  colon : ∀ u ∈ style.colon, q u
  number : ∀ n, ∀ u ∈ write n, q u

theorem quote_within {p q : Nat → Prop} (h : style.Within write p q) {s : Units}
    (hs : ∀ u ∈ s, p u) : ∀ u ∈ quote style s, q u := by
  have hquote := h.marks 34 (by decide)
  simp only [quote, List.cons_append, List.mem_cons, List.mem_append, List.not_mem_nil, or_false]
  rintro u (rfl | hu | rfl)
  · exact hquote
  · exact h.escape s hs u hu
  · exact hquote

mutual

theorem print_within {p q : Nat → Prop} (h : style.Within write p q) :
    (v : Value ν) → v.Over p → ∀ u ∈ print style write v, q u
  | .null, _ => fun u hu => h.marks u (by simp [print, marks] at hu ⊢; omega)
  | .bool true, _ => fun u hu => h.marks u (by simp [print, marks] at hu ⊢; omega)
  | .bool false, _ => fun u hu => h.marks u (by simp [print, marks] at hu ⊢; omega)
  | .num n, _ => h.number n
  | .str s, hs => quote_within h hs
  | .arr items, hover => by
      simp only [print, List.cons_append, List.mem_cons, List.mem_append, List.not_mem_nil,
        or_false]
      rintro u (rfl | hu | rfl)
      · exact h.marks 91 (by decide)
      · exact printItems_within h items hover u hu
      · exact h.marks 93 (by decide)
  | .obj members, hover => by
      simp only [print, List.cons_append, List.mem_cons, List.mem_append, List.not_mem_nil,
        or_false]
      rintro u (rfl | hu | rfl)
      · exact h.marks 123 (by decide)
      · exact printMembers_within h members hover u hu
      · exact h.marks 125 (by decide)

theorem printItems_within {p q : Nat → Prop} (h : style.Within write p q) :
    (vs : List (Value ν)) → Value.OverItems p vs → ∀ u ∈ printItems style write vs, q u
  | [], _ => by simp [printItems]
  | [v], hover => print_within h v hover.1
  | v :: w :: vs, hover => by
      simp only [printItems, List.mem_append]
      rintro u ((hu | hu) | hu)
      · exact print_within h v hover.1 u hu
      · exact h.comma u hu
      · exact printItems_within h (w :: vs) hover.2 u hu

theorem printMembers_within {p q : Nat → Prop} (h : style.Within write p q) :
    (ms : List (Units × Value ν)) → Value.OverMembers p ms →
      ∀ u ∈ printMembers style write ms, q u
  | [], _ => by simp [printMembers]
  | [(k, v)], hover => by
      simp only [printMembers, List.mem_append]
      rintro u ((hu | hu) | hu)
      · exact quote_within h hover.1 u hu
      · exact h.colon u hu
      · exact print_within h v hover.2.1 u hu
  | (k, v) :: m :: ms, hover => by
      simp only [printMembers, List.mem_append]
      rintro u ((((hu | hu) | hu) | hu) | hu)
      · exact quote_within h hover.1 u hu
      · exact h.colon u hu
      · exact print_within h v hover.2.1 u hu
      · exact h.comma u hu
      · exact printMembers_within h (m :: ms) hover.2.2 u hu

end

/-- The style with every character it writes replaced. -/
def Style.replace (style : Style) (f : Nat → Units) : Style where
  escape s := (style.escape s).flatMap f
  comma := style.comma.flatMap f
  colon := style.colon.flatMap f

variable {f : Nat → Units}

theorem quote_flatMap (h : ∀ u ∈ marks, f u = [u]) (s : Units) :
    (quote style s).flatMap f = quote (style.replace f) s := by
  simp [quote, Style.replace, h 34 (by decide)]

mutual

/-- Replacing characters in a text is writing in the replaced style. -/
theorem print_flatMap (h : ∀ u ∈ marks, f u = [u]) :
    (v : Value ν) → (print style write v).flatMap f
      = print (style.replace f) (fun n => (write n).flatMap f) v
  | .null => by simp [print, h 110 (by decide), h 117 (by decide), h 108 (by decide)]
  | .bool true => by
      simp [print, h 116 (by decide), h 114 (by decide), h 117 (by decide), h 101 (by decide)]
  | .bool false => by
      simp [print, h 102 (by decide), h 97 (by decide), h 108 (by decide), h 115 (by decide),
        h 101 (by decide)]
  | .num n => rfl
  | .str s => quote_flatMap h s
  | .arr items => by
      simp [print, h 91 (by decide), h 93 (by decide), printItems_flatMap h items]
  | .obj members => by
      simp [print, h 123 (by decide), h 125 (by decide), printMembers_flatMap h members]

theorem printItems_flatMap (h : ∀ u ∈ marks, f u = [u]) :
    (vs : List (Value ν)) → (printItems style write vs).flatMap f
      = printItems (style.replace f) (fun n => (write n).flatMap f) vs
  | [] => rfl
  | [v] => by simp only [printItems, print_flatMap h v]
  | v :: w :: vs => by
      simp only [printItems, List.flatMap_append, print_flatMap h v,
        printItems_flatMap h (w :: vs)]
      rfl

theorem printMembers_flatMap (h : ∀ u ∈ marks, f u = [u]) :
    (ms : List (Units × Value ν)) → (printMembers style write ms).flatMap f
      = printMembers (style.replace f) (fun n => (write n).flatMap f) ms
  | [] => rfl
  | [(k, v)] => by
      simp only [printMembers, List.flatMap_append, quote_flatMap h, print_flatMap h v]
      rfl
  | (k, v) :: m :: ms => by
      simp only [printMembers, List.flatMap_append, quote_flatMap h, print_flatMap h v,
        printMembers_flatMap h (m :: ms)]
      rfl

end

end

/-! ## What numbers decide -/

namespace Value

variable {ν : Type}

mutual

/-- Every number of the value satisfies a predicate. -/
def Numbers (q : ν → Prop) : Value ν → Prop
  | .num n => q n
  | .arr items => NumbersItems q items
  | .obj members => NumbersMembers q members
  | _ => True

def NumbersItems (q : ν → Prop) : List (Value ν) → Prop
  | [] => True
  | v :: rest => Numbers q v ∧ NumbersItems q rest

def NumbersMembers (q : ν → Prop) : List (Units × Value ν) → Prop
  | [] => True
  | (_, v) :: rest => Numbers q v ∧ NumbersMembers q rest

end

variable {number : ν → Option Number} {encode : Units → Units}

mutual

/-- A text is refused exactly for its numbers. -/
theorem denote_isSome : (v : Value ν) →
    ((v.denote number encode).isSome ↔ v.Numbers fun n => (number n).isSome)
  | .null => by simp [denote, Numbers]
  | .bool _ => by simp [denote, Numbers]
  | .num _ => by simp [denote, Numbers]
  | .str _ => by simp [denote, Numbers]
  | .arr items => by simpa [denote, Numbers] using denoteItems_isSome items
  | .obj members => by simpa [denote, Numbers] using denoteMembers_isSome members

theorem denoteItems_isSome : (vs : List (Value ν)) →
    ((denoteItems number encode vs).isSome ↔ NumbersItems (fun n => (number n).isSome) vs)
  | [] => by simp [denoteItems, NumbersItems]
  | v :: vs => by
      rw [NumbersItems, ← denote_isSome v, ← denoteItems_isSome vs, denoteItems]
      cases v.denote number encode <;> simp

theorem denoteMembers_isSome : (ms : List (Units × Value ν)) →
    ((denoteMembers number encode ms).isSome ↔ NumbersMembers (fun n => (number n).isSome) ms)
  | [] => by simp [denoteMembers, NumbersMembers]
  | (k, v) :: ms => by
      rw [NumbersMembers, ← denote_isSome v, ← denoteMembers_isSome ms, denoteMembers]
      cases v.denote number encode <;> simp

end

mutual

/-- Literals written by units that stand for themselves denote themselves. -/
theorem denote_self : (v : Value Number) → v.denote some id = some v
  | .null => rfl
  | .bool _ => rfl
  | .num _ => rfl
  | .str _ => rfl
  | .arr items => by simp [denote, denoteItems_self items]
  | .obj members => by simp [denote, denoteMembers_self members]

theorem denoteItems_self : (vs : List (Value Number)) → denoteItems some id vs = some vs
  | [] => rfl
  | v :: vs => by simp [denoteItems, denote_self v, denoteItems_self vs]

theorem denoteMembers_self : (ms : List (Units × Value Number)) →
    denoteMembers some id ms = some ms
  | [] => rfl
  | (k, v) :: ms => by simp [denoteMembers, denote_self v, denoteMembers_self ms]

end

section

variable {μ : Type}

mutual

/-- The value with other numbers. -/
def mapNumbers (f : ν → μ) : Value ν → Value μ
  | .null => .null
  | .bool b => .bool b
  | .num n => .num (f n)
  | .str s => .str s
  | .arr items => .arr (mapItems f items)
  | .obj members => .obj (mapMembers f members)

def mapItems (f : ν → μ) : List (Value ν) → List (Value μ)
  | [] => []
  | v :: rest => mapNumbers f v :: mapItems f rest

def mapMembers (f : ν → μ) : List (Units × Value ν) → List (Units × Value μ)
  | [] => []
  | (k, v) :: rest => (k, mapNumbers f v) :: mapMembers f rest

end

theorem mapMembers_eq (f : ν → μ) (ms : List (Units × Value ν)) :
    mapMembers f ms = ms.map fun m => (m.1, m.2.mapNumbers f) := by
  induction ms with
  | nil => rfl
  | cons m ms ih => rw [mapMembers, ih, List.map_cons]

end

end Value

/-- Number literals are written as they are. -/
theorem writes_text : Writes Number.text some where
  starts := by
    rintro ⟨negative, whole, fraction, exponent⟩
    cases negative with
    | true => exact ⟨_, _, rfl, rfl, by decide⟩
    | false =>
        cases whole with
        | zero => exact ⟨_, _, rfl, rfl, by decide⟩
        | positive head tail =>
            refine ⟨49 + head.val, _, rfl, ?_⟩
            have hhead := head.isLt
            simp only [StartsNumber, isSpace, Bool.or_eq_false_iff, beq_eq_false_iff_ne]
            omega
  read n rest hrest := by simpa using readNumber_text n hrest

end JsonText
