-- SUMMARY: How JSON.stringify and canonicalJson write a value.
import LingxiOS.Base.JsonText
import Mathlib.Data.List.Sort

/-! # JSON.stringify

A JavaScript string is its UTF-16 code units. `JSON.stringify` escapes quotes,
backslashes, control characters and halves of pairs; `canonicalJson` writes the
same with the keys of every object in order. -/

namespace LingxiOS.Stringify

open JsonText

/-! ## Escapes -/

def hexDigit (n : Nat) : Nat := if n < 10 then 48 + n else 87 + n

/-- `\uXXXX`, in lower case. -/
def hexEscape (u : Nat) : Units :=
  [92, 117, hexDigit (u / 4096 % 16), hexDigit (u / 256 % 16), hexDigit (u / 16 % 16),
    hexDigit (u % 16)]

/-- The characters both languages escape with a letter. -/
def shortEscape (c : Nat) : Option Nat :=
  if c = 8 then some 98 else if c = 9 then some 116 else if c = 10 then some 110
  else if c = 12 then some 102 else if c = 13 then some 114 else if c = 34 then some 34
  else if c = 92 then some 92 else none

/-- A character in a string: quotes, backslashes and control characters are
    escaped, the others are written in some way. -/
def escapeChar (plain : Nat → Units) (c : Nat) : Units :=
  match shortEscape c with
  | some e => [92, e]
  | none => if c < 32 then hexEscape c else plain c

theorem hexDigit?_hexDigit {n : Nat} (h : n < 16) : hexDigit? (hexDigit n) = some n := by
  unfold hexDigit hexDigit?
  split
  · rw [if_pos (by omega)]
    simp
  · rw [if_neg (by omega), if_pos (by omega)]
    simp

theorem readHex_hexEscape {u : Nat} (h : u < 0x10000) :
    readHex (hexDigit (u / 4096 % 16)) (hexDigit (u / 256 % 16)) (hexDigit (u / 16 % 16))
      (hexDigit (u % 16)) = some u := by
  have hdigit : ∀ n, hexDigit? (hexDigit (n % 16)) = some (n % 16) := fun n =>
    hexDigit?_hexDigit (Nat.mod_lt _ (by decide))
  simp only [readHex, hdigit, Option.bind_some, Option.map_some, Option.some.injEq]
  omega

/-- An escape reads back as its unit. -/
theorem readString_hexEscape {u : Nat} (h : u < 0x10000) (rest : Units) :
    readString (hexEscape u ++ rest) = (readString rest).map fun r => (u :: r.1, r.2) := by
  simp only [hexEscape, List.cons_append, List.nil_append, readString, readHex_hexEscape h,
    Option.bind_some]

theorem hexEscape_ascii (n : Nat) : ∀ u ∈ hexEscape n, 32 ≤ u ∧ u < 127 := by
  have hdigit : ∀ n, 32 ≤ hexDigit (n % 16) ∧ hexDigit (n % 16) < 127 := by
    intro n
    unfold hexDigit
    split <;> omega
  simp [hexEscape, hdigit]

theorem readString_shortEscape {c e : Nat} (h : shortEscape c = some e) (rest : Units) :
    readString (92 :: e :: rest) = (readString rest).map fun r => (c :: r.1, r.2) := by
  have hread : shortEscape? e = some c ∧ e ≠ 117 := by
    unfold shortEscape at h
    split_ifs at h <;> cases h <;> subst c <;> decide
  rw [readString]
  · simp [hread.1]
  · intro a b c d rest' he
    exact absurd he hread.2

theorem shortEscape_none {c : Nat} (h : shortEscape c = none) : c ≠ 34 ∧ c ≠ 92 := by
  unfold shortEscape at h
  grind

theorem readString_plain {c : Nat} (hlow : 32 ≤ c) (hquote : c ≠ 34) (hslash : c ≠ 92)
    (rest : Units) : readString (c :: rest) = (readString rest).map fun r => (c :: r.1, r.2) := by
  rw [readString]
  · simp only [hslash, or_false, Nat.not_lt.2 hlow, if_false]
  · exact hquote
  · simp [hslash]
  · simp [hslash]

theorem readString_escapeChar {plain encode : Nat → Units} {c : Nat}
    (hencode : c < 127 → encode c = [c])
    (hplain : 32 ≤ c → c ≠ 34 → c ≠ 92 → ∀ rest,
      readString (plain c ++ rest) = (readString rest).map fun r => (encode c ++ r.1, r.2))
    (rest : Units) : readString (escapeChar plain c ++ rest)
      = (readString rest).map fun r => (encode c ++ r.1, r.2) := by
  unfold escapeChar
  cases hshort : shortEscape c with
  | some e =>
      have hc : c < 127 := by
        unfold shortEscape at hshort
        split_ifs at hshort <;> omega
      simp [hencode hc, readString_shortEscape hshort]
  | none =>
      obtain ⟨hquote, hslash⟩ := shortEscape_none hshort
      by_cases hlow : c < 32
      · simp [hlow, hencode (by omega), readString_hexEscape (show c < 0x10000 by omega)]
      · simp [hlow, hplain (by omega) hquote hslash]

/-! ## Strings -/

def isHigh (u : Nat) : Bool := 0xD800 ≤ u && u < 0xDC00

def isLow (u : Nat) : Bool := 0xDC00 ≤ u && u < 0xE000

/-- A unit of a string that is no half of a pair. -/
def stringifyUnit (u : Nat) : Units :=
  if isHigh u || isLow u then hexEscape u else escapeChar (fun c => [c]) u

/-- `JSON.stringify(text)` between its quotes: lone surrogates are escaped. -/
def stringifyText : Units → Units
  | [] => []
  | [u] => stringifyUnit u
  | u :: w :: rest =>
      if isHigh u && isLow w then u :: w :: stringifyText rest
      else stringifyUnit u ++ stringifyText (w :: rest)

/-- How `JSON.stringify` writes. -/
def jsStyle : Style := ⟨stringifyText, [44], [58]⟩

/-- A unit that is no half of a pair reads back as itself. -/
theorem readString_stringifyUnit {u : Nat} (hu : u < 0x10000) (rest : Units) :
    readString (stringifyUnit u ++ rest) = (readString rest).map fun r => (u :: r.1, r.2) := by
  unfold stringifyUnit
  split
  · exact readString_hexEscape hu rest
  · have hplain : 32 ≤ u → u ≠ 34 → u ≠ 92 → ∀ rest, readString ([u] ++ rest)
        = (readString rest).map fun r => ([u] ++ r.1, r.2) := by
      intro hlow hquote hslash rest
      exact readString_plain hlow hquote hslash rest
    exact @readString_escapeChar (fun c => [c]) (fun c => [c]) u (fun _ => rfl) hplain rest

theorem readString_surrogate {u : Nat} (h : isHigh u = true ∨ isLow u = true) (rest : Units) :
    readString (u :: rest) = (readString rest).map fun r => (u :: r.1, r.2) := by
  have hu : 0xD800 ≤ u := by
    simp only [isHigh, isLow, Bool.and_eq_true, decide_eq_true_eq] at h
    omega
  exact readString_plain (by omega) (by omega) (by omega) rest

/-- `JSON.stringify` of a string is read as the string. -/
theorem readString_stringifyText (s : Units) (hs : ∀ u ∈ s, u < 0x10000) (rest : Units) :
    readString (stringifyText s ++ (34 :: rest)) = some (s, rest) := by
  induction s using stringifyText.induct with
  | case1 => simp [stringifyText, readString]
  | case2 u =>
      have hu : u < 0x10000 := hs u List.mem_cons_self
      simp [stringifyText, readString_stringifyUnit hu, readString]
  | case3 u w tail hpair ih =>
      obtain ⟨hu, hw⟩ : isHigh u = true ∧ isLow w = true := by simpa using hpair
      have htail : ∀ v ∈ tail, v < 0x10000 := fun v hv =>
        hs v (List.mem_cons_of_mem _ (List.mem_cons_of_mem _ hv))
      simp [stringifyText, hpair, readString_surrogate (.inl hu), readString_surrogate (.inr hw),
        ih htail]
  | case4 u w tail hpair ih =>
      obtain ⟨hu, htail⟩ := List.forall_mem_cons.1 hs
      simp [stringifyText, hpair, List.append_assoc, readString_stringifyUnit hu, ih htail]

theorem jsStyle_sound : jsStyle.Sound id (· < 0x10000) where
  escape := readString_stringifyText
  comma := ⟨[], rfl, by simp⟩
  colon := ⟨[], rfl, by simp⟩

/-- What is written of a value is read as the value. -/
theorem parse_jsStyle {v : Value Number} (h : v.Over (· < 0x10000)) :
    parse (print jsStyle Number.text v) = some v := by
  have hgap : ∀ u ∈ ([] : Units), isSpace u = true := by simp
  have hparse := parse_print jsStyle_sound writes_text h hgap
  rwa [List.append_nil, Value.denote_self] at hparse

theorem print_jsStyle_inj {v w : Value Number} (hv : v.Over (· < 0x10000))
    (hw : w.Over (· < 0x10000)) :
    print jsStyle Number.text v = print jsStyle Number.text w ↔ v = w := by
  constructor
  · intro h
    have hparse := parse_jsStyle hv
    rw [h, parse_jsStyle hw] at hparse
    exact (Option.some.inj hparse).symm
  · exact fun h => h ▸ rfl

/-- A string of 16-bit units. -/
abbrev JsString := {s : Units // ∀ u ∈ s, u < 0x10000}

/-- A JSON value of the manager's. -/
abbrev JsValue := {v : Value Number // v.Over (· < 0x10000)}

/-- A literal of the source as its characters. -/
def literal (s : String) : Units := s.toList.map Char.toNat

/-- A literal is its characters, so evaluating it need not decode any bytes. -/
theorem literal_ofList (chars : List Char) : literal (String.ofList chars) = chars.map Char.toNat := by
  rw [literal, String.toList_ofList]

/-! ## Lengths -/

def unitBytes (u : Nat) : Nat := if u < 0x80 then 1 else if u < 0x800 then 2 else 3

/-- `Buffer.byteLength(text)`: a pair takes four bytes. -/
def byteLength : Units → Nat
  | [] => 0
  | [u] => unitBytes u
  | u :: w :: rest =>
      if isHigh u && isLow w then 4 + byteLength rest else unitBytes u + byteLength (w :: rest)

/-- ECMAScript white space and line terminators. -/
def isWhiteSpace (u : Nat) : Bool :=
  (9 ≤ u && u ≤ 13) || u == 0x20 || u == 0xA0 || u == 0x1680 || (0x2000 ≤ u && u ≤ 0x200A)
    || u == 0x2028 || u == 0x2029 || u == 0x202F || u == 0x205F || u == 0x3000 || u == 0xFEFF

/-- `!text.trim()`. -/
def isBlank (s : Units) : Bool := s.all isWhiteSpace

/-! ## Canonical text -/

section

variable {ν : Type}

mutual

/-- The value with the keys of every object in order. -/
def sortKeys : Value ν → Value ν
  | .arr items => .arr (sortItems items)
  | .obj members => .obj ((sortMembers members).insertionSort fun a b => a.1 ≤ b.1)
  | v => v

def sortItems : List (Value ν) → List (Value ν)
  | [] => []
  | v :: rest => sortKeys v :: sortItems rest

def sortMembers : List (Units × Value ν) → List (Units × Value ν)
  | [] => []
  | (k, v) :: rest => (k, sortKeys v) :: sortMembers rest

end

theorem overItems_iff {ν : Type} {p : Nat → Prop} {vs : List (Value ν)} :
    Value.OverItems p vs ↔ ∀ v ∈ vs, v.Over p := by
  induction vs with
  | nil => simp [Value.OverItems]
  | cons v vs ih => simp [Value.OverItems, ih]

theorem overMembers_iff {ν : Type} {p : Nat → Prop} {ms : List (Units × Value ν)} :
    Value.OverMembers p ms ↔ ∀ m ∈ ms, (∀ u ∈ m.1, p u) ∧ m.2.Over p := by
  induction ms with
  | nil => simp [Value.OverMembers]
  | cons m ms ih => simp [Value.OverMembers, ih, and_assoc]

mutual

theorem sortKeys_over {p : Nat → Prop} : (v : Value ν) → v.Over p → (sortKeys v).Over p
  | .null, h => h
  | .bool _, h => h
  | .num _, h => h
  | .str _, h => h
  | .arr items, h => sortItems_over items h
  | .obj members, h => by
      have hsorted := overMembers_iff.1 (sortMembers_over members h)
      exact overMembers_iff.2 fun m hm => hsorted m ((List.perm_insertionSort _ _).mem_iff.1 hm)

theorem sortItems_over {p : Nat → Prop} :
    (vs : List (Value ν)) → Value.OverItems p vs → Value.OverItems p (sortItems vs)
  | [], _ => trivial
  | v :: vs, h => ⟨sortKeys_over v h.1, sortItems_over vs h.2⟩

theorem sortMembers_over {p : Nat → Prop} :
    (ms : List (Units × Value ν)) → Value.OverMembers p ms → Value.OverMembers p (sortMembers ms)
  | [], _ => trivial
  | (_, v) :: ms, h => ⟨h.1, sortKeys_over v h.2.1, sortMembers_over ms h.2.2⟩

end

end

/-- `canonicalJson`. -/
def canonicalJson (v : Value Number) : Units := print jsStyle Number.text (sortKeys v)

/-- Two values have one canonical text exactly when they differ in the order of
    keys only. -/
theorem canonicalJson_inj {v w : JsValue} :
    canonicalJson v.val = canonicalJson w.val ↔ sortKeys v.val = sortKeys w.val :=
  print_jsStyle_inj (sortKeys_over v.val v.2) (sortKeys_over w.val w.2)

end LingxiOS.Stringify
