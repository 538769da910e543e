-- SUMMARY: JavaScript string facts: length, blank strings, prefixes, literals.
import Mathlib.Algebra.GroupWithZero.Nat
import Mathlib.Data.List.Basic

/-! # Text

The string operations the modelled code relies on, as the language defines
them: `length` counts UTF-16 code units, `trim` removes ECMAScript white space,
and `JSON.stringify` escapes control characters, quotes and backslashes. -/

namespace Text

/-- The number of UTF-16 code units of a character. -/
def charUnits (c : Char) : Nat := if c.toNat < 0x10000 then 1 else 2

/-- `text.length`. -/
def length (s : String) : Nat := (s.toList.map charUnits).sum

/-- ECMAScript white space and line terminators. -/
def isSpace (c : Char) : Bool :=
  let n := c.toNat
  (9 ≤ n && n ≤ 13) || n == 0x20 || n == 0xA0 || n == 0x1680 || (0x2000 ≤ n && n ≤ 0x200A)
    || n == 0x2028 || n == 0x2029 || n == 0x202F || n == 0x205F || n == 0x3000 || n == 0xFEFF

/-- `text.trim()` is empty. -/
def isBlank (s : String) : Bool := s.toList.all isSpace

def isDigit (c : Char) : Bool := '0' ≤ c && c ≤ '9'

def isLowerHex (c : Char) : Bool := isDigit c || ('a' ≤ c && c ≤ 'f')

def isLower (c : Char) : Bool := 'a' ≤ c && c ≤ 'z'

def isAlphanumeric (c : Char) : Bool := isDigit c || isLower c || ('A' ≤ c && c ≤ 'Z')

/-- ASCII case folding, enough for the schemes the code compares. -/
def foldCase (c : Char) : Char :=
  if 'A' ≤ c && c ≤ 'Z' then Char.ofNat (c.toNat + 32) else c

def hasPrefix (start s : String) : Bool := start.toList.isPrefixOf s.toList

/-- `/^https?:\/\//`. -/
def isHttpUrl (s : String) : Bool := hasPrefix "http://" s || hasPrefix "https://" s

/-- `/^https?:\/\//i`. -/
def isHttpUrlAnyCase (s : String) : Bool := isHttpUrl (String.ofList (s.toList.map foldCase))

/-- `/^[a-f0-9]{64}$/`. -/
def isSha256Hex (s : String) : Bool := s.toList.length == 64 && s.toList.all isLowerHex

/-- `text.slice(0, limit)`, cutting no surrogate pair. -/
def takeUnits : Nat → List Char → List Char
  | _, [] => []
  | limit, c :: rest =>
      if charUnits c ≤ limit then c :: takeUnits (limit - charUnits c) rest else []

def slice (limit : Nat) (s : String) : String := String.ofList (takeUnits limit s.toList)

/-- A number is told by its digits. -/
theorem toDigits_inj {m n : Nat} (h : Nat.toDigits 10 m = Nat.toDigits 10 n) : m = n := by
  have hread := congrArg (Nat.ofDigitChars 10 · 0) h
  simpa only [Nat.ofDigitChars_ten_toDigits] using hread

/-! ## JSON string literals -/

/-- The escape `\u00XX` of a control character. -/
def hexEscape (n : Nat) : List Char :=
  ['\\', 'u', '0', '0', Nat.digitChar (n / 16), Nat.digitChar (n % 16)]

def escapeChar (c : Char) : List Char :=
  match c.toNat with
  | 8 => ['\\', 'b']
  | 9 => ['\\', 't']
  | 10 => ['\\', 'n']
  | 12 => ['\\', 'f']
  | 13 => ['\\', 'r']
  | 34 => ['\\', '"']
  | 92 => ['\\', '\\']
  | n => if n < 32 then hexEscape n else [c]

/-- `JSON.stringify(text)`. -/
def quote (s : String) : String :=
  String.ofList ('"' :: s.toList.flatMap escapeChar ++ ['"'])

/-- The character an escape stands for, with the text after it. -/
def readEscape : List Char → Option (Char × List Char)
  | '\\' :: 'b' :: rest => some (Char.ofNat 8, rest)
  | '\\' :: 't' :: rest => some (Char.ofNat 9, rest)
  | '\\' :: 'n' :: rest => some (Char.ofNat 10, rest)
  | '\\' :: 'f' :: rest => some (Char.ofNat 12, rest)
  | '\\' :: 'r' :: rest => some (Char.ofNat 13, rest)
  | '\\' :: 'u' :: _ :: _ :: high :: low :: rest =>
      some (Char.ofNat (16 * (if high = '1' then 1 else 0)
        + (if isDigit low then low.toNat - 48 else low.toNat - 87)), rest)
  | '\\' :: c :: rest => some (c, rest)
  | c :: rest => some (c, rest)
  | [] => none

theorem readEscape_hexEscape {n : Nat} (h : n < 32) (rest : List Char) :
    readEscape (hexEscape n ++ rest) = some (Char.ofNat n, rest) := by
  have hdigits : ∀ n < 32, 16 * (if Nat.digitChar (n / 16) = '1' then 1 else 0)
      + (if isDigit (Nat.digitChar (n % 16)) then (Nat.digitChar (n % 16)).toNat - 48
        else (Nat.digitChar (n % 16)).toNat - 87) = n := by decide
  simp only [hexEscape, List.cons_append, List.nil_append, readEscape, hdigits n h]

theorem readEscape_escapeChar (c : Char) (rest : List Char) :
    readEscape (escapeChar c ++ rest) = some (c, rest) := by
  have hc : Char.ofNat c.toNat = c := Char.ofNat_toNat c
  unfold escapeChar
  split
  case h_8 n h8 h9 h10 h12 h13 h34 h92 =>
    by_cases hlow : c.toNat < 32
    · rw [if_pos hlow, readEscape_hexEscape hlow, hc]
    · have hslash : c ≠ '\\' := fun h => h92 (by rw [h]; rfl)
      rw [if_neg hlow]
      unfold readEscape
      split <;> simp_all
  all_goals
    rename_i h
    rw [← hc, h]
    rfl

/-- An escape is no closing quote. -/
theorem quote_ne_escapeChar (c : Char) (rest x : List Char) :
    escapeChar c ++ rest ≠ '"' :: x := by
  intro h
  have hread := readEscape_escapeChar c rest
  rw [h] at hread
  obtain ⟨rfl, -⟩ : '"' = c ∧ x = rest := by simpa [readEscape] using hread
  cases h

/-- A quoted text ends where its closing quote stands. -/
theorem quote_cancel {s t x y : List Char}
    (h : s.flatMap escapeChar ++ '"' :: x = t.flatMap escapeChar ++ '"' :: y) : s = t ∧ x = y := by
  induction s generalizing t with
  | nil =>
      cases t with
      | nil => simpa using h
      | cons d t =>
          rw [List.flatMap_cons, List.append_assoc] at h
          exact absurd h.symm (quote_ne_escapeChar d _ x)
  | cons c s ih =>
      rw [List.flatMap_cons, List.append_assoc] at h
      cases t with
      | nil => exact absurd h (quote_ne_escapeChar c _ y)
      | cons d t =>
          rw [List.flatMap_cons, List.append_assoc] at h
          have hread := congrArg readEscape h
          rw [readEscape_escapeChar, readEscape_escapeChar, Option.some.injEq, Prod.mk.injEq] at hread
          obtain ⟨rfl, hrest⟩ := hread
          obtain ⟨rfl, hxy⟩ := ih hrest
          exact ⟨rfl, hxy⟩

/-- What follows two quoted texts tells the texts. -/
theorem quote_append_inj {s t x y : String} (h : quote s ++ x = quote t ++ y) : s = t ∧ x = y := by
  have hlist := congrArg String.toList h
  simp only [quote, String.toList_append, String.toList_ofList, List.cons_append, List.cons.injEq,
    true_and, List.append_assoc, List.nil_append] at hlist
  obtain ⟨hs, hx⟩ := quote_cancel hlist
  exact ⟨String.toList_injective hs, String.toList_injective hx⟩

end Text
