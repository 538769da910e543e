-- SUMMARY: UTF-16 code units, UTF-8 bytes and a streaming decoder.
import Mathlib.Data.List.Basic

/-! # Text Coding

A string is a list of UTF-16 code units. The decoder reads bytes in chunks and keeps the
bytes of a character that is not complete yet; a malformed sequence is an error, which a
reader may replace or refuse. A byte order mark at the start is dropped. -/

namespace TextCoding

/-! ## UTF-16 -/

def charUnits (c : Char) : List Nat :=
  if c.toNat < 0x10000 then [c.toNat]
  else [0xD800 + (c.toNat - 0x10000) / 0x400, 0xDC00 + (c.toNat - 0x10000) % 0x400]

def units (text : List Char) : List Nat := text.flatMap charUnits

def isHigh (u : Nat) : Bool := 0xD800 ≤ u && u < 0xDC00

def isLow (u : Nat) : Bool := 0xDC00 ≤ u && u < 0xE000

/-- The character of a pair. -/
def pairChar (u w : Nat) : Char := Char.ofNat (0x10000 + (u - 0xD800) * 0x400 + (w - 0xDC00))

/-- The character of a unit that is in no pair; half a pair is replaced. -/
def unitChar (u : Nat) : Char := if isHigh u || isLow u then Char.ofNat 0xFFFD else Char.ofNat u

def scalars : List Nat → List Char
  | [] => []
  | [u] => [unitChar u]
  | u :: w :: rest =>
      if isHigh u && isLow w then pairChar u w :: scalars rest else unitChar u :: scalars (w :: rest)

/-- What iterating over a string gives: pairs stay together, half a pair stands alone. -/
def characters : List Nat → List (List Nat)
  | [] => []
  | [u] => [[u]]
  | u :: w :: rest =>
      if isHigh u && isLow w then [u, w] :: characters rest else [u] :: characters (w :: rest)

theorem scalars_cons {u : Nat} {rest : List Nat} (h : (isHigh u && rest.head?.any isLow) = false) :
    scalars (u :: rest) = unitChar u :: scalars rest := by
  cases rest with
  | nil => rfl
  | cons w rest =>
      rw [List.head?_cons, Option.any_some] at h
      rw [scalars, if_neg (by simp [h])]

/-- Units in which every half of a pair has the other. -/
inductive WellPaired : List Nat → Prop
  | nil : WellPaired []
  | unit {u : Nat} {rest : List Nat} (hu : u < 0xD800 ∨ (0xE000 ≤ u ∧ u < 0x10000))
      (h : WellPaired rest) : WellPaired (u :: rest)
  | pair {u w : Nat} {rest : List Nat} (hu : isHigh u = true) (hw : isLow w = true)
      (h : WellPaired rest) : WellPaired (u :: w :: rest)

/-! ## UTF-8 -/

def utf8 (text : List Char) : List UInt8 := text.flatMap String.utf8EncodeChar

/-- `TextEncoder.encode`. -/
def encode (text : List Nat) : List UInt8 := utf8 (scalars text)

/-- The bytes of a character that are still to come, and what the next may be. -/
structure Decoder where
  needed : Nat := 0
  codePoint : Nat := 0
  lower : Nat := 0x80
  upper : Nat := 0xBF
  deriving DecidableEq

namespace Decoder

/-- The first byte of a character; `none` is a malformed sequence. -/
def first (byte : Nat) : Decoder × List (Option Char) :=
  if byte < 0x80 then ({}, [some (Char.ofNat byte)])
  else if 0xC2 ≤ byte ∧ byte ≤ 0xDF then ({ needed := 1, codePoint := byte % 0x20 }, [])
  else if 0xE0 ≤ byte ∧ byte ≤ 0xEF then
    ({ needed := 2
       codePoint := byte % 0x10
       lower := if byte = 0xE0 then 0xA0 else 0x80
       upper := if byte = 0xED then 0x9F else 0xBF }, [])
  else if 0xF0 ≤ byte ∧ byte ≤ 0xF4 then
    ({ needed := 3
       codePoint := byte % 0x08
       lower := if byte = 0xF0 then 0x90 else 0x80
       upper := if byte = 0xF4 then 0x8F else 0xBF }, [])
  else ({}, [none])

def next (decoder : Decoder) (byte : Nat) : Decoder × List (Option Char) :=
  if decoder.needed = 0 then first byte
  else if byte < decoder.lower ∨ decoder.upper < byte then
    -- the byte is read again, as the first of a character
    ((first byte).1, none :: (first byte).2)
  else
    let codePoint := decoder.codePoint * 0x40 + byte % 0x40
    if decoder.needed = 1 then ({}, [some (Char.ofNat codePoint)])
    else ({ needed := decoder.needed - 1, codePoint := codePoint }, [])

def read (decoder : Decoder) : List UInt8 → Decoder × List (Option Char)
  | [] => (decoder, [])
  | byte :: bytes =>
      let (after, chars) := decoder.next byte.toNat
      let (last, rest) := after.read bytes
      (last, chars ++ rest)

/-- The end of the bytes. -/
def finish (decoder : Decoder) : List (Option Char) :=
  if decoder.needed = 0 then [] else [none]

theorem read_append (decoder : Decoder) (bytes more : List UInt8) :
    decoder.read (bytes ++ more) =
      (((decoder.read bytes).1.read more).1,
        (decoder.read bytes).2 ++ ((decoder.read bytes).1.read more).2) := by
  induction bytes generalizing decoder with
  | nil => rfl
  | cons byte bytes ih => simp [read, ih]

end Decoder

/-! ## Chunks -/

def byteOrderMark : Char := Char.ofNat 0xFEFF

/-- Drop a byte order mark, unless something was read before. -/
def dropMark : Bool → List (Option Char) → Bool × List (Option Char)
  | true, chars => (true, chars)
  | false, [] => (false, [])
  | false, c :: chars => (true, if c = some byteOrderMark then chars else c :: chars)

/-- `TextDecoder`. -/
structure TextDecoder where
  decoder : Decoder := {}
  /-- Whether anything was read before. -/
  started : Bool := false
  deriving DecidableEq

namespace TextDecoder

/-- `decode(bytes, { stream: true })`. -/
def decode (decoder : TextDecoder) (bytes : List UInt8) : TextDecoder × List (Option Char) :=
  let (after, chars) := decoder.decoder.read bytes
  let (started, kept) := dropMark decoder.started chars
  (⟨after, started⟩, kept)

/-- `decode()`. -/
def finish (decoder : TextDecoder) : List (Option Char) :=
  (dropMark decoder.started decoder.decoder.finish).2

def decodeAll (decoder : TextDecoder) : List (List UInt8) → TextDecoder × List (List (Option Char))
  | [] => (decoder, [])
  | bytes :: chunks =>
      let (after, chars) := decoder.decode bytes
      let (last, rest) := after.decodeAll chunks
      (last, chars :: rest)

end TextDecoder

/-- A malformed sequence becomes a replacement character. -/
def replaced (chars : List (Option Char)) : List Nat :=
  units (chars.map fun c => c.getD (Char.ofNat 0xFFFD))

/-- A malformed sequence is refused. -/
def fatal : List (Option Char) → Option (List Nat)
  | [] => some []
  | c :: chars => do
      let c ← c
      let rest ← fatal chars
      return charUnits c ++ rest

def withoutMark : List Char → List Char
  | [] => []
  | c :: text => if c = byteOrderMark then text else c :: text

/-! ## Reading what was written -/

theorem toNat_ofNat {byte : Nat} (h : byte < 0x100) : (UInt8.ofNat byte).toNat = byte := by
  rw [UInt8.toNat_ofNat']
  exact Nat.mod_eq_of_lt h

section

variable {decoder : Decoder} {byte : Nat}

theorem first_ascii (h : byte < 0x80) : Decoder.first byte = ({}, [some (Char.ofNat byte)]) :=
  if_pos h

theorem first_two (hlow : 0xC2 ≤ byte) (hhigh : byte ≤ 0xDF) :
    Decoder.first byte = ({ needed := 1, codePoint := byte % 0x20 }, []) := by
  have hascii : ¬ byte < 0x80 := by omega
  rw [Decoder.first, if_neg hascii, if_pos ⟨hlow, hhigh⟩]

theorem first_three (hlow : 0xE0 ≤ byte) (hhigh : byte ≤ 0xEF) :
    Decoder.first byte =
      ({ needed := 2
         codePoint := byte % 0x10
         lower := if byte = 0xE0 then 0xA0 else 0x80
         upper := if byte = 0xED then 0x9F else 0xBF }, []) := by
  have hascii : ¬ byte < 0x80 := by omega
  have htwo : ¬ (0xC2 ≤ byte ∧ byte ≤ 0xDF) := by omega
  rw [Decoder.first, if_neg hascii, if_neg htwo, if_pos ⟨hlow, hhigh⟩]

theorem first_four (hlow : 0xF0 ≤ byte) (hhigh : byte ≤ 0xF4) :
    Decoder.first byte =
      ({ needed := 3
         codePoint := byte % 0x08
         lower := if byte = 0xF0 then 0x90 else 0x80
         upper := if byte = 0xF4 then 0x8F else 0xBF }, []) := by
  have hascii : ¬ byte < 0x80 := by omega
  have htwo : ¬ (0xC2 ≤ byte ∧ byte ≤ 0xDF) := by omega
  have hthree : ¬ (0xE0 ≤ byte ∧ byte ≤ 0xEF) := by omega
  rw [Decoder.first, if_neg hascii, if_neg htwo, if_neg hthree, if_pos ⟨hlow, hhigh⟩]

theorem next_first (h : decoder.needed = 0) : decoder.next byte = Decoder.first byte :=
  if_pos h

/-- A byte that continues a character. -/
theorem next_more (hneeded : 1 < decoder.needed) (hlow : decoder.lower ≤ byte)
    (hhigh : byte ≤ decoder.upper) :
    decoder.next byte =
      ({ needed := decoder.needed - 1, codePoint := decoder.codePoint * 0x40 + byte % 0x40 }, []) := by
  have hwithin : ¬ (byte < decoder.lower ∨ decoder.upper < byte) := by omega
  rw [Decoder.next, if_neg (by omega), if_neg hwithin, if_neg (by omega)]

/-- The byte that completes a character. -/
theorem next_last (hneeded : decoder.needed = 1) (hlow : decoder.lower ≤ byte)
    (hhigh : byte ≤ decoder.upper) :
    decoder.next byte =
      ({}, [some (Char.ofNat (decoder.codePoint * 0x40 + byte % 0x40))]) := by
  have hwithin : ¬ (byte < decoder.lower ∨ decoder.upper < byte) := by omega
  rw [Decoder.next, if_neg (by omega), if_neg hwithin, if_pos hneeded]

end

theorem read_cons {decoder after : Decoder} {byte : Nat} {chars : List (Option Char)}
    (hbyte : byte < 0x100) (h : decoder.next byte = (after, chars)) (bytes : List UInt8) :
    decoder.read (UInt8.ofNat byte :: bytes) = ((after.read bytes).1, chars ++ (after.read bytes).2) := by
  simp only [Decoder.read, toNat_ofNat hbyte, h]

/-- The bytes of a character are read as that character. -/
theorem read_char (c : Char) : Decoder.read {} (String.utf8EncodeChar c) = ({}, [some c]) := by
  have hvalid : c.val.toNat < 0xD800 ∨ (0xDFFF < c.val.toNat ∧ c.val.toNat < 0x110000) := c.valid
  have hback : Char.ofNat c.val.toNat = c := Char.ofNat_toNat c
  fun_cases String.utf8EncodeChar c
  case case1 v h =>
    rw [read_cons (by omega) ((next_first rfl).trans (first_ascii (by omega))), hback]
    rfl
  case case2 v hascii h =>
    rw [read_cons (by omega) ((next_first rfl).trans (first_two (by omega) (by omega))),
      read_cons (by omega) (next_last rfl (by simp) (by simp; omega))]
    have hpoint : (v / 64 % 0x20 + 0xc0) % 0x20 * 0x40 + (v % 0x40 + 0x80) % 0x40 = v := by omega
    simp only [hpoint, v, hback]
    rfl
  case case3 v hascii htwo h =>
    rw [read_cons (by omega) ((next_first rfl).trans (first_three (by omega) (by omega))),
      read_cons (by omega) (next_more (by simp) (by simp; split <;> omega) (by simp; split <;> omega)),
      read_cons (by omega) (next_last rfl (by simp) (by simp; omega))]
    have hpoint : ((v / 4096 % 0x10 + 0xe0) % 0x10 * 0x40 + (v / 64 % 0x40 + 0x80) % 0x40) * 0x40
        + (v % 0x40 + 0x80) % 0x40 = v := by omega
    simp only [hpoint, v, hback]
    rfl
  case case4 v hascii htwo hthree =>
    rw [read_cons (by omega) ((next_first rfl).trans (first_four (by omega) (by omega))),
      read_cons (by omega) (next_more (by simp) (by simp; split <;> omega) (by simp; split <;> omega)),
      read_cons (by omega) (next_more (by simp) (by simp) (by simp; omega)),
      read_cons (by omega) (next_last rfl (by simp) (by simp; omega))]
    have hpoint : (((v / 262144 % 0x08 + 0xf0) % 0x08 * 0x40 + (v / 4096 % 0x40 + 0x80) % 0x40) * 0x40
        + (v / 64 % 0x40 + 0x80) % 0x40) * 0x40 + (v % 0x40 + 0x80) % 0x40 = v := by omega
    simp only [hpoint, v, hback]
    rfl

theorem read_utf8 (text : List Char) : Decoder.read {} (utf8 text) = ({}, text.map some) := by
  induction text with
  | nil => rfl
  | cons c text ih =>
      have hsplit : utf8 (c :: text) = String.utf8EncodeChar c ++ utf8 text := rfl
      rw [hsplit, Decoder.read_append, read_char, ih]
      rfl

theorem dropMark_append (started : Bool) (chars more : List (Option Char)) :
    dropMark started (chars ++ more) =
      ((dropMark (dropMark started chars).1 more).1,
        (dropMark started chars).2 ++ (dropMark (dropMark started chars).1 more).2) := by
  cases started with
  | true => rfl
  | false =>
      cases chars with
      | nil => rfl
      | cons c chars =>
          simp only [List.cons_append, dropMark]
          split <;> rfl

/-- Chunks are decoded like the bytes they make up. -/
theorem decodeAll_eq (decoder : TextDecoder) (chunks : List (List UInt8)) :
    (decoder.decodeAll chunks).1 = (decoder.decode chunks.flatten).1
    ∧ (decoder.decodeAll chunks).2.flatten = (decoder.decode chunks.flatten).2 := by
  induction chunks generalizing decoder with
  | nil =>
      obtain ⟨decoder, started⟩ := decoder
      cases started <;> exact ⟨rfl, rfl⟩
  | cons bytes chunks ih =>
      obtain ⟨hlast, hchars⟩ := ih (decoder.decode bytes).1
      simp only [TextDecoder.decodeAll, List.flatten_cons, hlast, hchars]
      simp only [TextDecoder.decode, Decoder.read_append, dropMark_append]
      exact ⟨trivial, trivial⟩

theorem dropMark_map (text : List Char) :
    (dropMark false (text.map some)).2 = (withoutMark text).map some := by
  cases text with
  | nil => rfl
  | cons c text =>
      simp only [List.map_cons, dropMark, withoutMark, Option.some.injEq]
      split <;> rfl

/-- However the bytes of a text are cut, the chunks are decoded to the text. -/
theorem decodeAll_utf8 {text : List Char} {chunks : List (List UInt8)}
    (h : chunks.flatten = utf8 text) :
    (TextDecoder.decodeAll {} chunks).2.flatten = (withoutMark text).map some
    ∧ (TextDecoder.decodeAll {} chunks).1.finish = [] := by
  obtain ⟨hlast, hchars⟩ := decodeAll_eq {} chunks
  rw [hlast, hchars, h]
  constructor
  case left => simp only [TextDecoder.decode, read_utf8, dropMark_map]
  case right =>
    simp only [TextDecoder.decode, read_utf8, TextDecoder.finish, Decoder.finish]
    cases (dropMark false (text.map some)).1 <;> rfl

theorem fatal_map (text : List Char) : fatal (text.map some) = some (units text) := by
  induction text with
  | nil => rfl
  | cons c text ih =>
      simp only [List.map_cons, fatal, ih]
      rfl

theorem replaced_append (chars more : List (Option Char)) :
    replaced (chars ++ more) = replaced chars ++ replaced more := by
  simp [replaced, units]

theorem replaced_flatten (pieces : List (List (Option Char))) :
    (pieces.map replaced).flatten = replaced pieces.flatten := by
  induction pieces with
  | nil => rfl
  | cons piece pieces ih => rw [List.map_cons, List.flatten_cons, List.flatten_cons, ih, replaced_append]

theorem replaced_map (text : List Char) : replaced (text.map some) = units text := by
  simp [replaced, List.map_map, Function.comp_def]

/-! ## Paired units -/

section

variable {text more : List Nat} {u w : Nat}

theorem WellPaired.append (h : WellPaired text) (hmore : WellPaired more) :
    WellPaired (text ++ more) := by
  induction h with
  | nil => exact hmore
  | unit hu _ ih => exact .unit hu ih
  | pair hu hw _ ih => exact .pair hu hw ih

theorem toNat_ofNat_unit (h : u < 0xD800 ∨ (0xE000 ≤ u ∧ u < 0x110000)) :
    (Char.ofNat u).toNat = u := by
  have hvalid : u.isValidChar := by
    simp only [Nat.isValidChar]
    omega
  rw [Char.ofNat, dif_pos hvalid]
  rfl

theorem charUnits_unitChar (h : u < 0xD800 ∨ (0xE000 ≤ u ∧ u < 0x10000)) :
    charUnits (unitChar u) = [u] := by
  have hplain : (isHigh u || isLow u) = false := by
    simp only [isHigh, isLow, Bool.or_eq_false_iff, Bool.and_eq_false_iff, decide_eq_false_iff_not]
    omega
  have hback : (Char.ofNat u).toNat = u := toNat_ofNat_unit (by omega)
  rw [unitChar, hplain, if_neg Bool.false_ne_true, charUnits, hback, if_pos (by omega)]

theorem charUnits_pairChar (hu : isHigh u = true) (hw : isLow w = true) :
    charUnits (pairChar u w) = [u, w] := by
  simp only [isHigh, isLow, Bool.and_eq_true, decide_eq_true_eq] at hu hw
  obtain ⟨point, hpoint⟩ : ∃ point, point = 0x10000 + (u - 0xD800) * 0x400 + (w - 0xDC00) := ⟨_, rfl⟩
  have hfirst : 0xD800 + (point - 0x10000) / 0x400 = u := by omega
  have hsecond : 0xDC00 + (point - 0x10000) % 0x400 = w := by omega
  have hback : (Char.ofNat point).toNat = point := toNat_ofNat_unit (by omega)
  rw [charUnits, pairChar, ← hpoint, hback, if_neg (by omega), hfirst, hsecond]

/-- Paired units are the units of their characters. -/
theorem units_scalars (h : WellPaired text) : units (scalars text) = text := by
  induction h with
  | nil => rfl
  | @unit u rest hu h ih =>
      have hhigh : isHigh u = false := by
        simp only [isHigh, Bool.and_eq_false_iff, decide_eq_false_iff_not]
        omega
      cases rest with
      | nil => simpa [scalars, units] using charUnits_unitChar hu
      | cons w rest =>
          simp only [scalars, hhigh, Bool.false_and, Bool.false_eq_true, if_false]
          rw [units, List.flatMap_cons, charUnits_unitChar hu]
          exact congrArg (u :: ·) ih
  | @pair u w rest hu hw h ih =>
      simp only [scalars, hu, hw, Bool.and_self, if_true]
      rw [units, List.flatMap_cons, charUnits_pairChar hu hw]
      exact congrArg (fun rest => u :: w :: rest) ih

end

/-! ## The units of characters -/

/-- The units of a character are no half of a pair, or both halves of one. -/
theorem charUnits_cases (c : Char) :
    charUnits c = [c.toNat] ∧ (c.toNat < 0xD800 ∨ (0xE000 ≤ c.toNat ∧ c.toNat < 0x10000))
      ∨ ∃ u w, charUnits c = [u, w] ∧ isHigh u = true ∧ isLow w = true ∧ pairChar u w = c := by
  have hvalid : c.toNat < 0xD800 ∨ (0xDFFF < c.toNat ∧ c.toNat < 0x110000) := c.valid
  by_cases hplain : c.toNat < 0x10000
  · exact .inl ⟨by rw [charUnits, if_pos hplain], by omega⟩
  · refine .inr ⟨_, _, by rw [charUnits, if_neg hplain], ?_, ?_, ?_⟩
    · simp only [isHigh, Bool.and_eq_true, decide_eq_true_eq]
      omega
    · simp only [isLow, Bool.and_eq_true, decide_eq_true_eq]
      omega
    · have hback : 0x10000 + (0xD800 + (c.toNat - 0x10000) / 0x400 - 0xD800) * 0x400
          + (0xDC00 + (c.toNat - 0x10000) % 0x400 - 0xDC00) = c.toNat := by omega
      rw [pairChar, hback]
      exact Char.ofNat_toNat c

theorem units_lt (chars : List Char) : ∀ u ∈ units chars, u < 0x10000 := by
  intro u hu
  obtain ⟨c, -, hc⟩ := List.mem_flatMap.1 hu
  rcases charUnits_cases c with ⟨hunits, hplain⟩ | ⟨high, low, hunits, hhigh, hlow, -⟩
  · rw [hunits, List.mem_singleton] at hc
    omega
  · simp only [isHigh, isLow, Bool.and_eq_true, decide_eq_true_eq] at hhigh hlow
    rw [hunits] at hc
    simp only [List.mem_cons, List.not_mem_nil, or_false] at hc
    omega

theorem wellPaired_units (chars : List Char) : WellPaired (units chars) := by
  induction chars with
  | nil => exact .nil
  | cons c chars ih =>
      rw [units, List.flatMap_cons]
      rcases charUnits_cases c with ⟨hunits, hplain⟩ | ⟨u, w, hunits, hu, hw, -⟩
      · rw [hunits]
        exact .unit hplain ih
      · rw [hunits]
        exact .pair hu hw ih

/-- The units of characters are read as those characters, whatever follows. -/
theorem scalars_units_append (chars : List Char) (more : List Nat) :
    scalars (units chars ++ more) = chars ++ scalars more := by
  induction chars with
  | nil => rfl
  | cons c chars ih =>
      have hsplit : units (c :: chars) ++ more = charUnits c ++ (units chars ++ more) := by
        rw [units, List.flatMap_cons, List.append_assoc, units]
      rw [hsplit]
      rcases charUnits_cases c with ⟨hunits, hplain⟩ | ⟨u, w, hunits, hu, hw, hpair⟩
      · have hhigh : isHigh c.toNat = false := by
          simp only [isHigh, Bool.and_eq_false_iff, decide_eq_false_iff_not]
          omega
        have hlow : isLow c.toNat = false := by
          simp only [isLow, Bool.and_eq_false_iff, decide_eq_false_iff_not]
          omega
        have hchar : unitChar c.toNat = c := by
          rw [unitChar, hhigh, hlow]
          exact Char.ofNat_toNat c
        rw [hunits, List.singleton_append, scalars_cons (by rw [hhigh, Bool.false_and]), hchar, ih,
          List.cons_append]
      · rw [hunits]
        simp [scalars, hu, hw, hpair, ih]

theorem scalars_units (chars : List Char) : scalars (units chars) = chars := by
  have h := scalars_units_append chars []
  rwa [List.append_nil, scalars, List.append_nil] at h

theorem scalars_of_pair {u w : Nat} {rest : List Nat} (h : (isHigh u && isLow w) = true) :
    scalars (u :: w :: rest) = pairChar u w :: scalars rest := by
  rw [scalars, if_pos h]

/-- A unit in no pair gives a character of one unit. -/
theorem length_charUnits_unitChar {u : Nat} (hu : u < 0x10000) :
    (charUnits (unitChar u)).length = 1 := by
  cases hhalf : isHigh u || isLow u with
  | true =>
      rw [unitChar, hhalf, if_pos rfl]
      rfl
  | false =>
      simp only [isHigh, isLow, Bool.or_eq_false_iff, Bool.and_eq_false_iff,
        decide_eq_false_iff_not] at hhalf
      rw [charUnits_unitChar (by omega), List.length_singleton]

/-- The characters at the front of a text take as many units of it as they have, also where
    half a pair was replaced. -/
theorem scalars_drop {text : List Nat} {chars rest : List Char} (hunits : ∀ u ∈ text, u < 0x10000)
    (h : scalars text = chars ++ rest) : scalars (text.drop (units chars).length) = rest := by
  induction chars generalizing text with
  | nil => exact h
  | cons c chars ih =>
      have hlength : (units (c :: chars)).length = (charUnits c).length + (units chars).length := by
        rw [units, List.flatMap_cons, List.length_append, units]
      rw [hlength, ← List.drop_drop]
      cases text with
      | nil => cases h
      | cons u text =>
          obtain ⟨hu, htext⟩ := List.forall_mem_cons.1 hunits
          by_cases hpaired : ∃ w after, text = w :: after ∧ (isHigh u && isLow w) = true
          case pos =>
            obtain ⟨w, after, rfl, hpair⟩ := hpaired
            rw [scalars_of_pair hpair] at h
            obtain ⟨rfl, hrest⟩ := List.cons.inj h
            rw [charUnits_pairChar (Bool.and_eq_true_iff.1 hpair).1 (Bool.and_eq_true_iff.1 hpair).2]
            exact ih (List.forall_mem_cons.1 htext).2 hrest
          case neg =>
            have halone : (isHigh u && text.head?.any isLow) = false := by
              cases text with
              | nil => exact Bool.and_false _
              | cons w after => exact Bool.eq_false_iff.2 fun hpair => hpaired ⟨w, after, rfl, hpair⟩
            rw [scalars_cons halone] at h
            obtain ⟨rfl, hrest⟩ := List.cons.inj h
            rw [length_charUnits_unitChar hu]
            exact ih htext hrest

theorem encode_units (chars : List Char) : encode (units chars) = utf8 chars := by
  rw [encode, scalars_units]

/-! ## Bytes of a character -/

/-- `(byte & 0xc0) === 0x80`. -/
def isContinuation (byte : UInt8) : Bool := byte &&& 0xC0 == 0x80

theorem isContinuation_ofNat {byte : Nat} (h : byte < 0x100) :
    isContinuation (UInt8.ofNat byte) = decide (0x80 ≤ byte ∧ byte < 0xC0) := by
  have hall : ∀ byte < 0x100, isContinuation (UInt8.ofNat byte)
      = decide (0x80 ≤ byte ∧ byte < 0xC0) := by decide +kernel
  exact hall byte h

theorem isContinuation_more {byte : Nat} (hlow : 0x80 ≤ byte) (hhigh : byte < 0xC0) :
    isContinuation (UInt8.ofNat byte) = true := by
  rw [isContinuation_ofNat (by omega), decide_eq_true_eq]
  exact ⟨hlow, hhigh⟩

theorem isContinuation_first {byte : Nat} (hbyte : byte < 0x100)
    (h : byte < 0x80 ∨ 0xC0 ≤ byte) : isContinuation (UInt8.ofNat byte) = false := by
  rw [isContinuation_ofNat hbyte, decide_eq_false_iff_not]
  omega

/-- A character starts with a byte that is no continuation, and goes on with continuations. -/
theorem utf8EncodeChar_cases (c : Char) : ∃ byte rest, String.utf8EncodeChar c = byte :: rest
    ∧ isContinuation byte = false ∧ ∀ more ∈ rest, isContinuation more = true := by
  have hvalid : c.val.toNat < 0xD800 ∨ (0xDFFF < c.val.toNat ∧ c.val.toNat < 0x110000) := c.valid
  fun_cases String.utf8EncodeChar c
  case case1 v h => exact ⟨_, _, rfl, isContinuation_first (by omega) (by omega), by simp⟩
  case case2 v hascii h =>
    refine ⟨_, _, rfl, isContinuation_first (by omega) (by omega), ?_⟩
    exact List.forall_mem_singleton.2 (isContinuation_more (by omega) (by omega))
  case case3 v hascii htwo h =>
    refine ⟨_, _, rfl, isContinuation_first (by omega) (by omega), ?_⟩
    exact List.forall_mem_cons.2 ⟨isContinuation_more (by omega) (by omega),
      List.forall_mem_singleton.2 (isContinuation_more (by omega) (by omega))⟩
  case case4 v hascii htwo hthree =>
    refine ⟨_, _, rfl, isContinuation_first (by omega) (by omega), ?_⟩
    exact List.forall_mem_cons.2 ⟨isContinuation_more (by omega) (by omega),
      List.forall_mem_cons.2 ⟨isContinuation_more (by omega) (by omega),
        List.forall_mem_singleton.2 (isContinuation_more (by omega) (by omega))⟩⟩

end TextCoding
