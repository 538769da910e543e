-- SUMMARY: How many bytes a JSON text takes, and inside another one.
import LingxiOS.Protocol.Stringify

/-! # JSON Sizes

The bytes of a text add up wherever no pair is divided, and so do the bytes of a text that
is escaped once more. For such a measure the size of a printed value follows its structure. -/

namespace LingxiOS.Stringify

open JsonText

/-! ## Measures -/

/-- The text does not start with the second half of a pair. -/
def Heads (text : Units) : Prop := ∀ u ∈ text.head?, isLow u = false

/-- A measure of texts that adds up where no pair is divided. -/
structure Additive (μ : Units → Nat) : Prop where
  append : ∀ text more, Heads more → μ (text ++ more) = μ text + μ more

theorem heads_nil : Heads [] := by simp [Heads]

theorem heads_cons {u : Nat} {rest : Units} (h : u < 0x80) : Heads (u :: rest) := by
  simp [Heads, isLow]
  omega

theorem heads_append {text more : Units} (h : Heads text) (hne : text ≠ []) :
    Heads (text ++ more) := by
  cases text with
  | nil => exact absurd rfl hne
  | cons u text => simpa [Heads] using h

theorem additive_byteLength : Additive byteLength where
  append text more h := by
    induction text using byteLength.induct with
    | case1 => simp [byteLength]
    | case2 u =>
        cases more with
        | nil => simp [byteLength]
        | cons w more =>
            have hw : isLow w = false := h w rfl
            simp [byteLength, hw]
    | case3 u w rest hpair ih =>
        simp only [List.cons_append, byteLength, hpair, if_true, ih]
        omega
    | case4 u w rest hpair ih =>
        simp only [List.cons_append] at ih
        simp only [List.cons_append, byteLength, hpair, ih]
        simp
        omega

theorem stringifyText_append (text : Units) {more : Units} (h : Heads more) :
    stringifyText (text ++ more) = stringifyText text ++ stringifyText more := by
  induction text using stringifyText.induct with
  | case1 => rfl
  | case2 u =>
      cases more with
      | nil => simp [stringifyText]
      | cons w more =>
          have hw : isLow w = false := h w rfl
          simp [stringifyText, hw]
  | case3 u w rest hpair ih => simp [stringifyText, hpair, ih]
  | case4 u w rest hpair ih =>
      simp only [List.cons_append] at ih
      simp [stringifyText, hpair, ih]

theorem stringifyUnit_head (u : Nat) : ∃ v rest, stringifyUnit u = v :: rest
    ∧ isLow v = false := by
  rw [stringifyUnit]
  split
  case isTrue => exact ⟨_, _, rfl, rfl⟩
  case isFalse h =>
    rw [escapeChar]
    split
    case h_1 => exact ⟨_, _, rfl, rfl⟩
    case h_2 =>
      split
      case isTrue => exact ⟨_, _, rfl, rfl⟩
      case isFalse => exact ⟨u, [], rfl, by simp_all⟩

/-- Half a pair is escaped, so no printed text starts with one. -/
theorem heads_stringifyText (text : Units) : Heads (stringifyText text) := by
  match text with
  | [] => exact heads_nil
  | [u] =>
      obtain ⟨v, rest, hunit, hv⟩ := stringifyUnit_head u
      simpa [stringifyText, hunit, Heads] using hv
  | u :: w :: rest =>
      rw [stringifyText]
      split
      case isTrue hpair =>
        have hhigh : isLow u = false := by
          simp only [isHigh, isLow, Bool.and_eq_true, decide_eq_true_eq] at hpair
          simp only [isLow, Bool.and_eq_false_iff, decide_eq_false_iff_not]
          omega
        simpa [Heads] using hhigh
      case isFalse =>
        obtain ⟨v, rest, hunit, hv⟩ := stringifyUnit_head u
        simpa [hunit, Heads] using hv

/-- The bytes of a text inside a string. -/
def quotedBytes (text : Units) : Nat := byteLength (stringifyText text)

theorem additive_quotedBytes : Additive quotedBytes where
  append text more h := by
    rw [quotedBytes, stringifyText_append text h,
      additive_byteLength.append _ _ (heads_stringifyText more)]
    rfl

/-! ## Printed values -/

section Printed

variable {μ : Units → Nat} (hμ : Additive μ)

theorem heads_print (v : Value Number) (rest : Units) :
    Heads (print jsStyle Number.text v ++ rest) := by
  cases v with
  | bool b => cases b <;> exact heads_cons (by decide)
  | num n =>
      obtain ⟨u, us, htext, -⟩ := writes_text.starts n
      have hplain := n.text_plain u (htext ▸ List.mem_cons_self)
      rw [print, htext]
      exact heads_cons (by omega)
  | null | str | arr | obj => exact heads_cons (by decide)

theorem heads_printItems (items : List (Value Number)) {rest : Units} (hrest : Heads rest) :
    Heads (printItems jsStyle Number.text items ++ rest) := by
  match items with
  | [] => exact hrest
  | [v] => simpa only [JsonText.printItems] using heads_print v rest
  | v :: w :: items => simpa only [JsonText.printItems, List.append_assoc] using heads_print v _

theorem heads_printMembers (members : List (Units × Value Number)) {rest : Units}
    (hrest : Heads rest) : Heads (printMembers jsStyle Number.text members ++ rest) := by
  match members with
  | [] => exact hrest
  | [(key, v)] => exact heads_cons (by decide)
  | (key, v) :: m :: members => exact heads_cons (by decide)

include hμ

theorem Additive.nil : μ [] = 0 := by
  have h := hμ.append [] [] heads_nil
  simp at h
  exact h

theorem Additive.cons (text : Units) {u : Nat} {rest : Units} (hu : u < 0x80) (hrest : Heads rest) :
    μ (text ++ u :: rest) = μ text + μ [u] + μ rest := by
  have hcons := hμ.append [u] rest hrest
  rw [hμ.append text _ (heads_cons hu), Nat.add_assoc]
  exact congrArg (μ text + ·) hcons

/-- A text between two marks. -/
theorem Additive.between {text : Units} {opening closing : Nat} (hclosing : closing < 0x80)
    (htext : Heads (text ++ [closing])) :
    μ (opening :: text ++ [closing]) = μ [opening] + μ text + μ [closing] := by
  have hopen := hμ.append [opening] _ htext
  have hclose := hμ.append text [closing] (heads_cons hclosing)
  rw [hclose, ← Nat.add_assoc] at hopen
  exact hopen

theorem Additive.quote (s : Units) :
    μ (quote jsStyle s) = μ [34] + μ (stringifyText s) + μ [34] := by
  refine hμ.between (by decide) ?_
  show Heads (stringifyText s ++ [34])
  cases htext : stringifyText s with
  | nil => exact heads_cons (by decide)
  | cons u rest => exact heads_append (htext ▸ heads_stringifyText s) (List.cons_ne_nil _ _)

theorem Additive.printItems (items : List (Value Number)) :
    μ (printItems jsStyle Number.text items)
      = (items.map fun v => μ (print jsStyle Number.text v)).sum + (items.length - 1) * μ [44] := by
  match items with
  | [] => simp [JsonText.printItems, hμ.nil]
  | [v] => simp [JsonText.printItems]
  | v :: w :: rest =>
      have hheads : Heads (JsonText.printItems jsStyle Number.text (w :: rest)) := by
        simpa using heads_printItems (w :: rest) heads_nil
      have hrest := Additive.printItems (w :: rest)
      have hcons := hμ.cons (print jsStyle Number.text v) (show 44 < 0x80 by decide) hheads
      have htext : JsonText.printItems jsStyle Number.text (v :: w :: rest)
          = print jsStyle Number.text v ++ 44 :: JsonText.printItems jsStyle Number.text (w :: rest) := by
        simp [JsonText.printItems, jsStyle]
      rw [htext, hcons, hrest]
      simp only [List.map_cons, List.sum_cons, List.length_cons, Nat.add_sub_cancel, Nat.add_mul]
      omega

theorem Additive.printMembers (members : List (Units × Value Number)) :
    μ (printMembers jsStyle Number.text members)
      = (members.map fun m => μ (JsonText.quote jsStyle m.1) + μ [58]
        + μ (print jsStyle Number.text m.2)).sum + (members.length - 1) * μ [44] := by
  have hmember (key : Units) (v : Value Number) (rest : Units) (hrest : Heads rest) :
      μ (JsonText.quote jsStyle key ++ 58 :: (print jsStyle Number.text v ++ rest))
        = μ (JsonText.quote jsStyle key) + μ [58] + μ (print jsStyle Number.text v) + μ rest := by
    rw [hμ.cons _ (by decide) (heads_print v rest), hμ.append _ _ hrest, Nat.add_assoc,
      Nat.add_assoc, Nat.add_assoc]
  match members with
  | [] => simp [JsonText.printMembers, hμ.nil]
  | [(key, v)] =>
      have hone := hmember key v [] heads_nil
      simp only [List.append_nil, hμ.nil, Nat.add_zero] at hone
      simpa [JsonText.printMembers, jsStyle] using hone
  | (key, v) :: m :: rest =>
      have hheads : Heads (44 :: JsonText.printMembers jsStyle Number.text (m :: rest)) :=
        heads_cons (by decide)
      have hfirst : Heads (JsonText.printMembers jsStyle Number.text (m :: rest)) := by
        simpa using heads_printMembers (m :: rest) heads_nil
      have htext : JsonText.printMembers jsStyle Number.text ((key, v) :: m :: rest)
          = JsonText.quote jsStyle key ++ 58 :: (print jsStyle Number.text v
            ++ 44 :: JsonText.printMembers jsStyle Number.text (m :: rest)) := by
        simp [JsonText.printMembers, jsStyle]
      have hcomma := hμ.append [44] _ hfirst
      rw [htext, hmember key v _ hheads]
      rw [List.singleton_append] at hcomma
      rw [hcomma, Additive.printMembers (m :: rest)]
      simp only [List.map_cons, List.sum_cons, List.length_cons, Nat.add_sub_cancel, Nat.add_mul]
      omega

theorem Additive.arr (items : List (Value Number)) : μ (print jsStyle Number.text (.arr items))
    = μ [91] + μ (JsonText.printItems jsStyle Number.text items) + μ [93] :=
  hμ.between (by decide) (heads_printItems items (heads_cons (by decide)))

theorem Additive.obj (members : List (Units × Value Number)) :
    μ (print jsStyle Number.text (.obj members))
      = μ [123] + μ (JsonText.printMembers jsStyle Number.text members) + μ [125] :=
  hμ.between (by decide) (heads_printMembers members (heads_cons (by decide)))

end Printed

/-! ## Bytes -/

theorem byteLength_marks : ∀ u ∈ [34, 44, 58, 91, 93, 123, 125], byteLength [u] = 1 := by decide

theorem byteLength_str (text : Units) : byteLength (print jsStyle Number.text (.str text))
    = 2 + byteLength (stringifyText text) := by
  have hsize := additive_byteLength.quote text
  rw [byteLength_marks 34 (by decide)] at hsize
  rw [print, hsize]
  omega

theorem byteLength_obj (members : List (Units × Value Number)) :
    byteLength (print jsStyle Number.text (.obj members))
      = 2 + (members.map fun m => 3 + byteLength (stringifyText m.1)
        + byteLength (print jsStyle Number.text m.2)).sum + (members.length - 1) := by
  have hmember (m : Units × Value Number) : byteLength (quote jsStyle m.1) + 1
      + byteLength (print jsStyle Number.text m.2)
      = 3 + byteLength (stringifyText m.1) + byteLength (print jsStyle Number.text m.2) := by
    have hquote := byteLength_str m.1
    rw [print] at hquote
    omega
  rw [additive_byteLength.obj, additive_byteLength.printMembers, byteLength_marks 123 (by decide),
    byteLength_marks 125 (by decide), byteLength_marks 44 (by decide),
    byteLength_marks 58 (by decide)]
  simp only [hmember]
  omega

theorem byteLength_arr (items : List (Value Number)) :
    byteLength (print jsStyle Number.text (.arr items))
      = 2 + (items.map fun v => byteLength (print jsStyle Number.text v)).sum
        + (items.length - 1) := by
  rw [additive_byteLength.arr, additive_byteLength.printItems, byteLength_marks 91 (by decide),
    byteLength_marks 93 (by decide), byteLength_marks 44 (by decide)]
  omega

/-- An ASCII text has a byte for each of its units. -/
theorem byteLength_ascii {text : Units} (h : ∀ u ∈ text, u < 0x80) :
    byteLength text = text.length := by
  induction text using byteLength.induct with
  | case1 => rfl
  | case2 u => simp [byteLength, unitBytes, h u List.mem_cons_self]
  | case3 u w rest hpair ih =>
      have hu := h u List.mem_cons_self
      simp only [isHigh, Bool.and_eq_true, decide_eq_true_eq] at hpair
      omega
  | case4 u w rest hpair ih =>
      have hu : unitBytes u = 1 := if_pos (h u List.mem_cons_self)
      have hrest := ih fun v hv => h v (List.mem_cons_of_mem _ hv)
      simp only [byteLength, hpair, hu, hrest, List.length_cons]
      simp
      omega

/-- A text without quotes, backslashes, control characters and halves of pairs is written as
    it is. -/
theorem stringifyText_plain {text : Units} (h : ∀ u ∈ text, 32 ≤ u ∧ u < 0x80 ∧ u ≠ 34 ∧ u ≠ 92) :
    stringifyText text = text := by
  have hunit {u : Nat} (hu : 32 ≤ u ∧ u < 0x80 ∧ u ≠ 34 ∧ u ≠ 92) : stringifyUnit u = [u] := by
    have hhalf : (isHigh u || isLow u) = false := by
      simp only [isHigh, isLow, Bool.or_eq_false_iff, Bool.and_eq_false_iff,
        decide_eq_false_iff_not]
      omega
    have hshort : shortEscape u = none := by
      unfold shortEscape
      grind
    rw [stringifyUnit, hhalf, if_neg (by decide), escapeChar, hshort]
    exact if_neg (by omega)
  induction text using stringifyText.induct with
  | case1 => rfl
  | case2 u => exact hunit (h u List.mem_cons_self)
  | case3 u w rest hpair ih =>
      have hu := h u List.mem_cons_self
      simp only [isHigh, Bool.and_eq_true, decide_eq_true_eq] at hpair
      omega
  | case4 u w rest hpair ih =>
      have hrest := ih fun v hv => h v (List.mem_cons_of_mem _ hv)
      rw [stringifyText, if_neg hpair, hunit (h u List.mem_cons_self), hrest]
      rfl

end LingxiOS.Stringify
