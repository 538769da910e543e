-- SUMMARY: How many characters a JSON text takes, whole or quoted again.
import LingxiOS.Protocol.JsonSize

/-! # JSON Lengths

A character of a string takes at most six where it is written. A JSON text has no control
characters and no halves of pairs, so a piece cut off it takes at most two for each of its
characters in a string, and four more for a pair that was divided. -/

namespace LingxiOS.Stringify

open JsonText

/-! ## Strings -/

theorem length_hexEscape (u : Nat) : (hexEscape u).length = 6 := rfl

theorem length_stringifyUnit_le (u : Nat) : (stringifyUnit u).length ≤ 6 := by
  unfold stringifyUnit escapeChar
  split
  · exact Nat.le_of_eq (length_hexEscape u)
  · split
    · simp
    · split
      · exact Nat.le_of_eq (length_hexEscape u)
      · simp

/-- Escaping takes at most six characters for one. -/
theorem length_stringifyText_le (text : Units) : (stringifyText text).length ≤ 6 * text.length := by
  induction text using stringifyText.induct with
  | case1 => simp [stringifyText]
  | case2 u => simpa [stringifyText] using length_stringifyUnit_le u
  | case3 u w rest hpair ih =>
      simp only [stringifyText, hpair, if_true, List.length_cons]
      omega
  | case4 u w rest hpair ih =>
      have hunit := length_stringifyUnit_le u
      simp only [stringifyText, hpair, List.length_cons] at ih ⊢
      simp only [Bool.false_eq_true, if_false, List.length_append]
      omega

def half (u : Nat) : Nat := (isHigh u || isLow u).toNat

/-- The halves of pairs that stand alone. -/
def loneHalves : Units → Nat
  | [] => 0
  | [u] => half u
  | u :: w :: rest =>
      if isHigh u && isLow w then loneHalves rest else half u + loneHalves (w :: rest)

theorem length_stringifyUnit_plain {u : Nat} (h : 32 ≤ u) :
    (stringifyUnit u).length ≤ 2 + 4 * half u := by
  unfold stringifyUnit escapeChar
  split
  case isTrue hhalf => simp [half, hhalf, length_hexEscape]
  case isFalse =>
    split
    · simp
    · rw [if_neg (by omega), List.length_singleton]
      omega

/-- Without control characters only a half of a pair takes more than two characters. -/
theorem length_stringifyText_plain {text : Units} (h : ∀ u ∈ text, 32 ≤ u) :
    (stringifyText text).length ≤ 2 * text.length + 4 * loneHalves text := by
  induction text using stringifyText.induct with
  | case1 => simp [stringifyText]
  | case2 u =>
      simpa [stringifyText, loneHalves] using length_stringifyUnit_plain (h u List.mem_cons_self)
  | case3 u w rest hpair ih =>
      have hrest := ih fun v hv => h v (List.mem_cons_of_mem _ (List.mem_cons_of_mem _ hv))
      simp only [stringifyText, loneHalves, hpair, if_true, List.length_cons]
      omega
  | case4 u w rest hpair ih =>
      have hunit := length_stringifyUnit_plain (h u List.mem_cons_self)
      have hrest := ih fun v hv => h v (List.mem_cons_of_mem _ hv)
      simp only [stringifyText, loneHalves, hpair, Bool.false_eq_true, if_false,
        List.length_append, List.length_cons] at hrest ⊢
      omega

/-- A cut divides at most one pair. -/
theorem loneHalves_take (text : Units) (n : Nat) : loneHalves (text.take n) ≤ loneHalves text + 1 := by
  induction text using loneHalves.induct generalizing n with
  | case1 => simp [loneHalves]
  | case2 u =>
      cases n with
      | zero => simp [loneHalves]
      | succ n => simp
  | case3 u w rest hpair ih =>
      match n with
      | 0 => simp [loneHalves]
      | 1 =>
          have hhalf : half u ≤ 1 := Bool.toNat_le _
          simp only [List.take_succ_cons, List.take_zero, loneHalves]
          omega
      | n + 2 =>
          simp only [List.take_succ_cons, loneHalves, hpair, if_true]
          exact ih n
  | case4 u w rest hpair ih =>
      match n with
      | 0 => simp [loneHalves]
      | 1 =>
          simp [loneHalves, hpair]
          omega
      | n + 2 =>
          have hrest := ih (n + 1)
          simp only [List.take_succ_cons, loneHalves, hpair, Bool.false_eq_true, if_false] at hrest ⊢
          omega

/-! ## Printed values -/

theorem additive_length : Additive List.length := ⟨fun _ _ _ => List.length_append⟩

theorem additive_loneHalves : Additive loneHalves where
  append text more h := by
    induction text using loneHalves.induct with
    | case1 => simp [loneHalves]
    | case2 u =>
        cases more with
        | nil => simp [loneHalves]
        | cons w more =>
            have hw : isLow w = false := h w rfl
            simp [loneHalves, hw]
    | case3 u w rest hpair ih => simp only [List.cons_append, loneHalves, hpair, if_true, ih]
    | case4 u w rest hpair ih =>
        simp only [List.cons_append] at ih
        simp only [List.cons_append, loneHalves, hpair, ih]
        simp
        omega

theorem loneHalves_of_lt {text : Units} (h : ∀ u ∈ text, u < 0x80) : loneHalves text = 0 := by
  have hhalf {u : Nat} (hu : u < 0x80) : isHigh u = false ∧ half u = 0 := by
    simp only [half, isHigh, isLow, Bool.toNat_eq_zero, Bool.or_eq_false_iff, Bool.and_eq_false_iff,
      decide_eq_false_iff_not]
    omega
  induction text using loneHalves.induct with
  | case1 => rfl
  | case2 u => simp [loneHalves, hhalf (h u List.mem_cons_self)]
  | case3 u w rest hpair ih =>
      obtain ⟨hhigh, -⟩ := hhalf (h u List.mem_cons_self)
      simp [hhigh] at hpair
  | case4 u w rest hpair ih =>
      have hrest := ih fun v hv => h v (List.mem_cons_of_mem _ hv)
      simp [loneHalves, hhalf (h u List.mem_cons_self), hrest]

theorem loneHalves_hexEscape (u : Nat) : loneHalves (hexEscape u) = 0 := by
  refine loneHalves_of_lt fun v hv => ?_
  have hascii := hexEscape_ascii u v hv
  omega

theorem loneHalves_stringifyUnit (u : Nat) : loneHalves (stringifyUnit u) = 0 := by
  unfold stringifyUnit escapeChar
  split
  case isTrue => exact loneHalves_hexEscape u
  case isFalse hhalf =>
    split
    case h_1 e hshort =>
      refine loneHalves_of_lt fun v hv => ?_
      unfold shortEscape at hshort
      grind
    case h_2 =>
      split
      case isTrue => exact loneHalves_hexEscape u
      case isFalse => simpa [loneHalves, half] using hhalf

/-- Halves of pairs are escaped. -/
theorem loneHalves_stringifyText (text : Units) : loneHalves (stringifyText text) = 0 := by
  induction text using stringifyText.induct with
  | case1 => rfl
  | case2 u => exact loneHalves_stringifyUnit u
  | case3 u w rest hpair ih => simp [stringifyText, loneHalves, hpair, ih]
  | case4 u w rest hpair ih =>
      have hsum := additive_loneHalves.append (stringifyUnit u) _ (heads_stringifyText (w :: rest))
      rw [stringifyText, if_neg hpair, hsum, loneHalves_stringifyUnit, ih]

theorem length_str (text : Units) :
    (print jsStyle Number.text (.str text)).length = 2 + (stringifyText text).length := by
  rw [print, additive_length.quote, List.length_singleton]
  omega

theorem length_obj (members : List (Units × Value Number)) :
    (print jsStyle Number.text (.obj members)).length
      = 2 + (members.map fun m => 3 + (stringifyText m.1).length
        + (print jsStyle Number.text m.2).length).sum + (members.length - 1) := by
  have hmember (m : Units × Value Number) : (quote jsStyle m.1).length + 1
      + (print jsStyle Number.text m.2).length
      = 3 + (stringifyText m.1).length + (print jsStyle Number.text m.2).length := by
    have hquote := length_str m.1
    rw [print] at hquote
    omega
  rw [additive_length.obj, additive_length.printMembers]
  simp only [List.length_singleton, hmember]
  omega

theorem length_arr (items : List (Value Number)) :
    (print jsStyle Number.text (.arr items)).length
      = 2 + (items.map fun v => (print jsStyle Number.text v).length).sum + (items.length - 1) := by
  rw [additive_length.arr, additive_length.printItems]
  simp only [List.length_singleton]
  omega

/-- A JSON text has no half of a pair. -/
theorem loneHalves_print (v : Value Number) : loneHalves (print jsStyle Number.text v) = 0 := by
  have hquote (text : Units) : loneHalves (quote jsStyle text) = 0 := by
    rw [additive_loneHalves.quote, loneHalves_stringifyText]
    rfl
  induction v using Value.induct with
  | null => rfl
  | bool b => cases b <;> rfl
  | num n =>
      refine loneHalves_of_lt fun u hu => ?_
      have hbound := n.text_bounds u hu
      omega
  | str text => exact hquote text
  | arr items ih =>
      rw [additive_loneHalves.arr, additive_loneHalves.printItems, List.map_congr_left ih]
      simp [loneHalves, half, isHigh, isLow]
  | obj members ih =>
      have hmember : ∀ m ∈ members, loneHalves (quote jsStyle m.1) + loneHalves [58]
          + loneHalves (print jsStyle Number.text m.2) = 0 := by
        intro m hm
        rw [hquote, ih m hm]
        rfl
      rw [additive_loneHalves.obj, additive_loneHalves.printMembers, List.map_congr_left hmember]
      simp [loneHalves, half, isHigh, isLow]

/-! ## Texts written into a string -/

theorem stringifyUnit_printed (u : Nat) : ∀ v ∈ stringifyUnit u, 32 ≤ v := by
  unfold stringifyUnit escapeChar
  split
  case isTrue => exact fun v hv => (hexEscape_ascii u v hv).1
  case isFalse =>
    split
    case h_1 e hshort =>
      intro v hv
      unfold shortEscape at hshort
      grind
    case h_2 =>
      split
      case isTrue => exact fun v hv => (hexEscape_ascii u v hv).1
      case isFalse hlow => simpa using hlow

theorem stringifyText_printed (text : Units) : ∀ v ∈ stringifyText text, 32 ≤ v := by
  induction text using stringifyText.induct with
  | case1 => simp [stringifyText]
  | case2 u => exact stringifyUnit_printed u
  | case3 u w rest hpair ih =>
      have hhalves : 32 ≤ u ∧ 32 ≤ w := by
        simp only [isHigh, isLow, Bool.and_eq_true, decide_eq_true_eq] at hpair
        omega
      simpa [stringifyText, hpair, hhalves] using ih
  | case4 u w rest hpair ih =>
      rw [stringifyText, if_neg hpair]
      exact fun v hv => (List.mem_append.1 hv).elim (stringifyUnit_printed u v) (ih v)

/-- A JSON text has no control characters. -/
theorem print_printed (v : Value Number) : ∀ u ∈ print jsStyle Number.text v, 32 ≤ u := by
  have hwithin : jsStyle.Within Number.text (fun _ => True) (32 ≤ ·) := by
    refine ⟨by decide, fun s _ => stringifyText_printed s, by decide, by decide, fun n u hu => ?_⟩
    have hbound := n.text_bounds u hu
    omega
  refine print_within hwithin v ?_
  induction v using Value.induct with
  | null => trivial
  | bool b => trivial
  | num n => trivial
  | str s => exact fun _ _ => trivial
  | arr items ih => exact overItems_iff.2 ih
  | obj members ih => exact overMembers_iff.2 fun m hm => ⟨fun _ _ => trivial, ih m hm⟩

/-- The text of 16-bit strings is of 16-bit units. -/
theorem stringifyText_units {text : Units} (h : ∀ u ∈ text, u < 0x10000) :
    ∀ v ∈ stringifyText text, v < 0x10000 := by
  have hunit {u : Nat} (hu : u < 0x10000) : ∀ v ∈ stringifyUnit u, v < 0x10000 := by
    have hhex : ∀ v ∈ hexEscape u, v < 0x10000 := fun v hv => by
      have hascii := hexEscape_ascii u v hv
      omega
    unfold stringifyUnit escapeChar
    split
    · exact hhex
    · split
      case h_1 e hshort =>
        intro v hv
        unfold shortEscape at hshort
        grind
      case h_2 =>
        split
        · exact hhex
        · simpa using hu
  induction text using stringifyText.induct with
  | case1 => simp [stringifyText]
  | case2 u => exact hunit (h u List.mem_cons_self)
  | case3 u w rest hpair ih =>
      simp only [List.forall_mem_cons] at h
      simpa [stringifyText, hpair, h.1, h.2.1] using ih h.2.2
  | case4 u w rest hpair ih =>
      rw [List.forall_mem_cons] at h
      rw [stringifyText, if_neg hpair]
      exact fun v hv => (List.mem_append.1 hv).elim (hunit h.1 v) (ih h.2 v)

theorem print_units {v : Value Number} (h : v.Over (· < 0x10000)) :
    ∀ u ∈ print jsStyle Number.text v, u < 0x10000 := by
  have hwithin : jsStyle.Within Number.text (· < 0x10000) (· < 0x10000) := by
    refine ⟨by decide, fun s => stringifyText_units, by decide, by decide, fun n u hu => ?_⟩
    have hbound := n.text_bounds u hu
    omega
  exact print_within hwithin v h

/-! ## Pieces in a string -/

/-- What a piece of a JSON text takes in a string. -/
theorem length_stringifyText_take (v : Value Number) (n : Nat) :
    (stringifyText ((print jsStyle Number.text v).take n)).length ≤ 2 * n + 4 := by
  have hprinted : ∀ u ∈ (print jsStyle Number.text v).take n, 32 ≤ u :=
    fun u hu => print_printed v u (List.mem_of_mem_take hu)
  have hlone := loneHalves_take (print jsStyle Number.text v) n
  rw [loneHalves_print] at hlone
  have hlength := List.length_take_le n (print jsStyle Number.text v)
  exact (length_stringifyText_plain hprinted).trans (by omega)

end LingxiOS.Stringify
