-- SUMMARY: Cuts of a list whose items open and close pairs.
import Mathlib.Data.List.Basic

/-! # Pairs In A List

Some items of a list open a pair and others close one, by key. A list is cut in
two at a boundary that keeps every item still open after it, and leaves no item
that closes a pair after a boundary whose opening lies before it. -/

namespace Pairs

variable {α κ : Type*} [DecidableEq κ] (opens closes : α → Option κ) (items : List α)

/-- Where a pair is opened first. -/
def openedAt (k : κ) : Option Nat := items.findIdx? fun item => opens item = some k

/-- No item closes the pair this one opens. -/
def isOpen (item : α) : Bool :=
  (opens item).any fun k => !items.any fun other => closes other = some k

/-- Move a boundary before the first item that is still open. -/
def holdBack (boundary : Nat) : Nat :=
  match (items.take boundary).findIdx? (isOpen opens closes items) with
  | some index => index
  | none => boundary

/-- Where the pair an item closes was opened, if that lies before the boundary. -/
def openedBefore (boundary : Nat) (item : α) : Option Nat :=
  (closes item).bind fun k => (openedAt opens items k).filter fun first => first < boundary

theorem openedBefore_lt {boundary first : Nat} {item : α}
    (h : openedBefore opens closes items boundary item = some first) : first < boundary := by
  obtain ⟨k, -, hfirst⟩ := Option.bind_eq_some_iff.1 h
  simpa using (Option.filter_eq_some_iff.1 hfirst).2

/-- Scan the items from `index` on, moving the boundary to the opening of every pair
    that it would cut, and starting over there. -/
def closeOver (boundary index : Nat) : Nat :=
  if hindex : index < items.length then
    match hopened : openedBefore opens closes items boundary items[index] with
    | some first => closeOver first first
    | none => closeOver boundary (index + 1)
  else boundary
termination_by boundary * (items.length + 1) + (items.length - index)
decreasing_by
  · have hlt := openedBefore_lt opens closes items hopened
    calc first * (items.length + 1) + (items.length - first)
        ≤ first * (items.length + 1) + items.length := by omega
      _ < (first + 1) * (items.length + 1) := by rw [Nat.succ_mul]; omega
      _ ≤ boundary * (items.length + 1) := Nat.mul_le_mul_right _ hlt
      _ ≤ boundary * (items.length + 1) + (items.length - index) := Nat.le_add_right _ _
  · omega

/-- The boundary moved before every open item, and closed over pairs. -/
def cut (boundary : Nat) : Nat :=
  let held := holdBack opens closes items boundary
  closeOver opens closes items held held

/-- No item after the boundary closes a pair that was first opened before it. -/
def Closed (boundary : Nat) : Prop :=
  ∀ item ∈ items.drop boundary, openedBefore opens closes items boundary item = none

variable {opens closes items} {boundary index : Nat}

/-! ## Holding back -/

theorem holdBack_le : holdBack opens closes items boundary ≤ boundary := by
  unfold holdBack
  split
  · rename_i first hfirst
    obtain ⟨hlt, -⟩ := List.findIdx?_eq_some_iff_getElem.1 hfirst
    have hlength := List.length_take_le boundary items
    omega
  · exact Nat.le_refl _

/-- An open item lies behind the boundary it was held back by. -/
theorem holdBack_le_of_open {item : α} (hitem : items[index]? = some item)
    (hopen : isOpen opens closes items item = true) :
    holdBack opens closes items boundary ≤ index := by
  unfold holdBack
  split
  · rename_i first hfirst
    obtain ⟨hlt, -, hbefore⟩ := List.findIdx?_eq_some_iff_getElem.1 hfirst
    by_contra hindex
    have hget : (items.take boundary)[index] = item := by
      rw [List.getElem_take]
      exact (List.getElem?_eq_some_iff.1 hitem).2
    have hnot := hbefore index (by omega)
    rw [hget] at hnot
    exact hnot hopen
  · rename_i hnone
    by_contra hindex
    obtain ⟨hlt, rfl⟩ := List.getElem?_eq_some_iff.1 hitem
    have hmem : items[index] ∈ items.take boundary :=
      List.mem_take_iff_getElem.2 ⟨index, by omega, rfl⟩
    rw [List.findIdx?_eq_none_iff] at hnone
    rw [hnone _ hmem] at hopen
    cases hopen

/-- A boundary with no open item before it is not held back further. -/
theorem le_holdBack {other : Nat} (hle : other ≤ boundary)
    (hnone : ∀ item ∈ items.take other, isOpen opens closes items item = false) :
    other ≤ holdBack opens closes items boundary := by
  unfold holdBack
  split
  · rename_i first hfirst
    obtain ⟨hlt, hopen, -⟩ := List.findIdx?_eq_some_iff_getElem.1 hfirst
    by_contra hother
    have hlength : first < items.length := by
      rw [List.length_take] at hlt
      omega
    have hclosed := hnone items[first] (List.mem_take_iff_getElem.2 ⟨first, by omega, rfl⟩)
    rw [List.getElem_take, hclosed] at hopen
    cases hopen
  · exact hle

/-! ## Closing over pairs -/

theorem closeOver_of_opened {first : Nat} (hindex : index < items.length)
    (h : openedBefore opens closes items boundary items[index] = some first) :
    closeOver opens closes items boundary index = closeOver opens closes items first first := by
  rw [closeOver, dif_pos hindex]
  split
  · rename_i other hother
    rw [h] at hother
    cases hother
    rfl
  · rename_i hnone
    rw [h] at hnone
    cases hnone

theorem closeOver_of_none (hindex : index < items.length)
    (h : openedBefore opens closes items boundary items[index] = none) :
    closeOver opens closes items boundary index = closeOver opens closes items boundary (index + 1) := by
  rw [closeOver, dif_pos hindex]
  split
  · rename_i other hother
    rw [h] at hother
    cases hother
  · rfl

theorem closeOver_le : closeOver opens closes items boundary index ≤ boundary := by
  induction boundary, index using closeOver.induct opens closes items with
  | case1 boundary index hindex first hopened ih =>
      rw [closeOver_of_opened hindex hopened]
      exact Nat.le_trans ih (Nat.le_of_lt (openedBefore_lt opens closes items hopened))
  | case2 boundary index hindex hnone ih =>
      rw [closeOver_of_none hindex hnone]
      exact ih
  | case3 boundary index hindex =>
      have hsame : closeOver opens closes items boundary index = boundary := by
        rw [closeOver, dif_neg hindex]
      exact Nat.le_of_eq hsame

/-- The scan ends with a boundary that is closed, if nothing it has passed was cut. -/
theorem closeOver_closed
    (hpassed : ∀ i (h : i < items.length), boundary ≤ i → i < index →
      openedBefore opens closes items boundary items[i] = none) :
    Closed opens closes items (closeOver opens closes items boundary index) := by
  induction boundary, index using closeOver.induct opens closes items with
  | case1 boundary index hindex first hopened ih =>
      rw [closeOver_of_opened hindex hopened]
      exact ih fun i _ hle hlt => absurd hle (Nat.not_le_of_lt hlt)
  | case2 boundary index hindex hnone ih =>
      rw [closeOver_of_none hindex hnone]
      refine ih fun i h hle hlt => ?_
      by_cases hi : i = index
      · subst hi
        exact hnone
      · exact hpassed i h hle (by omega)
  | case3 boundary index hindex =>
      rw [closeOver, dif_neg hindex]
      intro item hitem
      obtain ⟨i, hi, rfl⟩ := List.mem_drop_iff_getElem.1 hitem
      exact hpassed _ _ (Nat.le_add_right _ _) (by omega)

/-- No closed boundary lies between the one the scan ends with and the one it started with. -/
theorem le_closeOver {other : Nat} (hclosed : Closed opens closes items other)
    (hle : other ≤ boundary) (hindex : boundary ≤ index) :
    other ≤ closeOver opens closes items boundary index := by
  induction boundary, index using closeOver.induct opens closes items with
  | case1 boundary index hlt first hopened ih =>
      rw [closeOver_of_opened hlt hopened]
      apply ih _ (Nat.le_refl _)
      have hmem : items[index] ∈ items.drop other :=
        List.mem_drop_iff_getElem.2 ⟨index - other, by omega, by congr 1; omega⟩
      obtain ⟨k, hk, hfirst⟩ := Option.bind_eq_some_iff.1 hopened
      obtain ⟨hfirst, -⟩ := Option.filter_eq_some_iff.1 hfirst
      have hnone := hclosed _ hmem
      simp only [openedBefore, hk, hfirst, Option.bind_some, Option.filter_some] at hnone
      simpa using hnone
  | case2 boundary index hlt hnone ih =>
      rw [closeOver_of_none hlt hnone]
      exact ih hle (by omega)
  | case3 boundary index hlt =>
      rw [closeOver, dif_neg hlt]
      exact hle

/-! ## The cut -/

theorem cut_le : cut opens closes items boundary ≤ boundary :=
  Nat.le_trans closeOver_le holdBack_le

theorem cut_closed : Closed opens closes items (cut opens closes items boundary) :=
  closeOver_closed fun _ _ hle hlt => absurd hle (Nat.not_le_of_lt hlt)

theorem le_cut {other : Nat} (hle : other ≤ boundary)
    (hnone : ∀ item ∈ items.take other, isOpen opens closes items item = false)
    (hclosed : Closed opens closes items other) : other ≤ cut opens closes items boundary :=
  le_closeOver hclosed (le_holdBack hle hnone) (Nat.le_refl _)

/-- Every item that is still open comes after the cut. -/
theorem cut_le_of_open {item : α} (hitem : items[index]? = some item)
    (hopen : isOpen opens closes items item = true) : cut opens closes items boundary ≤ index :=
  Nat.le_trans closeOver_le (holdBack_le_of_open hitem hopen)

/-- No item before the cut is still open. -/
theorem not_open_of_mem_take_cut {item : α} (h : item ∈ items.take (cut opens closes items boundary)) :
    isOpen opens closes items item = false := by
  obtain ⟨index, hindex, rfl⟩ := List.mem_take_iff_getElem.1 h
  by_contra hopen
  have hle : cut opens closes items boundary ≤ index :=
    cut_le_of_open (List.getElem?_eq_getElem (by omega)) (Bool.not_eq_false _ ▸ hopen)
  omega

/-- A pair that is closed after a closed boundary, and opened at all, is opened after it. -/
theorem Closed.opened {item : α} {k : κ} (h : Closed opens closes items boundary)
    (hitem : item ∈ items.drop boundary) (hcloses : closes item = some k)
    (hopens : ∃ other ∈ items, opens other = some k) :
    ∃ other ∈ items.drop boundary, opens other = some k := by
  obtain ⟨other, hother, hopens⟩ := hopens
  have hnone := h item hitem
  cases hfirst : openedAt opens items k with
  | none =>
      rw [openedAt, List.findIdx?_eq_none_iff] at hfirst
      have hne := hfirst other hother
      simp [hopens] at hne
  | some first =>
      obtain ⟨hlt, hfound, -⟩ := List.findIdx?_eq_some_iff_getElem.1 hfirst
      simp only [openedBefore, hcloses, hfirst, Option.bind_some, Option.filter_some] at hnone
      have hle : boundary ≤ first := by simpa using hnone
      refine ⟨items[first], ?_, by simpa using hfound⟩
      exact List.mem_drop_iff_getElem.2 ⟨first - boundary, by omega, by congr 1; omega⟩

end Pairs
