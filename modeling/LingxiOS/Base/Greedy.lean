-- SUMMARY: Keeping whole items of a list, in order, as long as they fit.
import Mathlib.Algebra.Order.BigOperators.Group.List
import Mathlib.Algebra.Order.Group.Unbundled.Basic

/-! # Greedy Choice

Items are looked at once, in their order. One that does not fit in the room left is dropped,
and the items after it are still looked at. -/

namespace Greedy

variable {α R : Type} [AddCommGroup R] {size : α → R} {room : R} {items : List α} {x : α}

/-- The room some items take. -/
def total (size : α → R) (items : List α) : R := (items.map size).sum

@[simp] theorem total_nil : total size [] = 0 := rfl

@[simp] theorem total_cons : total size (x :: items) = size x + total size items := by
  simp [total]

variable [LinearOrder R]

/-- What is kept of some items, each of some size. -/
def keep (size : α → R) (room : R) : List α → List α
  | [] => []
  | x :: rest => if room < size x then keep size room rest else x :: keep size (room - size x) rest

example : keep (fun n : Nat => (n : Int)) 10 [4, 9, 5] = [4, 5] := by decide

theorem keep_cons_of_lt (h : room < size x) : keep size room (x :: items) = keep size room items :=
  if_pos h

theorem keep_cons_of_le (h : size x ≤ room) :
    keep size room (x :: items) = x :: keep size (room - size x) items :=
  if_neg (not_lt.2 h)

theorem keep_sublist (size : α → R) (room : R) (items : List α) :
    (keep size room items).Sublist items := by
  induction items generalizing room with
  | nil => exact .slnil
  | cons x rest ih =>
      by_cases h : room < size x
      case pos =>
        rw [keep_cons_of_lt h]
        exact (ih room).cons x
      case neg =>
        rw [keep_cons_of_le (not_lt.1 h)]
        exact (ih _).cons_cons x

/-- What is kept first does not depend on what comes later. -/
theorem keep_append (room : R) (items more : List α) : keep size room (items ++ more)
    = keep size room items ++ keep size (room - total size (keep size room items)) more := by
  induction items generalizing room with
  | nil => simp [keep]
  | cons x rest ih =>
      by_cases h : room < size x
      case pos => rw [List.cons_append, keep_cons_of_lt h, keep_cons_of_lt h, ih]
      case neg =>
        rw [List.cons_append, keep_cons_of_le (not_lt.1 h), keep_cons_of_le (not_lt.1 h), ih,
          List.cons_append, total_cons, sub_add_eq_sub_sub]

variable [IsOrderedAddMonoid R]

/-- The items kept fit together. -/
theorem total_keep_le (hroom : 0 ≤ room) (items : List α) : total size (keep size room items) ≤ room := by
  induction items generalizing room with
  | nil => exact hroom
  | cons x rest ih =>
      by_cases h : room < size x
      case pos =>
        rw [keep_cons_of_lt h]
        exact ih hroom
      case neg =>
        have hrest := ih (sub_nonneg.2 (not_lt.1 h))
        rw [keep_cons_of_le (not_lt.1 h), total_cons]
        exact le_sub_iff_add_le'.1 hrest

/-- Each item kept fits in the room there was at first. -/
theorem size_le_of_mem_keep (hsize : ∀ x, 0 ≤ size x) (h : x ∈ keep size room items) :
    size x ≤ room := by
  induction items generalizing room with
  | nil => cases h
  | cons y rest ih =>
      by_cases hy : room < size y
      case pos =>
        rw [keep_cons_of_lt hy] at h
        exact ih h
      case neg =>
        rw [keep_cons_of_le (not_lt.1 hy)] at h
        rcases List.mem_cons.1 h with rfl | h
        · exact not_lt.1 hy
        · exact (ih h).trans (sub_le_self room (hsize y))

/-- An item is dropped only if it does not fit beside the items before it that are kept, and
    then those kept after it are smaller. -/
theorem keep_split (hsize : ∀ x, 0 ≤ size x) (room : R) (before : List α) (x : α) (after : List α) :
    ∃ later, later.Sublist after
      ∧ (keep size room (before ++ x :: after) = keep size room before ++ x :: later
        ∨ keep size room (before ++ x :: after) = keep size room before ++ later
          ∧ room < total size (keep size room before) + size x
          ∧ ∀ y ∈ later, size y < size x) := by
  rw [keep_append]
  by_cases h : room - total size (keep size room before) < size x
  case pos =>
    rw [keep_cons_of_lt h]
    exact ⟨_, keep_sublist size _ after, .inr ⟨rfl, sub_lt_iff_lt_add'.1 h, fun y hy =>
      (size_le_of_mem_keep hsize hy).trans_lt h⟩⟩
  case neg =>
    rw [keep_cons_of_le (not_lt.1 h)]
    exact ⟨_, keep_sublist size _ after, .inl rfl⟩

end Greedy
