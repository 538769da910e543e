-- SUMMARY: Bounded lists that drop their first entry when they are full.
import Mathlib.Data.List.Range

/-! # Bounded Lists

A list of at most `limit` entries. A new entry goes to the end; when the list is full the
first one makes room for it. An entry stays until `limit` others have come after it. -/

namespace Fifo

variable {α β : Type*} {limit n : ℕ} {l : List α} {a b : α}

/-- Add an entry, and drop the first one when there is no room. -/
def push (limit : ℕ) (l : List α) (a : α) : List α :=
  (if limit ≤ l.length then l.tail else l) ++ [a]

/-- At most `n` entries have come after an entry of a list within its bound. -/
structure Holds (limit n : ℕ) (a : α) (l : List α) : Prop where
  bound : l.length ≤ limit
  split : ∃ before after, l = before ++ a :: after ∧ after.length ≤ n

theorem Holds.mem (h : Holds limit n a l) : a ∈ l := by
  obtain ⟨before, after, rfl, -⟩ := h.split
  exact List.mem_append_right _ List.mem_cons_self

theorem mem_push (h : b ∈ push limit l a) : b ∈ l ∨ b = a := by
  rcases List.mem_append.1 h with hkept | hnew
  · left
    split at hkept
    · exact List.mem_of_mem_tail hkept
    · exact hkept
  · exact .inr (List.mem_singleton.1 hnew)

theorem length_push_le (hlimit : 0 < limit) (h : l.length ≤ limit) :
    (push limit l a).length ≤ limit := by
  unfold push
  split
  · rw [List.length_append, List.length_tail, List.length_singleton]
    omega
  · rw [List.length_append, List.length_singleton]
    omega

/-- A new entry is the last one. -/
theorem holds_push (hlimit : 0 < limit) (h : l.length ≤ limit) :
    Holds limit 0 a (push limit l a) :=
  ⟨length_push_le hlimit h, _, [], rfl, Nat.le_refl 0⟩

/-- An entry stays while fewer than `limit` others have come after it. -/
theorem Holds.push (h : Holds limit n a l) (hn : n + 1 < limit) :
    Holds limit (n + 1) a (push limit l b) := by
  refine ⟨length_push_le (by omega) h.bound, ?_⟩
  have hbound := h.bound
  obtain ⟨before, after, rfl, hafter⟩ := h.split
  unfold Fifo.push
  split
  · rename_i hfull
    cases before with
    | nil =>
        simp only [List.nil_append, List.length_cons] at hfull
        omega
    | cons first before =>
        refine ⟨before, after ++ [b], by simp, ?_⟩
        rw [List.length_append, List.length_singleton]
        omega
  · refine ⟨before, after ++ [b], by simp, ?_⟩
    rw [List.length_append, List.length_singleton]
    omega

/-! ## Pushing many entries -/

theorem length_foldl_push_le (hlimit : 0 < limit) (h : l.length ≤ limit) (more : List α) :
    (more.foldl (push limit) l).length ≤ limit := by
  induction more generalizing l with
  | nil => exact h
  | cons b more ih => exact ih (length_push_le hlimit h)

theorem Holds.foldl {more : List α} (h : Holds limit n a l) (hn : n + more.length < limit) :
    Holds limit (n + more.length) a (more.foldl (Fifo.push limit) l) := by
  induction more generalizing l n with
  | nil => exact h
  | cons b more ih =>
      rw [List.length_cons] at hn
      have hnext := ih (h.push (b := b) (by omega)) (by omega)
      rwa [Nat.add_assoc, Nat.add_comm 1 more.length] at hnext

/-- The last `limit` entries are there. -/
theorem mem_foldl_push (h : l.length ≤ limit) {more : List α}
    (ha : a ∈ more.drop (more.length - limit)) : a ∈ more.foldl (push limit) l := by
  obtain ⟨before, after, hdrop⟩ := List.append_of_mem ha
  have hlength : before.length + (after.length + 1) = more.length - (more.length - limit) := by
    simpa using (congrArg List.length hdrop).symm
  have hlimit : 0 < limit := by omega
  rw [← List.take_append_drop (more.length - limit) more, hdrop, List.foldl_append,
    List.foldl_append, List.foldl_cons]
  have hbefore := length_foldl_push_le hlimit
    (length_foldl_push_le hlimit h (more.take (more.length - limit))) before
  exact ((holds_push hlimit hbefore).foldl (by omega)).mem

/-! ## Counting entries -/

/-- The numbers of the entries that are left after the first `n`. -/
def window (limit n : ℕ) : List ℕ := List.range' (n - limit) (min n limit)

theorem mem_window {k : ℕ} : k ∈ window limit n ↔ n - limit ≤ k ∧ k < n := by
  rw [window, List.mem_range'_1]
  omega

/-- Pushing the entry with the next number moves the window on. -/
theorem push_window (hlimit : 0 < limit) (f : ℕ → α) :
    push limit ((window limit n).map f) (f n) = (window limit (n + 1)).map f := by
  rcases Nat.lt_or_ge n limit with hroom | hfull
  · have hlength : ¬ limit ≤ ((window limit n).map f).length := by
      simp only [window, List.length_map, List.length_range']
      omega
    have hstart : n - limit = 0 := by omega
    have hnext : n + 1 - limit = 0 := by omega
    rw [push, if_neg hlength, window, window, hstart, hnext, Nat.min_eq_left (by omega),
      Nat.min_eq_left (by omega), List.range'_1_concat, List.map_append, Nat.zero_add]
    rfl
  · obtain ⟨m, rfl⟩ : ∃ m, limit = m + 1 := ⟨limit - 1, by omega⟩
    have hlength : m + 1 ≤ ((window (m + 1) n).map f).length := by
      simp only [window, List.length_map, List.length_range']
      omega
    have hlast : n - (m + 1) + 1 + m = n := by omega
    rw [push, if_pos hlength, window, window, Nat.min_eq_right hfull,
      Nat.min_eq_right (by omega), List.range'_succ, List.map_cons, List.tail_cons,
      Nat.sub_add_comm hfull, List.range'_1_concat, List.map_append, hlast]
    rfl

end Fifo
