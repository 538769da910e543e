-- SUMMARY: Versioned cells: chains of commits built on the version they met.
import Mathlib.Data.List.Basic

/-! # Versioned Cells

A cell holds its last commit and how many commits led to it. A commit names the
version it was built on, and moves the cell one version on. -/

namespace Versioned

variable {α : Type*}

structure Cell (α : Type*) where
  version : Nat
  content : Option α

structure Commit (α : Type*) where
  base : Int
  content : α

/-- The cell after a commit. -/
def Cell.commit (cell : Cell α) (x : Commit α) : Cell α := ⟨cell.version + 1, some x.content⟩

/-- The commits lead from one cell to the other, each built on the version it met. -/
def Chain : Cell α → List (Commit α) → Cell α → Prop
  | cell, [], cell' => cell' = cell
  | cell, x :: xs, cell' => x.base = cell.version ∧ Chain (cell.commit x) xs cell'

/-- The version counts the commits. -/
theorem Chain.version {cell cell' : Cell α} {xs : List (Commit α)} (h : Chain cell xs cell') :
    cell'.version = cell.version + xs.length := by
  induction xs generalizing cell with
  | nil =>
      obtain rfl : cell' = cell := h
      rfl
  | cons x xs ih =>
      have hrest := ih h.2
      simp only [Cell.commit, List.length_cons] at hrest ⊢
      omega

/-- The bases are numbered without a gap, in the order of the commits. -/
theorem Chain.base {cell cell' : Cell α} {xs : List (Commit α)} (h : Chain cell xs cell') {i : Nat}
    {x : Commit α} (hx : xs[i]? = some x) : x.base = cell.version + i := by
  induction xs generalizing cell i with
  | nil => simp at hx
  | cons y ys ih =>
      cases i with
      | zero =>
          obtain rfl : y = x := by simpa using hx
          simpa using h.1
      | succ i =>
          have hrest := ih h.2 (i := i) (by simpa using hx)
          simp only [Cell.commit] at hrest
          omega

/-- The cell holds the last commit, or what it held before the first. -/
theorem Chain.content {cell cell' : Cell α} {xs : List (Commit α)} (h : Chain cell xs cell') :
    cell'.content = (xs.getLast?.map Commit.content).or cell.content := by
  induction xs generalizing cell with
  | nil =>
      obtain rfl : cell' = cell := h
      rfl
  | cons x xs ih =>
      rw [ih h.2]
      cases hlast : xs.getLast? with
      | none =>
          obtain rfl := List.getLast?_eq_none_iff.1 hlast
          rfl
      | some y => simp [List.getLast?_cons, hlast]

end Versioned
