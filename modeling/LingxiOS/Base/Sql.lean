-- SUMMARY: Three-valued conditions, as SQL evaluates them, and when a row satisfies one.
import Mathlib.Data.List.Basic

/-! # Three-Valued Conditions

A value that may be NULL is an option. A comparison with NULL is unknown, the
connectives are those of strong Kleene logic, and a row is kept when its condition
is true: unknown is no better than false. -/

namespace Sql

/-- True, false, or unknown. -/
abbrev Truth := Option Bool

def and : Truth → Truth → Truth
  | some false, _ => some false
  | some true, b => b
  | none, some false => some false
  | none, _ => none

def or : Truth → Truth → Truth
  | some true, _ => some true
  | some false, b => b
  | none, some true => some true
  | none, _ => none

def not : Truth → Truth := Option.map (!·)

/-- A comparison of two values; unknown if one of them is NULL. -/
def compare {α β : Type*} (r : α → β → Bool) (a : Option α) (b : Option β) : Truth :=
  a.bind fun a => b.map fun b => r a b

section

variable {α : Type*} [DecidableEq α]

def eq (a b : Option α) : Truth := compare (fun a b => decide (a = b)) a b

def ne (a b : Option α) : Truth := not (eq a b)

/-- `a = ANY(array)` of an array without NULLs. -/
def eqAny (a : Option α) (array : List α) : Truth := a.map fun a => decide (a ∈ array)

def isNotDistinctFrom (a b : Option α) : Truth := some (decide (a = b))

end

def isNull {α : Type*} (a : Option α) : Truth := some a.isNone

def isNotNull {α : Type*} (a : Option α) : Truth := some a.isSome

/-- Whether a `WHERE` keeps the row. -/
def holds (t : Truth) : Bool := t.getD false

/-- The rows of `LEFT JOIN table ON condition`: those the condition keeps, or one of
    NULLs. -/
def leftJoin {α : Type*} (table : List α) (condition : α → Truth) : List (Option α) :=
  match table.filter (fun row => holds (condition row)) with
  | [] => [none]
  | matched => matched.map some

/-- `EXISTS (SELECT 1 FROM rows WHERE condition)`. -/
def exists_ {α : Type*} (rows : List α) (condition : α → Truth) : Truth :=
  some (rows.any fun row => holds (condition row))

/-- The rows a condition keeps. A row whose condition fails fails the query. -/
def select {ε α : Type} (keeps : α → Except ε Bool) : List α → Except ε (List α)
  | [] => .ok []
  | row :: rows => do
      let kept ← keeps row
      let others ← select keeps rows
      return if kept then row :: others else others

@[simp] theorem holds_some (b : Bool) : holds (some b) = b := rfl

@[simp] theorem holds_none : holds none = false := rfl

@[simp] theorem holds_and (a b : Truth) : holds (and a b) = (holds a && holds b) := by
  match a, b with
  | some true, _ => simp [and]
  | some false, _ => simp [and]
  | none, some true => rfl
  | none, some false => rfl
  | none, none => rfl

@[simp] theorem holds_or (a b : Truth) : holds (or a b) = (holds a || holds b) := by
  match a, b with
  | some true, _ => simp [or]
  | some false, _ => simp [or]
  | none, some true => rfl
  | none, some false => rfl
  | none, none => rfl

@[simp] theorem holds_not_exists {α : Type*} (rows : List α) (condition : α → Truth) :
    holds (not (exists_ rows condition)) = !rows.any fun row => holds (condition row) := rfl

theorem mem_leftJoin_some {α : Type*} {table : List α} {condition : α → Truth} {row : α} :
    some row ∈ leftJoin table condition ↔ row ∈ table ∧ holds (condition row) = true := by
  unfold leftJoin
  split
  · rename_i hnone
    have hnot : ¬(row ∈ table ∧ holds (condition row) = true) := by
      rintro hrow
      have hmem : row ∈ table.filter (fun row => holds (condition row)) := List.mem_filter.2 hrow
      rw [hnone] at hmem
      cases hmem
    simpa using hnot
  · simp [List.mem_filter]

theorem mem_leftJoin_none {α : Type*} {table : List α} {condition : α → Truth} :
    none ∈ leftJoin table condition ↔ ∀ row ∈ table, holds (condition row) = false := by
  unfold leftJoin
  split
  · rename_i hnone
    simpa [List.filter_eq_nil_iff] using hnone
  · rename_i matched hsome
    have hne : table.filter (fun row => holds (condition row)) ≠ [] := by
      intro hnil
      exact hsome hnil
    simpa [List.filter_eq_nil_iff] using hne

@[simp] theorem holds_isNull {α : Type*} (a : Option α) : holds (isNull a) = a.isNone := rfl

@[simp] theorem holds_isNotNull {α : Type*} (a : Option α) : holds (isNotNull a) = a.isSome := rfl

section

variable {α : Type*} [DecidableEq α]

@[simp] theorem holds_eq_some (a : Option α) (b : α) : holds (eq a (some b)) = decide (a = some b) := by
  cases a <;> simp [eq, compare]

@[simp] theorem holds_eq_none (a : Option α) : holds (eq a none) = false := by
  cases a <;> rfl

@[simp] theorem holds_ne_some (a b : α) : holds (ne (some a) (some b)) = decide (a ≠ b) := by
  simp [ne, eq, compare, not]

@[simp] theorem holds_eqAny (a : Option α) (array : List α) :
    holds (eqAny a array) = a.any fun a => decide (a ∈ array) := by
  cases a <;> rfl

@[simp] theorem holds_compare_some {β γ : Type*} (r : β → γ → Bool) (a : Option β) (b : γ) :
    holds (compare r a (some b)) = a.any fun a => r a b := by
  cases a <;> rfl

@[simp] theorem holds_isNotDistinctFrom (a b : Option α) :
    holds (isNotDistinctFrom a b) = decide (a = b) := rfl

end

/-! ## Queries -/

section

variable {ε α : Type} {keeps : α → Except ε Bool} {rows : List α}

theorem select_of_forall {p : α → Bool} (h : ∀ row ∈ rows, keeps row = .ok (p row)) :
    select keeps rows = .ok (rows.filter p) := by
  induction rows with
  | nil => rfl
  | cons row rows ih =>
      have hrow := h row List.mem_cons_self
      have hrest := ih fun other hother => h other (List.mem_cons_of_mem _ hother)
      rw [select, hrow, hrest]
      cases hp : p row <;> simp [bind, Except.bind, pure, Except.pure, hp]

/-- A query that does not fail decides every row. -/
theorem exists_of_select {kept : List α} (h : select keeps rows = .ok kept) :
    ∃ p : α → Bool, (∀ row ∈ rows, keeps row = .ok (p row)) ∧ kept = rows.filter p := by
  have hdecides : ∀ row ∈ rows, ∃ b, keeps row = .ok b := by
    induction rows generalizing kept with
    | nil => simp
    | cons row rows ih =>
        cases hrow : keeps row with
        | error e => simp [select, hrow, bind, Except.bind] at h
        | ok b =>
            cases hrest : select keeps rows with
            | error e => simp [select, hrow, hrest, bind, Except.bind] at h
            | ok others => simpa [hrow] using ih hrest
  have hkeeps : ∀ row ∈ rows, keeps row = .ok (keeps row).toOption.get! := by
    intro row hrow
    obtain ⟨b, hb⟩ := hdecides row hrow
    simp [hb, Except.toOption]
  refine ⟨fun row => (keeps row).toOption.get!, hkeeps, ?_⟩
  rw [select_of_forall hkeeps, Except.ok.injEq] at h
  exact h.symm

/-- Two tests that keep rows with the same images keep each row alike, if no two rows
    share an image. -/
theorem eq_of_map_filter_eq {β : Type} {f : α → β} {p q : α → Bool}
    (hinj : ∀ a ∈ rows, ∀ b ∈ rows, f a = f b → a = b)
    (h : (rows.filter p).map f = (rows.filter q).map f) : ∀ row ∈ rows, p row = q row := by
  have hkeeps : ∀ {p q : α → Bool}, (rows.filter p).map f = (rows.filter q).map f →
      ∀ row ∈ rows, p row = true → q row = true := by
    intro p q h row hrow hp
    have hmem := List.mem_map_of_mem (f := f) (List.mem_filter.2 ⟨hrow, hp⟩)
    rw [h] at hmem
    obtain ⟨other, hother, hsame⟩ := List.mem_map.1 hmem
    obtain ⟨hother, hq⟩ := List.mem_filter.1 hother
    rwa [hinj other hother row hrow hsame] at hq
  intro row hrow
  exact Bool.eq_iff_iff.2 ⟨hkeeps h row hrow, hkeeps h.symm row hrow⟩

end

end Sql
