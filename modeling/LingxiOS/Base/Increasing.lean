-- SUMMARY: Lists in strictly increasing order of an index.
import Mathlib.Data.List.Sort

/-! # Increasing Lists

Entries numbered by an index, in strictly increasing order. The numbers have no
gap when every number below one of them is one of them too. -/

namespace Increasing

variable {α β : Type*} {index : α → ℕ} {l : List α}

/-- The indices start at some number and leave none out. -/
def Consecutive (index : α → ℕ) (first : ℕ) : List α → Prop
  | [] => True
  | a :: rest => index a = first ∧ Consecutive index (first + 1) rest

instance decidableConsecutive (first : ℕ) : (l : List α) → Decidable (Consecutive index first l)
  | [] => isTrue trivial
  | a :: rest =>
      have := decidableConsecutive (first + 1) rest
      inferInstanceAs (Decidable (index a = first ∧ Consecutive index (first + 1) rest))

/-- Every number from the first one up to an index is an index. -/
def Gapless (index : α → ℕ) (first : ℕ) (l : List α) : Prop :=
  ∀ a ∈ l, ∀ i, first ≤ i → i ≤ index a → ∃ b ∈ l, index b = i

theorem Consecutive.gapless {first : ℕ} (h : Consecutive index first l) : Gapless index first l := by
  induction l generalizing first with
  | nil => exact fun a ha => absurd ha List.not_mem_nil
  | cons a rest ih =>
      obtain ⟨hfirst, hrest⟩ := h
      intro c hc i hle hi
      rcases Nat.eq_or_lt_of_le hle with rfl | hlt
      · exact ⟨a, List.mem_cons_self, hfirst⟩
      · rcases List.mem_cons.1 hc with rfl | hc
        · omega
        · obtain ⟨b, hb, hindex⟩ := ih hrest c hc i hlt hi
          exact ⟨b, List.mem_cons_of_mem a hb, hindex⟩

/-- Increasing entries are determined by their indices. -/
theorem eq_of_index_eq (hincreasing : l.Pairwise (fun a b => index a < index b)) {a b : α}
    (ha : a ∈ l) (hb : b ∈ l) (h : index a = index b) : a = b := by
  have hnodup : (l.map index).Nodup := (List.pairwise_map.2 hincreasing).imp ne_of_lt
  exact List.inj_on_of_nodup_map hnodup ha hb h

/-- Among increasing indices from some number on, no gap means consecutive. -/
theorem consecutive_iff_gapless {first : ℕ} (hincreasing : l.Pairwise (fun a b => index a < index b))
    (hfirst : ∀ a ∈ l, first ≤ index a) : Consecutive index first l ↔ Gapless index first l := by
  refine ⟨Consecutive.gapless, ?_⟩
  induction l generalizing first with
  | nil => exact fun _ => trivial
  | cons a rest ih =>
      intro hgapless
      obtain ⟨hafter, hrest⟩ := List.pairwise_cons.1 hincreasing
      -- The first number is an index, and only the head can have it.
      obtain ⟨b, hb, hindex⟩ :=
        hgapless a List.mem_cons_self first le_rfl (hfirst a List.mem_cons_self)
      have hhead : index a = first := by
        rcases List.mem_cons.1 hb with rfl | hb
        · exact hindex
        · have hlt := hafter b hb
          have hle := hfirst a List.mem_cons_self
          omega
      refine ⟨hhead, ih hrest ?_ ?_⟩
      · intro c hc
        have hlt := hafter c hc
        omega
      · intro c hc i hle hi
        obtain ⟨b, hb, hindex⟩ := hgapless c (List.mem_cons_of_mem a hc) i (by omega) hi
        rcases List.mem_cons.1 hb with rfl | hb
        · omega
        · exact ⟨b, hb, hindex⟩

/-- Looking up increasing entries by the increasing numbers they may have gives them back. -/
theorem filterMap_find? {number : β → ℕ} {numbers : List β}
    (hincreasing : l.Pairwise (fun a b => index a < index b))
    (hnumbers : numbers.Pairwise (fun a b => number a < number b))
    (hmem : ∀ a ∈ l, ∃ b ∈ numbers, number b = index a) :
    numbers.filterMap (fun b => l.find? (fun a => index a == number b)) = l := by
  induction numbers generalizing l with
  | nil =>
      cases l with
      | nil => rfl
      | cons a rest =>
          obtain ⟨b, hb, -⟩ := hmem a List.mem_cons_self
          exact absurd hb List.not_mem_nil
  | cons b numbers ih =>
      obtain ⟨hlater, hrest⟩ := List.pairwise_cons.1 hnumbers
      cases l with
      | nil => simp
      | cons a l =>
          obtain ⟨hafter, hincreasing⟩ := List.pairwise_cons.1 hincreasing
          obtain ⟨c, hc, hnumber⟩ := hmem a List.mem_cons_self
          rcases List.mem_cons.1 hc with rfl | hc
          · -- The head has the first number, and nothing else has it.
            have htail := ih hincreasing hrest (by
              intro a' ha'
              obtain ⟨c', hc', hnumber'⟩ := hmem a' (List.mem_cons_of_mem a ha')
              have hlt := hafter a' ha'
              rcases List.mem_cons.1 hc' with rfl | hc'
              · omega
              · exact ⟨c', hc', hnumber'⟩)
            rw [List.filterMap_cons_some (b := a) (by simp [hnumber])]
            congr 1
            rw [← htail]
            apply List.filterMap_congr
            intro c' hc'
            have hlt := hlater c' hc'
            have hne : (index a == number c') = false := beq_eq_false_iff_ne.2 (by omega)
            rw [List.find?_cons_of_neg (by simp [hne]), htail]
          · -- Nothing has the first number.
            have hlt := hlater c hc
            have hnone : (a :: l).find? (fun a => index a == number b) = none := by
              rw [List.find?_eq_none]
              intro a' ha'
              rcases List.mem_cons.1 ha' with rfl | ha'
              · simpa using (by omega : index a' ≠ number b)
              · have hlt' := hafter a' ha'
                simpa using (by omega : index a' ≠ number b)
            simp only [List.filterMap_cons, hnone]
            apply ih (List.pairwise_cons.2 ⟨hafter, hincreasing⟩) hrest
            intro a' ha'
            obtain ⟨c', hc', hnumber'⟩ := hmem a' ha'
            rcases List.mem_cons.1 hc' with rfl | hc'
            · have hnot := List.find?_eq_none.1 hnone a' ha'
              simp [hnumber'] at hnot
            · exact ⟨c', hc', hnumber'⟩

/-! ## Positions -/

/-- The index of the last entry, or zero. -/
def last (index : α → ℕ) (l : List α) : ℕ := (l.getLast?.map index).getD 0

theorem last_append (before after : List α) : last index (before ++ after)
    = (after.getLast?.map index).getD (last index before) := by
  rw [last, List.getLast?_append]
  cases after.getLast? with
  | none => rfl
  | some a => rfl

theorem le_last (hincreasing : l.Pairwise (fun a b => index a < index b)) {a : α} (ha : a ∈ l) :
    index a ≤ last index l := by
  rcases List.eq_nil_or_concat' l with rfl | ⟨before, b, rfl⟩
  · cases ha
  · have hlast : last index (before ++ [b]) = index b := by
      rw [last_append]
      rfl
    rw [hlast]
    rcases List.mem_append.1 ha with hbefore | hhere
    · exact le_of_lt ((List.pairwise_append.1 hincreasing).2.2 a hbefore b (by simp))
    · rw [List.mem_singleton.1 hhere]

/-- What is not above the last entry of a first part is in that part. -/
theorem mem_of_le_last {before rest : List α}
    (hincreasing : (before ++ rest).Pairwise (fun a b => index a < index b)) {a : α}
    (ha : a ∈ before ++ rest) (hle : index a ≤ last index before) (hpos : 0 < index a) :
    a ∈ before := by
  rcases List.mem_append.1 ha with hbefore | hrest
  · exact hbefore
  · obtain ⟨-, -, hlt⟩ := List.pairwise_append.1 hincreasing
    cases hlast : before.getLast? with
    | none =>
        rw [last, hlast] at hle
        exact absurd hle (Nat.not_le_of_lt hpos)
    | some b =>
        rw [last, hlast] at hle
        exact absurd hle (Nat.not_le_of_lt (hlt b (List.mem_of_getLast? hlast) a hrest))

theorem last_le_last {before rest : List α}
    (hincreasing : (before ++ rest).Pairwise (fun a b => index a < index b)) :
    last index before ≤ last index (before ++ rest) := by
  cases hlast : before.getLast? with
  | none =>
      rw [last, hlast]
      exact Nat.zero_le _
  | some b =>
      have hmem : b ∈ before ++ rest := List.mem_append_left rest (List.mem_of_getLast? hlast)
      have hle := le_last hincreasing hmem
      rwa [last, hlast]

/-- An entry is the only one with its index. -/
theorem filter_index_eq (hincreasing : l.Pairwise (fun a b => index a < index b)) {a : α}
    (ha : a ∈ l) : l.filter (fun b => index b = index a) = [a] := by
  induction l with
  | nil => cases ha
  | cons b rest ih =>
      obtain ⟨hafter, hrest⟩ := List.pairwise_cons.1 hincreasing
      rcases List.mem_cons.1 ha with rfl | hmem
      · have hnone : rest.filter (fun b => index b = index a) = [] := by
          rw [List.filter_eq_nil_iff]
          intro b hb
          simpa using Nat.ne_of_gt (hafter b hb)
        rw [List.filter_cons_of_pos (by simp), hnone]
      · have hne := Nat.ne_of_lt (hafter a hmem)
        rw [List.filter_cons_of_neg (by simpa using hne)]
        exact ih hrest hmem

end Increasing
