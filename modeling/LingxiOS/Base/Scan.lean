-- SUMMARY: A text cut into matches and the units between them.
import Mathlib.Data.List.Infix

/-! # Scanning

A global search tries its pattern at each place of a text in turn and goes on behind what it
found. The matches lie one after the other, and a word that no match can cut into is either
inside a match or in what is left when the matches are taken out. -/

namespace Scan

variable {α τ : Type}

/-- A pattern that is tried at the start of a text. -/
structure Matcher (α τ : Type) where
  here : List α → Option τ
  source : τ → List α
  sound : ∀ {text m}, here text = some m → source m ≠ [] ∧ source m <+: text

variable (pattern : Matcher α τ)

/-- The matches of a text and the units between them, after some units are skipped. -/
def pieces : Nat → List α → List (τ ⊕ α)
  | _, [] => []
  | skipped + 1, _ :: rest => pieces skipped rest
  | 0, u :: rest =>
      match pattern.here (u :: rest) with
      | some m => .inl m :: pieces ((pattern.source m).length - 1) rest
      | none => .inr u :: pieces 0 rest

/-- The text of a piece. -/
def pieceText : τ ⊕ α → List α
  | .inl m => pattern.source m
  | .inr u => [u]

def flatten (list : List (τ ⊕ α)) : List α := list.flatMap (pieceText pattern)

/-- The matches among some pieces, and where each starts. -/
def located : Nat → List (τ ⊕ α) → List (Nat × τ)
  | _, [] => []
  | start, .inl m :: rest => (start, m) :: located (start + (pattern.source m).length) rest
  | start, .inr _ :: rest => located (start + 1) rest

/-- What is left without the matches. -/
def remainder (list : List (τ ⊕ α)) : List α := list.filterMap Sum.getRight?

def matchAll (text : List α) : List (Nat × τ) := located pattern 0 (pieces pattern 0 text)

variable {pattern} {text : List α} {list : List (τ ⊕ α)} {start : Nat} {m : τ} {word : List α}

@[simp] theorem flatten_nil : flatten pattern [] = [] := rfl

@[simp] theorem flatten_match :
    flatten pattern (.inl m :: list) = pattern.source m ++ flatten pattern list := rfl

@[simp] theorem flatten_unit {u : α} :
    flatten pattern (.inr u :: list) = u :: flatten pattern list := rfl

theorem flatten_pieces (skipped : Nat) (text : List α) :
    flatten pattern (pieces pattern skipped text) = text.drop skipped := by
  induction text generalizing skipped with
  | nil => simp [pieces]
  | cons u rest ih =>
      cases skipped with
      | succ skipped => simp [pieces, ih]
      | zero =>
          cases hhere : pattern.here (u :: rest) with
          | none => simp [pieces, hhere, ih]
          | some m =>
              obtain ⟨hne, more, hmore⟩ := pattern.sound hhere
              obtain ⟨v, source, hsource⟩ := List.exists_cons_of_ne_nil hne
              rw [hsource, List.cons_append, List.cons.injEq] at hmore
              obtain ⟨rfl, rfl⟩ := hmore
              simp [pieces, hhere, ih, hsource]

theorem mem_matches {skipped : Nat} (h : .inl m ∈ pieces pattern skipped text) :
    ∃ text, pattern.here text = some m := by
  induction text generalizing skipped with
  | nil => simp [pieces] at h
  | cons u rest ih =>
      cases skipped with
      | succ skipped => exact ih h
      | zero =>
          cases hhere : pattern.here (u :: rest) with
          | none =>
              rw [pieces, hhere] at h
              exact ih ((List.mem_cons.1 h).resolve_left nofun)
          | some m' =>
              rw [pieces, hhere] at h
              rcases List.mem_cons.1 h with heq | h
              · obtain rfl := Sum.inl.inj heq
                exact ⟨_, hhere⟩
              · exact ih h

/-! ## Places -/

/-- A match starts behind the pieces before it. -/
theorem mem_located {place : Nat × τ} (h : place ∈ located pattern start list) :
    ∃ before after, list = before ++ .inl place.2 :: after
      ∧ place.1 = start + (flatten pattern before).length := by
  induction list generalizing start with
  | nil => simp [located] at h
  | cons piece rest ih =>
      cases piece with
      | inl m =>
          rcases List.mem_cons.1 h with rfl | h
          · exact ⟨[], rest, rfl, rfl⟩
          · obtain ⟨before, after, rfl, hstart⟩ := ih h
            refine ⟨.inl m :: before, after, rfl, ?_⟩
            rw [hstart, flatten_match, List.length_append, Nat.add_assoc]
      | inr u =>
          obtain ⟨before, after, rfl, hstart⟩ := ih h
          refine ⟨.inr u :: before, after, rfl, ?_⟩
          rw [hstart, flatten_unit, List.length_cons, Nat.add_assoc, Nat.add_comm 1]

theorem le_of_mem_located {place : Nat × τ} (h : place ∈ located pattern start list) :
    start ≤ place.1 := by
  obtain ⟨before, after, -, hstart⟩ := mem_located h
  rw [hstart]
  exact Nat.le_add_right _ _

/-- The matches lie one after the other. -/
theorem located_pairwise (start : Nat) (list : List (τ ⊕ α)) :
    (located pattern start list).Pairwise
      fun a b => a.1 + (pattern.source a.2).length ≤ b.1 := by
  induction list generalizing start with
  | nil => exact .nil
  | cons piece rest ih =>
      cases piece with
      | inl m => exact .cons (fun _ h => le_of_mem_located h) (ih _)
      | inr u => exact ih _

/-- A match stands where it is located. -/
theorem mem_matchAll {place : Nat × τ} (h : place ∈ matchAll pattern text) :
    (∃ text, pattern.here text = some place.2) ∧ pattern.source place.2 <+: text.drop place.1 := by
  obtain ⟨before, after, hpieces, hstart⟩ := mem_located h
  have htext : flatten pattern (pieces pattern 0 text) = text.drop 0 := flatten_pieces 0 text
  refine ⟨@mem_matches _ _ _ text place.2 0 (by rw [hpieces]; simp), flatten pattern after, ?_⟩
  rw [hpieces, flatten, List.flatMap_append] at htext
  rw [hstart, Nat.zero_add, ← List.drop_zero (l := text), ← htext]
  exact List.drop_left.symm

/-! ## Words -/

/-- A word that does not have some unit ends before it. -/
theorem isPrefix_of_not_mem {xs ys : List α} {u : α} (hu : u ∉ word) (h : word <+: xs ++ u :: ys) :
    word <+: xs := by
  induction xs generalizing word with
  | nil =>
      cases word with
      | nil => exact List.nil_prefix
      | cons v word =>
          rw [List.nil_append, List.cons_prefix_cons] at h
          exact absurd (h.1 ▸ List.mem_cons_self) hu
  | cons x xs ih =>
      cases word with
      | nil => exact List.nil_prefix
      | cons v word =>
          rw [List.cons_append, List.cons_prefix_cons] at h
          exact List.cons_prefix_cons.2 ⟨h.1, ih (fun hmem => hu (List.mem_cons_of_mem _ hmem)) h.2⟩

/-- A match starts and ends with something that is not in the word. -/
structure Bounded (pattern : Matcher α τ) (word : List α) (m : τ) : Prop where
  first : ∃ u rest, pattern.source m = u :: rest ∧ u ∉ word
  last : ∃ front u, pattern.source m = front ++ [u] ∧ u ∉ word

/-- A word that stands at the start of a text has no match in it. -/
theorem isPrefix_remainder (hbounded : ∀ m, .inl m ∈ list → Bounded pattern word m)
    (h : word <+: flatten pattern list) : word <+: remainder list := by
  induction list generalizing word with
  | nil => exact h
  | cons piece rest ih =>
      cases word with
      | nil => exact List.nil_prefix
      | cons v word =>
          cases piece with
          | inl m =>
              obtain ⟨u, source, hsource, hu⟩ := (hbounded m List.mem_cons_self).first
              rw [flatten_match, hsource, List.cons_append, List.cons_prefix_cons] at h
              exact absurd (h.1 ▸ List.mem_cons_self) hu
          | inr u =>
              rw [flatten_unit, List.cons_prefix_cons] at h
              have hrest : ∀ m, .inl m ∈ rest → Bounded pattern word m := fun m hm => by
                obtain ⟨⟨u, source, hsource, hu⟩, ⟨front, w, hfront, hw⟩⟩ :=
                  hbounded m (List.mem_cons_of_mem _ hm)
                exact ⟨⟨u, source, hsource, fun hmem => hu (List.mem_cons_of_mem _ hmem)⟩,
                  ⟨front, w, hfront, fun hmem => hw (List.mem_cons_of_mem _ hmem)⟩⟩
              exact List.cons_prefix_cons.2 ⟨h.1, ih hrest h.2⟩

/-- A word that starts in a match ends in it. -/
theorem Bounded.inside (h : Bounded pattern word m) {i : Nat} {rest : List α}
    (hi : i < (pattern.source m).length) (hword : word <+: (pattern.source m ++ rest).drop i) :
    i + word.length ≤ (pattern.source m).length := by
  by_contra hlong
  obtain ⟨front, u, hsource, hu⟩ := h.last
  rw [List.drop_append_of_le_length hi.le] at hword
  have hlength : ((pattern.source m).drop i).length ≤ word.length := by
    rw [List.length_drop]
    omega
  have hpart := List.prefix_of_prefix_length_le (List.prefix_append _ rest) hword hlength
  have hlast : u ∈ (pattern.source m).drop i := by
    rw [hsource, List.length_append, List.length_singleton] at hi
    rw [hsource, List.drop_append_of_le_length (by omega)]
    exact List.mem_append_right _ List.mem_cons_self
  exact hu (hpart.subset hlast)

/-- A word is in what is left without the matches, or inside one of them. -/
theorem word_cases (hne : word ≠ []) (hbounded : ∀ m, .inl m ∈ list → Bounded pattern word m)
    {i : Nat} (h : word <+: (flatten pattern list).drop i) (start : Nat) :
    word <:+: remainder list ∨ ∃ place ∈ located pattern start list, place.1 ≤ start + i
      ∧ start + i + word.length ≤ place.1 + (pattern.source place.2).length := by
  induction list generalizing i start with
  | nil =>
      rw [flatten_nil, List.drop_nil] at h
      exact absurd (List.prefix_nil.1 h) hne
  | cons piece rest ih =>
      have hrest : ∀ m, .inl m ∈ rest → Bounded pattern word m := fun m hm =>
        hbounded m (List.mem_cons_of_mem _ hm)
      cases piece with
      | inl m =>
          by_cases hi : i < (pattern.source m).length
          case pos =>
            have hinside := (hbounded m List.mem_cons_self).inside hi h
            exact .inr ⟨(start, m), List.mem_cons_self, by omega, by simp only; omega⟩
          case neg =>
            rw [flatten_match, List.drop_append, List.drop_eq_nil_of_le (Nat.not_lt.1 hi),
              List.nil_append] at h
            have hcases := ih hrest h (start + (pattern.source m).length)
            rw [show start + (pattern.source m).length + (i - (pattern.source m).length) = start + i
              by omega] at hcases
            exact hcases.imp id fun ⟨place, hplace, hwithin⟩ =>
              ⟨place, List.mem_cons_of_mem _ hplace, hwithin⟩
      | inr u =>
          cases i with
          | zero => exact .inl (isPrefix_remainder hbounded h).isInfix
          | succ i =>
              have hcases := ih hrest h (start + 1)
              rw [Nat.add_assoc, Nat.add_comm 1] at hcases
              exact hcases.imp (fun hinfix => hinfix.trans (List.suffix_cons _ _).isInfix) id

end Scan
