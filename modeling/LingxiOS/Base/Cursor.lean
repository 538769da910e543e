-- SUMMARY: Paging by a cursor through consecutive pieces of a list.
import Mathlib.Algebra.Order.Group.Nat
import Mathlib.Data.List.Basic

/-! # Cursors

A call answers a cursor with a page and, unless the page is the last, the cursor of the next one.
Where every page is the next piece of one list, following the cursors gives the list, up to the
call that fails if one does. -/

variable {α ε : Type*}

structure CursorPage (α : Type*) where
  items : List α
  next : Option Nat
  deriving DecidableEq

/-- The pages from a cursor on, and the error that stops the walk if one does. -/
inductive CursorWalk (call : Nat → Except ε (CursorPage α)) : Nat → List (List α) → Option ε → Prop
  | failed {cursor : Nat} {e : ε} (hcall : call cursor = .error e) :
      CursorWalk call cursor [] (some e)
  | last {cursor : Nat} {items : List α} (hcall : call cursor = .ok ⟨items, none⟩) :
      CursorWalk call cursor [items] none
  | next {cursor next : Nat} {items : List α} {pages : List (List α)} {outcome : Option ε}
      (hcall : call cursor = .ok ⟨items, some next⟩) (hrest : CursorWalk call next pages outcome) :
      CursorWalk call cursor (items :: pages) outcome

namespace CursorWalk

variable {call : Nat → Except ε (CursorPage α)} {cursor : Nat} {pages pages' : List (List α)}
  {outcome outcome' : Option ε}

/-- There is one walk from a cursor. -/
theorem unique (h : CursorWalk call cursor pages outcome)
    (h' : CursorWalk call cursor pages' outcome') : pages = pages' ∧ outcome = outcome' := by
  induction h generalizing pages' outcome' with
  | failed hcall =>
      cases h' with
      | failed hcall' =>
          cases hcall.symm.trans hcall'
          exact ⟨rfl, rfl⟩
      | last hcall' => cases hcall.symm.trans hcall'
      | next hcall' => cases hcall.symm.trans hcall'
  | last hcall =>
      cases h' with
      | failed hcall' => cases hcall.symm.trans hcall'
      | last hcall' =>
          cases hcall.symm.trans hcall'
          exact ⟨rfl, rfl⟩
      | next hcall' => cases hcall.symm.trans hcall'
  | next hcall _ ih =>
      cases h' with
      | failed hcall' => cases hcall.symm.trans hcall'
      | last hcall' => cases hcall.symm.trans hcall'
      | next hcall' hrest' =>
          cases hcall.symm.trans hcall'
          obtain ⟨rfl, rfl⟩ := ih hrest'
          exact ⟨rfl, rfl⟩

/-- A page that is the next piece of a list: the last one with nothing left, any other with
    something on it and something left. -/
def IsPiece (left : List α) (cursor : Nat) (page : CursorPage α) : Prop :=
  ∃ more, left = page.items ++ more
    ∧ match page.next with
      | none => more = []
      | some following =>
          page.items ≠ [] ∧ more ≠ [] ∧ following = cursor + page.items.length

/-- A call at any cursor gives the next piece of the list, or fails in some way. -/
structure Pieces (call : Nat → Except ε (CursorPage α)) (items : List α)
    (fits : List α → Prop) (stops : Nat → ε → Prop) : Prop where
  failed : ∀ {cursor e}, call cursor = .error e → stops cursor e
  piece : ∀ {cursor page}, call cursor = .ok page →
    fits page.items ∧ IsPiece (items.drop cursor) cursor page

/-- Following the cursors ends: with the whole of the list, or where a call fails. -/
theorem exists_of_pieces {items : List α} {fits : List α → Prop} {stops : Nat → ε → Prop}
    (h : Pieces call items fits stops) (cursor : Nat) : ∃ pages outcome listed left,
      CursorWalk call cursor pages outcome ∧ items.drop cursor = listed ++ left
        ∧ pages.flatten = listed ∧ (∀ page ∈ pages, fits page)
        ∧ match outcome with
          | none => left = []
          | some e => stops (cursor + listed.length) e := by
  induction hn : items.length - cursor using Nat.strong_induction_on generalizing cursor with
  | _ n ih =>
      cases hcall : call cursor with
      | error e =>
          exact ⟨[], some e, [], items.drop cursor, .failed hcall, rfl, rfl, nofun, h.failed hcall⟩
      | ok page =>
          obtain ⟨hfits, more, hmore, hnext⟩ := h.piece hcall
          obtain ⟨piece, next⟩ := page
          cases next with
          | none =>
              refine ⟨[piece], none, piece, [], .last hcall, ?_, List.append_nil _, ?_, rfl⟩
              · rw [hmore, hnext]
              · intro page hpage
                rw [List.mem_singleton.1 hpage]
                exact hfits
          | some next =>
              obtain ⟨hne, hleft, hfollowing⟩ := hnext
              dsimp only at hmore hfits hne hfollowing
              subst hfollowing
              have hpos := List.length_pos_iff.2 hne
              have hdrop := congrArg List.length hmore
              rw [List.length_drop, List.length_append] at hdrop
              have hrest : items.drop (cursor + piece.length) = more := by
                rw [← List.drop_drop, hmore, List.drop_left]
              obtain ⟨pages, outcome, listed, left, hwalk, hlisted, hflat, hall, hends⟩ :=
                ih _ (by omega) (cursor + piece.length) rfl
              refine ⟨piece :: pages, outcome, piece ++ listed, left, .next hcall hwalk, ?_, ?_, ?_, ?_⟩
              · rw [hmore, List.append_assoc, ← hlisted, hrest]
              · rw [List.flatten_cons, hflat]
              · exact List.forall_mem_cons.2 ⟨hfits, hall⟩
              · rw [List.length_append, ← Nat.add_assoc]
                exact hends

end CursorWalk
