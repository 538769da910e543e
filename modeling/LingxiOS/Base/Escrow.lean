-- SUMMARY: Amounts held under a key and later settled for what was really used.
import LingxiOS.Base.JsMap
import Mathlib.Algebra.Order.BigOperators.Group.List
import Mathlib.Algebra.Order.Group.Defs

/-! # Escrow

An amount is held under a key before it is known what will be used, and settled
once for what was used. What is consumed at any time is the sum of what was
used by the settled keys and what is held for the others. A key is held once and
settled once: repeating either changes nothing.

Amounts are taken from any ordered group, so that several resources can be
accounted for side by side. -/

/-- What was held, and what of it was settled for how much. -/
structure Escrow (κ M : Type*) where
  held : JsMap κ M
  settled : JsMap κ M

namespace Escrow

variable {κ M : Type*} [DecidableEq κ] [AddCommGroup M]

/-- Nothing held, nothing settled. -/
def empty : Escrow κ M := ⟨.empty, .empty⟩

/-- What a key counts for when an amount is held for it. -/
def charge (e : Escrow κ M) (k : κ) (amount : M) : M := (e.settled.get? k).getD amount

def consumed (e : Escrow κ M) : M := e.held.total e.charge

/-- Hold an amount, unless one is held already. -/
def hold (e : Escrow κ M) (k : κ) (amount : M) : Escrow κ M :=
  if e.held.has k then e else { e with held := e.held.set k amount }

/-- Settle a held amount, unless it is settled already. -/
def settle (e : Escrow κ M) (k : κ) (amount : M) : Escrow κ M :=
  if e.held.has k && !e.settled.has k then { e with settled := e.settled.set k amount } else e

/-- Only held keys are settled. -/
def Wf (e : Escrow κ M) : Prop := ∀ k, e.settled.has k = true → e.held.has k = true

omit [AddCommGroup M] in
theorem wf_empty : (empty : Escrow κ M).Wf := by
  intro k hk
  simp [empty, JsMap.has] at hk

/-! ## What the two operations do -/

omit [AddCommGroup M] in
theorem hold_of_new {e : Escrow κ M} {k : κ} (amount : M) (h : e.held.has k = false) :
    e.hold k amount = { e with held := e.held.set k amount } := by
  simp [hold, h]

omit [AddCommGroup M] in
theorem settle_of_held {e : Escrow κ M} {k : κ} (used : M) (h : e.held.has k = true)
    (hnew : e.settled.has k = false) :
    e.settle k used = { e with settled := e.settled.set k used } := by
  simp [settle, h, hnew]

omit [AddCommGroup M] in
theorem hold_of_has {e : Escrow κ M} {k : κ} (amount : M) (h : e.held.has k = true) :
    e.hold k amount = e := by
  simp [hold, h]

omit [AddCommGroup M] in
theorem settle_of_has {e : Escrow κ M} {k : κ} (amount : M) (h : e.settled.has k = true) :
    e.settle k amount = e := by
  simp [settle, h]

omit [AddCommGroup M] in
theorem Wf.hold {e : Escrow κ M} (h : e.Wf) (k : κ) (amount : M) : (e.hold k amount).Wf := by
  unfold Escrow.hold
  split
  · exact h
  · intro k' hk'
    have hheld := h k' hk'
    simp only [JsMap.has, JsMap.get?_set] at hheld ⊢
    split
    · rfl
    · exact hheld

omit [AddCommGroup M] in
theorem Wf.settle {e : Escrow κ M} (h : e.Wf) (k : κ) (amount : M) : (e.settle k amount).Wf := by
  unfold Escrow.settle
  split
  · rename_i hguard
    simp only [Bool.and_eq_true] at hguard
    intro k' hk'
    simp only [JsMap.has, JsMap.get?_set] at hk'
    split at hk'
    · rename_i hkey
      subst hkey
      exact hguard.1
    · exact h k' hk'
  · exact h

/-- Holding a new key consumes the amount held. -/
theorem consumed_hold {e : Escrow κ M} (hwf : e.Wf) {k : κ} (amount : M)
    (h : e.held.has k = false) : (e.hold k amount).consumed = e.consumed + amount := by
  have habsent : e.held.get? k = none := by simpa [JsMap.has] using h
  have hunsettled : e.settled.get? k = none := by
    cases hsettled : e.settled.get? k with
    | none => rfl
    | some a =>
        have hheld := hwf k (by simp [JsMap.has, hsettled])
        rw [h] at hheld
        cases hheld
  rw [hold_of_new amount h, consumed, consumed]
  rw [JsMap.total_set_of_none amount habsent]
  simp [charge, hunsettled]
  rfl

/-- Settling exchanges the amount held for the amount used. -/
theorem consumed_settle {e : Escrow κ M} {k : κ} {amount : M} (used : M)
    (hheld : e.held.get? k = some amount) (h : e.settled.has k = false) :
    (e.settle k used).consumed = e.consumed + (used - amount) := by
  have hhas : e.held.has k = true := by simp [JsMap.has, hheld]
  have hunsettled : e.settled.get? k = none := by simpa [JsMap.has] using h
  rw [settle_of_held used hhas h, consumed, consumed]
  rw [JsMap.total_exchange hheld (f := e.charge)]
  · simp [charge, hunsettled]
  · intro k' hk'
    funext a
    simp [charge, JsMap.get?_set_of_ne _ hk']

/-! ## Amounts that are not negative -/

/-- What was held and what was used is not negative. -/
structure Nonneg [LE M] (e : Escrow κ M) : Prop where
  held : ∀ k amount, e.held.get? k = some amount → 0 ≤ amount
  used : ∀ k amount, e.settled.get? k = some amount → 0 ≤ amount

section Nonneg

variable [PartialOrder M]

theorem nonneg_empty : (empty : Escrow κ M).Nonneg where
  held k amount h := by simp [empty] at h
  used k amount h := by simp [empty] at h

theorem Nonneg.hold {e : Escrow κ M} (h : e.Nonneg) (k : κ) {amount : M} (hamount : 0 ≤ amount) :
    (e.hold k amount).Nonneg := by
  unfold Escrow.hold
  split
  · exact h
  · refine ⟨fun k' amount' hk' => ?_, h.used⟩
    rw [JsMap.get?_set] at hk'
    split at hk'
    · cases hk'
      exact hamount
    · exact h.held k' amount' hk'

theorem Nonneg.settle {e : Escrow κ M} (h : e.Nonneg) (k : κ) {amount : M} (hamount : 0 ≤ amount) :
    (e.settle k amount).Nonneg := by
  unfold Escrow.settle
  split
  · refine ⟨h.held, fun k' amount' hk' => ?_⟩
    rw [JsMap.get?_set] at hk'
    split at hk'
    · cases hk'
      exact hamount
    · exact h.used k' amount' hk'
  · exact h

theorem Nonneg.consumed [IsOrderedAddMonoid M] {e : Escrow κ M} (h : e.Nonneg) : 0 ≤ e.consumed := by
  apply List.sum_nonneg
  intro charged hcharged
  obtain ⟨⟨k, amount⟩, hentry, rfl⟩ := List.mem_map.1 hcharged
  simp only [charge]
  cases hused : e.settled.get? k with
  | none => exact h.held k amount (JsMap.get?_eq_some_iff.2 hentry)
  | some used => exact h.used k used hused

/-- What is held for one key is part of what is consumed. -/
theorem Nonneg.held_le [IsOrderedAddMonoid M] {e : Escrow κ M} (h : e.Nonneg) {k : κ} {amount : M}
    (hheld : e.held.get? k = some amount) (hnew : e.settled.has k = false) :
    amount ≤ e.consumed := by
  have hrest := (h.settle k le_rfl).consumed
  rw [consumed_settle 0 hheld hnew, zero_sub, ← sub_eq_add_neg] at hrest
  exact sub_nonneg.1 hrest

end Nonneg

/-! ## Staying within what was held -/

/-- Nobody used more than was held for it. -/
def Within [LE M] (e : Escrow κ M) : Prop :=
  ∀ k amount used, e.held.get? k = some amount → e.settled.get? k = some used → used ≤ amount

omit [AddCommGroup M] in
theorem Within.of_settle [LE M] {e : Escrow κ M} {k : κ} {amount : M}
    (h : (e.settle k amount).Within) : e.Within := by
  unfold settle at h
  split at h
  · rename_i hguard
    simp only [Bool.and_eq_true, Bool.not_eq_true'] at hguard
    intro k' held used hheld hused
    apply h k' held used hheld
    have hne : k' ≠ k := by
      rintro rfl
      simp [JsMap.has, hused] at hguard
    rw [JsMap.get?_set_of_ne _ hne]
    exact hused
  · exact h

end Escrow
