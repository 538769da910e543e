-- SUMMARY: Binary search for a length that passes a test, with nothing assumed of the test.
import Mathlib.Tactic.TypeStar

/-! # Bisection

The search keeps the last length that passed, whether or not the lengths that
pass are an interval. A test may fail altogether, and the search fails with it. -/

variable {ε : Type*}

/-- The last length found to pass between `low`, which is taken to pass, and `high`. -/
def bisect (test : Nat → Except ε Bool) (low high : Nat) : Except ε Nat :=
  if _h : low < high then
    match test ((low + high + 1) / 2) with
    | .error e => .error e
    | .ok true => bisect test ((low + high + 1) / 2) high
    | .ok false => bisect test low ((low + high + 1) / 2 - 1)
  else .ok low
termination_by high - low

variable {test : Nat → Except ε Bool} {low high n : Nat}

/-- The search ends where it started or at a length that passed. -/
theorem bisect_ok (h : bisect test low high = .ok n) (hle : low ≤ high) :
    low ≤ n ∧ n ≤ high ∧ (n = low ∨ test n = .ok true) := by
  induction low, high using bisect.induct test with
  | case1 low high hlt e htest =>
      rw [bisect, dif_pos hlt, htest] at h
      cases h
  | case2 low high hlt htest ih =>
      rw [bisect, dif_pos hlt, htest] at h
      obtain ⟨hlow, hhigh, hpass⟩ := ih h (by omega)
      refine ⟨by omega, hhigh, .inr ?_⟩
      rcases hpass with rfl | hpass
      · exact htest
      · exact hpass
  | case3 low high hlt htest ih =>
      rw [bisect, dif_pos hlt, htest] at h
      obtain ⟨hlow, hhigh, hpass⟩ := ih h (by omega)
      exact ⟨hlow, by omega, hpass⟩
  | case4 low high hlt =>
      rw [bisect, dif_neg hlt] at h
      cases h
      exact ⟨Nat.le_refl _, hle, .inl rfl⟩

/-- Where nothing passes, the search stays where it started. -/
theorem bisect_of_none (h : ∀ m, low < m → m ≤ high → test m = .ok false) :
    bisect test low high = .ok low := by
  induction low, high using bisect.induct test with
  | case1 low high hlt e htest =>
      rw [h _ (by omega) (by omega)] at htest
      cases htest
  | case2 low high hlt htest ih =>
      rw [h _ (by omega) (by omega)] at htest
      cases htest
  | case3 low high hlt htest ih =>
      rw [bisect, dif_pos hlt, htest]
      exact ih fun m hlow hhigh => h m hlow (by omega)
  | case4 low high hlt => rw [bisect, dif_neg hlt]
