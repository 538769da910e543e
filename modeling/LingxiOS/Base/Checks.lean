-- SUMMARY: Inversion of checks written in the `Except` monad.
import Mathlib.Data.List.Forall2

/-! # Checks

A chain of checks succeeds exactly when every one of them does. -/

namespace Except

universe u

variable {ε : Type*} {α β : Type u}

@[simp] theorem ok_bind (a : α) (f : α → Except ε β) : Except.ok a >>= f = f a := rfl

@[simp] theorem error_bind (e : ε) (f : α → Except ε β) :
    (Except.error e : Except ε α) >>= f = .error e := rfl

@[simp] theorem ok_map (a : α) (f : α → β) : (Except.ok a : Except ε α).map f = .ok (f a) := rfl

@[simp] theorem error_map (e : ε) (f : α → β) :
    (Except.error e : Except ε α).map f = .error e := rfl

@[simp] theorem pure_eq_ok (a : α) : (pure a : Except ε α) = .ok a := rfl

@[simp] theorem throw_eq_error (e : ε) : (throw e : Except ε α) = .error e := rfl

theorem bind_eq_ok_iff {x : Except ε α} {f : α → Except ε β} {b : β} :
    x >>= f = .ok b ↔ ∃ a, x = .ok a ∧ f a = .ok b := by
  cases x with
  | error e =>
      constructor
      · intro h
        cases h
      · rintro ⟨a, h, -⟩
        cases h
  | ok a =>
      constructor
      · intro h
        exact ⟨a, rfl, h⟩
      · rintro ⟨a', h, hf⟩
        cases h
        exact hf

theorem bind_ok {x : Except ε α} {f : α → Except ε β} {b : β} (h : x >>= f = .ok b) :
    ∃ a, x = .ok a ∧ f a = .ok b := bind_eq_ok_iff.mp h

theorem map_eq_ok_iff {x : Except ε α} {f : α → β} {b : β} :
    x.map f = .ok b ↔ ∃ a, x = .ok a ∧ f a = b := by
  cases x with
  | error e => simp [Except.map]
  | ok a => simp [Except.map]

theorem mapError_eq_ok_iff {ε' : Type*} {x : Except ε α} {f : ε → ε'} {a : α} :
    x.mapError f = .ok a ↔ x = .ok a := by
  cases x with
  | error e => simp [Except.mapError]
  | ok b => simp [Except.mapError]

/-- A guard that throws lets the rest run exactly when it does not hold. -/
theorem guard_eq_ok_iff {c : Prop} [Decidable c] {e : ε} {x : Except ε α} {a : α} :
    (if c then .error e else x) = .ok a ↔ ¬ c ∧ x = .ok a := by
  by_cases hc : c <;> simp [hc]

/-! ## Folds -/

section Fold

variable {σ τ : Type u} {α : Type*} {f : σ → α → Except ε σ} {s s' : σ} {x : α} {xs : List α}

theorem foldlM_cons_eq_ok_iff :
    (x :: xs).foldlM f s = .ok s' ↔ ∃ t, f s x = .ok t ∧ xs.foldlM f t = .ok s' := by
  rw [List.foldlM_cons]
  exact bind_eq_ok_iff

/-- What every step preserves holds at the end. -/
theorem foldlM_preserves {I : σ → Prop} (hstep : ∀ {s x s'}, I s → f s x = .ok s' → I s')
    (hs : I s) (h : xs.foldlM f s = .ok s') : I s' := by
  induction xs generalizing s with
  | nil =>
      cases h
      exact hs
  | cons x xs ih =>
      obtain ⟨t, hx, hxs⟩ := foldlM_cons_eq_ok_iff.mp h
      exact ih (hstep hs hx) hxs

theorem foldlM_eq_self (h : ∀ x ∈ xs, f s x = .ok s) : xs.foldlM f s = .ok s := by
  induction xs with
  | nil => rfl
  | cons x xs ih =>
      obtain ⟨hx, hxs⟩ := List.forall_mem_cons.mp h
      exact foldlM_cons_eq_ok_iff.mpr ⟨s, hx, ih hxs⟩

/-- A fold over a projection of the state is the projection of the fold, under
    an invariant of the steps. -/
theorem map_foldlM {I : σ → Prop} {g : τ → α → Except ε τ} {π : σ → τ}
    (hstep : ∀ {s x}, I s → (f s x).map π = g (π s) x)
    (hinv : ∀ {s x s'}, I s → f s x = .ok s' → I s') (xs : List α) (hs : I s) :
    (xs.foldlM f s).map π = xs.foldlM g (π s) := by
  induction xs generalizing s with
  | nil => rfl
  | cons x xs ih =>
      rw [List.foldlM_cons, List.foldlM_cons, ← hstep hs]
      cases hx : f s x with
      | error e => rfl
      | ok t => exact ih (hinv hs hx)

/-- A fold with fewer checks accepts what a fold with more does. -/
theorem foldlM_eq_ok_mono {g : σ → α → Except ε σ}
    (hstep : ∀ {s x s'}, f s x = .ok s' → g s x = .ok s') (h : xs.foldlM f s = .ok s') :
    xs.foldlM g s = .ok s' := by
  induction xs generalizing s with
  | nil => exact h
  | cons x xs ih =>
      obtain ⟨t, hx, hxs⟩ := foldlM_cons_eq_ok_iff.mp h
      exact foldlM_cons_eq_ok_iff.mpr ⟨t, hstep hx, ih hxs⟩

/-- A fold whose steps leave the state alone or make it larger ends where it
    began exactly when no step changes it. -/
theorem foldlM_eq_self_iff {size : σ → Nat}
    (hgrow : ∀ {s x s'}, f s x = .ok s' → s' = s ∨ size s < size s') :
    xs.foldlM f s = .ok s ↔ ∀ x ∈ xs, f s x = .ok s := by
  constructor
  · intro hfold x hmem
    induction xs with
    | nil => cases hmem
    | cons y ys ih =>
        obtain ⟨t, hy, hys⟩ := foldlM_cons_eq_ok_iff.mp hfold
        have hsize : size t ≤ size s := by
          apply foldlM_preserves (I := fun u => size t ≤ size u) _ (Nat.le_refl _) hys
          intro u x u' hle hstep
          rcases hgrow hstep with rfl | hlt
          · exact hle
          · exact Nat.le_trans hle (Nat.le_of_lt hlt)
        -- The fold comes back to `s`, so its first step cannot have grown it.
        obtain rfl : t = s := (hgrow hy).resolve_right (Nat.not_lt_of_le hsize)
        rcases List.mem_cons.mp hmem with rfl | hmem
        · exact hy
        · exact ih hys hmem
  · exact foldlM_eq_self

end Fold

theorem forM_eq_ok_iff {α : Type*} {f : α → Except ε PUnit} {xs : List α} :
    xs.forM f = .ok () ↔ ∀ x ∈ xs, f x = .ok () := by
  induction xs with
  | nil => exact ⟨nofun, fun _ => rfl⟩
  | cons x xs ih =>
      rw [List.forall_mem_cons, ← ih]
      constructor
      · intro h
        obtain ⟨⟨⟩, hx, hxs⟩ := bind_eq_ok_iff.mp h
        exact ⟨hx, hxs⟩
      · rintro ⟨hx, hxs⟩
        exact bind_eq_ok_iff.mpr ⟨(), hx, hxs⟩

/-- A list of checks succeeds item by item. -/
theorem forall₂_of_mapM {α : Type*} {f : α → Except ε β} {xs : List α} {ys : List β}
    (h : xs.mapM f = .ok ys) : List.Forall₂ (fun x y => f x = .ok y) xs ys := by
  induction xs generalizing ys with
  | nil =>
      cases h
      exact .nil
  | cons x xs ih =>
      rw [List.mapM_cons] at h
      obtain ⟨y, hy, h⟩ := bind_eq_ok_iff.1 h
      obtain ⟨ys, hys, h⟩ := bind_eq_ok_iff.1 h
      cases h
      exact .cons hy (ih hys)

theorem exists_of_mapM {α : Type*} {f : α → Except ε β} {xs : List α} {ys : List β}
    (h : xs.mapM f = .ok ys) :
    (∀ x ∈ xs, ∃ y ∈ ys, f x = .ok y) ∧ ∀ y ∈ ys, ∃ x ∈ xs, f x = .ok y := by
  have hpairs := forall₂_of_mapM h
  clear h
  induction hpairs with
  | nil => exact ⟨nofun, nofun⟩
  | @cons x y xs ys hy _ ih =>
      refine ⟨List.forall_mem_cons.2 ⟨⟨y, List.mem_cons_self, hy⟩, fun x hx => ?_⟩,
        List.forall_mem_cons.2 ⟨⟨x, List.mem_cons_self, hy⟩, fun y hy => ?_⟩⟩
      · obtain ⟨y, hy, hxy⟩ := ih.1 x hx
        exact ⟨y, List.mem_cons_of_mem _ hy, hxy⟩
      · obtain ⟨x, hx, hxy⟩ := ih.2 y hy
        exact ⟨x, List.mem_cons_of_mem _ hx, hxy⟩

/-- What holds of each two items in turn holds of what is made of them. -/
theorem pairwise_of_mapM {α : Type*} {f : α → Except ε β} {xs : List α} {ys : List β}
    {R : α → α → Prop} {S : β → β → Prop} (h : xs.mapM f = .ok ys) (hpairwise : xs.Pairwise R)
    (hrel : ∀ {a b a' b'}, f a = .ok a' → f b = .ok b' → R a b → S a' b') : ys.Pairwise S := by
  induction xs generalizing ys with
  | nil =>
      cases h
      exact .nil
  | cons x xs ih =>
      rw [List.mapM_cons] at h
      obtain ⟨y, hy, h⟩ := bind_eq_ok_iff.1 h
      obtain ⟨ys, hys, h⟩ := bind_eq_ok_iff.1 h
      cases h
      obtain ⟨hx, hxs⟩ := List.pairwise_cons.1 hpairwise
      refine .cons (fun z hz => ?_) (ih hys hxs)
      obtain ⟨w, hw, hwz⟩ := (exists_of_mapM hys).2 z hz
      exact hrel hy hwz (hx w hw)

theorem mapM_congr {α : Type*} {f g : α → Except ε β} {xs : List α} (h : ∀ x ∈ xs, f x = g x) :
    xs.mapM f = xs.mapM g := by
  induction xs with
  | nil => rfl
  | cons x xs ih =>
      obtain ⟨hx, hxs⟩ := List.forall_mem_cons.1 h
      rw [List.mapM_cons, List.mapM_cons, hx, ih hxs]

theorem mapM_eq_ok_of_forall {α : Type*} {f : α → Except ε β} {g : α → β} {xs : List α}
    (h : ∀ x ∈ xs, f x = .ok (g x)) : xs.mapM f = .ok (xs.map g) := by
  induction xs with
  | nil => rfl
  | cons x xs ih =>
      obtain ⟨hx, hxs⟩ := List.forall_mem_cons.1 h
      rw [List.mapM_cons, hx, ok_bind, ih hxs]
      rfl

end Except
