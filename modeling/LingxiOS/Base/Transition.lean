-- SUMMARY: Labelled transition systems, their runs, and the rules for invariants and refinement.
import Mathlib.Order.Basic

/-! # Transition Systems

A system is a set of starting states and a labelled step relation. Everything a
development says about "every order of steps" goes through the three rules of
this file: an invariant is proved on one step, a relation between the two ends
of a run is proved on one step, and a refinement carries both from an abstract
system to a concrete one. -/

/-- A labelled transition system. -/
structure TransitionSystem (σ : Type*) (ε : Type*) where
  start : σ → Prop
  step : σ → ε → σ → Prop

namespace TransitionSystem

variable {σ ε α η : Type*} {T : TransitionSystem σ ε}

/-- A finite run, with the labels of its steps in order. -/
inductive Run (T : TransitionSystem σ ε) : σ → List ε → σ → Prop
  | refl (s : σ) : Run T s [] s
  | snoc {s t u : σ} {es : List ε} {e : ε} :
      Run T s es t → T.step t e u → Run T s (es ++ [e]) u

/-- States some run from a starting state ends in. -/
def Reachable (T : TransitionSystem σ ε) (s : σ) : Prop :=
  ∃ s₀ es, T.start s₀ ∧ T.Run s₀ es s

/-- The same system with only the steps that meet a condition. -/
def restrict (T : TransitionSystem σ ε) (ok : σ → ε → Prop) : TransitionSystem σ ε where
  start := T.start
  step s e s' := ok s e ∧ T.step s e s'

/-- The same system with only the steps that have a property. -/
def such (T : TransitionSystem σ ε) (P : σ → ε → σ → Prop) : TransitionSystem σ ε where
  start := T.start
  step s e s' := P s e s' ∧ T.step s e s'

/-! ## Runs -/

theorem Run.single {s s' : σ} {e : ε} (h : T.step s e s') : T.Run s [e] s' :=
  .snoc (.refl s) h

theorem Run.trans {s t u : σ} {es fs : List ε} (h₁ : T.Run s es t) (h₂ : T.Run t fs u) :
    T.Run s (es ++ fs) u := by
  induction h₂ with
  | refl => simpa using h₁
  | snoc _ hstep ih => simpa [List.append_assoc] using ih.snoc hstep

theorem Run.cons {s t u : σ} {e : ε} {es : List ε} (h : T.step s e t) (hrun : T.Run t es u) :
    T.Run s (e :: es) u :=
  (Run.single h).trans hrun

/-- A run whose last step is known splits there. -/
theorem Run.snoc_inv {s u : σ} {es : List ε} {e : ε} (h : T.Run s (es ++ [e]) u) :
    ∃ t, T.Run s es t ∧ T.step t e u := by
  generalize hes : es ++ [e] = fs at h
  cases h with
  | refl => simp at hes
  | snoc hrun hstep =>
      obtain ⟨rfl, hlast⟩ := List.append_inj' hes rfl
      obtain rfl := List.singleton_inj.1 hlast
      exact ⟨_, hrun, hstep⟩

/-- A run goes through every step whose label it has. -/
theorem Run.exists_step {s s' : σ} {es : List ε} {e : ε} (h : T.Run s es s') (he : e ∈ es) :
    ∃ t t' fs gs, T.Run s fs t ∧ T.step t e t' ∧ T.Run t' gs s' := by
  induction h with
  | refl => cases he
  | @snoc _ _ _ last hrun hlast ih =>
      rcases List.mem_append.1 he with hbefore | hhere
      · obtain ⟨t, t', fs, gs, hfirst, hstep, hrest⟩ := ih hbefore
        exact ⟨t, t', fs, gs ++ [last], hfirst, hstep, hrest.snoc hlast⟩
      · obtain rfl := List.mem_singleton.1 hhere
        exact ⟨_, _, _, [], hrun, hlast, .refl _⟩

/-- Where a label leads to one state only, a list of labels does. -/
theorem Run.functional (hstep : ∀ {s e t t'}, T.step s e t → T.step s e t' → t = t')
    {s t t' : σ} {es : List ε} (h : T.Run s es t) (h' : T.Run s es t') : t = t' := by
  induction h generalizing t' with
  | refl =>
      generalize hnil : ([] : List ε) = fs at h'
      cases h' with
      | refl => rfl
      | snoc hrun hlast => simp at hnil
  | snoc _ hlast ih =>
      obtain ⟨u, hrun', hlast'⟩ := h'.snoc_inv
      obtain rfl := ih hrun'
      exact hstep hlast hlast'

/-- A run of one system is one of every system with its steps. -/
theorem Run.mono {U : TransitionSystem σ ε} (hstep : ∀ {s e s'}, T.step s e s' → U.step s e s')
    {s s' : σ} {es : List ε} (h : T.Run s es s') : U.Run s es s' := by
  induction h with
  | refl => exact .refl _
  | snoc _ hlast ih => exact ih.snoc (hstep hlast)

theorem Run.of_restrict {ok : σ → ε → Prop} {s s' : σ} {es : List ε}
    (h : (T.restrict ok).Run s es s') : T.Run s es s' :=
  h.mono And.right

/-- A property of every step from a state of the invariant. -/
theorem Run.such {I : σ → Prop} {P : σ → ε → σ → Prop}
    (hstep : ∀ {s e s'}, I s → T.step s e s' → I s' ∧ P s e s')
    {s s' : σ} {es : List ε} (h : T.Run s es s') (hs : I s) : I s' ∧ (T.such P).Run s es s' := by
  induction h with
  | refl => exact ⟨hs, .refl _⟩
  | snoc _ hlast ih =>
      obtain ⟨hinv, hrun⟩ := ih
      obtain ⟨hinv', hlabel⟩ := hstep hinv hlast
      exact ⟨hinv', hrun.snoc ⟨hlabel, hlast⟩⟩

theorem Reachable.of_start {s : σ} (h : T.start s) : T.Reachable s :=
  ⟨s, [], h, .refl s⟩

theorem Reachable.next {s s' : σ} {e : ε} (h : T.Reachable s) (hstep : T.step s e s') :
    T.Reachable s' := by
  obtain ⟨s₀, es, hstart, hrun⟩ := h
  exact ⟨s₀, es ++ [e], hstart, hrun.snoc hstep⟩

theorem Reachable.run {s s' : σ} {es : List ε} (h : T.Reachable s) (hrun : T.Run s es s') :
    T.Reachable s' := by
  obtain ⟨s₀, fs, hstart, hprefix⟩ := h
  exact ⟨s₀, fs ++ es, hstart, hprefix.trans hrun⟩

theorem Reachable.of_restrict {ok : σ → ε → Prop} {s : σ}
    (h : (T.restrict ok).Reachable s) : T.Reachable s := by
  obtain ⟨s₀, es, hstart, hrun⟩ := h
  exact ⟨s₀, es, hstart, hrun.of_restrict⟩

/-! ## Invariants -/

/-- A property one step preserves is preserved by every run. -/
theorem Run.preserves {I : σ → Prop} (hstep : ∀ {s e s'}, I s → T.step s e s' → I s')
    {s s' : σ} {es : List ε} (hrun : T.Run s es s') (hs : I s) : I s' := by
  induction hrun with
  | refl => exact hs
  | snoc _ h ih => exact hstep ih h

/-- The same for a property of the state and the labels so far. -/
theorem Run.traces {I : List ε → σ → Prop} {s s' : σ} {es : List ε}
    (hstep : ∀ {es s e s'}, I es s → T.step s e s' → I (es ++ [e]) s')
    (hrun : T.Run s es s') (hs : I [] s) : I es s' := by
  induction hrun with
  | refl => exact hs
  | snoc _ h ih => exact hstep ih h

/-- A property that holds at the start and that one step preserves holds in
    every reachable state. -/
theorem Reachable.invariant {I : σ → Prop} (hstart : ∀ {s}, T.start s → I s)
    (hstep : ∀ {s e s'}, I s → T.step s e s' → I s') {s : σ} (h : T.Reachable s) : I s := by
  obtain ⟨s₀, es, hs₀, hrun⟩ := h
  exact hrun.preserves hstep (hstart hs₀)

/-- A preorder that contains every step from a state of the invariant contains
    every run from one. -/
theorem Run.relates {I : σ → Prop} {R : σ → σ → Prop} (hrefl : ∀ s, R s s)
    (htrans : ∀ {s t u}, R s t → R t u → R s u)
    (hstep : ∀ {s e s'}, I s → T.step s e s' → I s' ∧ R s s')
    {s s' : σ} {es : List ε} (hrun : T.Run s es s') (hs : I s) : I s' ∧ R s s' := by
  induction hrun with
  | refl => exact ⟨hs, hrefl _⟩
  | snoc _ h ih =>
      obtain ⟨hI, hR⟩ := ih
      obtain ⟨hI', hR'⟩ := hstep hI h
      exact ⟨hI', htrans hR hR'⟩

/-! ## Refinement -/

/-- A concrete system refines an abstract one through an abstraction function:
    under an invariant of the concrete system every step is an abstract step. -/
structure Refinement (C : TransitionSystem σ ε) (A : TransitionSystem α η) where
  abs : σ → α
  inv : σ → Prop
  label : σ → ε → η
  start : ∀ {s}, C.start s → inv s ∧ A.start (abs s)
  step : ∀ {s e s'}, inv s → C.step s e s' → inv s' ∧ A.step (abs s) (label s e) (abs s')

namespace Refinement

variable {C : TransitionSystem σ ε} {A : TransitionSystem α η} (R : Refinement C A)

theorem inv_of_reachable {s : σ} (h : C.Reachable s) : R.inv s :=
  h.invariant (fun hs => (R.start hs).1) (fun hi hs => (R.step hi hs).1)

/-- Every concrete run is an abstract run. -/
theorem run {s s' : σ} {es : List ε} (hi : R.inv s) (h : C.Run s es s') :
    R.inv s' ∧ ∃ fs, A.Run (R.abs s) fs (R.abs s') := by
  induction h with
  | refl => exact ⟨hi, [], .refl _⟩
  | snoc _ hstep ih =>
      obtain ⟨hinv, fs, hrun⟩ := ih
      obtain ⟨hinv', hstep'⟩ := R.step hinv hstep
      exact ⟨hinv', fs ++ [_], hrun.snoc hstep'⟩

theorem reachable {s : σ} (h : C.Reachable s) : A.Reachable (R.abs s) := by
  obtain ⟨s₀, es, hs₀, hrun⟩ := h
  obtain ⟨hinv, hstart⟩ := R.start hs₀
  obtain ⟨_, fs, hrun'⟩ := R.run hinv hrun
  exact ⟨R.abs s₀, fs, hstart, hrun'⟩

end Refinement

end TransitionSystem
