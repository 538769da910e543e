-- SUMMARY: When two observations are the same to a budget.
import LingxiOS.Runtime.CorrectionBounds

/-! # The Same Observation

Two values are alike if they differ in incidental fields, times and the order of fields only.
Their digests agree if the fields of each object have one order, which they do unless two
names are collated as one. -/

namespace LingxiOS

open JsonText (Units Value Number)
open Stringify (Live literal)

variable {env : Builtins}

/-! ## Alike values -/

mutual

/-- The value without incidental fields and times, each object in the order of its names. -/
def plain (key : Units) : Live → Live
  | .arr items => .arr (plainItems items)
  | .obj members => .obj ((plainMembers members).insertionSort fun a b => a.1 ≤ b.1)
  | .date _ => .obj []
  | .str text => .str (if tellsVersion key then text else withoutClock text)
  | value => value

def plainItems : List Live → List Live
  | [] => []
  | item :: rest => plain [] item :: plainItems rest

def plainMembers : List (Units × Live) → List (Units × Live)
  | [] => []
  | (name, item) :: rest =>
      if incidental.contains name then plainMembers rest
      else (name, plain name item) :: plainMembers rest

end

/-- Equal apart from incidental fields, times and the order of fields. -/
def Alike (v w : Live) : Prop := plain [] v = plain [] w

mutual

/-- No two names of an object are collated as one. -/
def Collated (env : Builtins) : Live → Prop
  | .arr items => CollatedItems env items
  | .obj members => members.Pairwise (fun a b => env.localeCompare a.1 b.1 ≠ .eq)
      ∧ CollatedMembers env members
  | _ => True

def CollatedItems (env : Builtins) : List Live → Prop
  | [] => True
  | item :: rest => Collated env item ∧ CollatedItems env rest

def CollatedMembers (env : Builtins) : List (Units × Live) → Prop
  | [] => True
  | (_, item) :: rest => Collated env item ∧ CollatedMembers env rest

end

/-! ## One text for alike values -/

mutual

/-- The objects with their members as they are written. -/
def arrange (env : Builtins) : Live → Live
  | .arr items => .arr (arrangeItems env items)
  | .obj members => Live.fromEntries ((arrangeMembers env members).insertionSort (collates env))
  | value => value

def arrangeItems (env : Builtins) : List Live → List Live
  | [] => []
  | item :: rest => arrange env item :: arrangeItems env rest

def arrangeMembers (env : Builtins) : List (Units × Live) → List (Units × Live)
  | [] => []
  | (name, item) :: rest => (name, arrange env item) :: arrangeMembers env rest

end

/-- The entries that are not incidental. -/
def kept (members : List (Units × Live)) : List (Units × Live) :=
  members.filter fun m => !incidental.contains m.1

theorem stableItems_eq_map (items : List Live) :
    stableItems env items = items.map (stableObservation env []) := by
  induction items with
  | nil => rfl
  | cons item rest ih => rw [stableItems, ih, List.map_cons]

theorem stableMembers_eq_map (members : List (Units × Live)) :
    stableMembers env members = (kept members).map fun m => (m.1, stableObservation env m.1 m.2) := by
  induction members with
  | nil => rfl
  | cons m rest ih =>
      rw [stableMembers, ih, kept, kept, List.filter_cons]
      cases incidental.contains m.1 with
      | true => rfl
      | false => rfl

theorem plainItems_eq_map (items : List Live) : plainItems items = items.map (plain []) := by
  induction items with
  | nil => rfl
  | cons item rest ih => rw [plainItems, ih, List.map_cons]

theorem plainMembers_eq_map (members : List (Units × Live)) :
    plainMembers members = (kept members).map fun m => (m.1, plain m.1 m.2) := by
  induction members with
  | nil => rfl
  | cons m rest ih =>
      rw [plainMembers, ih, kept, kept, List.filter_cons]
      cases incidental.contains m.1 with
      | true => rfl
      | false => rfl

theorem arrangeItems_eq_map (items : List Live) :
    arrangeItems env items = items.map (arrange env) := by
  induction items with
  | nil => rfl
  | cons item rest ih => rw [arrangeItems, ih, List.map_cons]

theorem arrangeMembers_eq_map (members : List (Units × Live)) :
    arrangeMembers env members = members.map fun m => (m.1, arrange env m.2) := by
  induction members with
  | nil => rfl
  | cons m rest ih => rw [arrangeMembers, ih, List.map_cons]

theorem collatedItems_iff {items : List Live} :
    CollatedItems env items ↔ ∀ item ∈ items, Collated env item := by
  induction items with
  | nil => simp [CollatedItems]
  | cons item rest ih => simp [CollatedItems, ih]

theorem collatedMembers_iff {members : List (Units × Live)} :
    CollatedMembers env members ↔ ∀ m ∈ members, Collated env m.2 := by
  induction members with
  | nil => simp [CollatedMembers]
  | cons m rest ih => simp [CollatedMembers, ih]

instance : Std.Total (collates env) where
  total a b := by
    have := env.consistent
    cases h : env.localeCompare a.1 b.1 with
    | lt => exact .inl (by simp [collates, h])
    | eq => exact .inl (by simp [collates, h])
    | gt =>
        rw [Std.OrientedCmp.gt_iff_lt] at h
        exact .inr (by simp [collates, h])

instance : IsTrans (Units × Live) (collates env) where
  trans _ _ _ hab hbc := by
    have := env.consistent
    exact Std.TransCmp.isLE_trans hab hbc

/-- Members no two of which are collated as one have one order. -/
theorem sorted_eq_of_perm {ms ns : List (Units × Live)} (h : ms.Perm ns)
    (hdistinct : ns.Pairwise fun a b => env.localeCompare a.1 b.1 ≠ .eq) :
    ms.insertionSort (collates env) = ns.insertionSort (collates env) := by
  have := env.consistent
  have hsymm : Std.Symm fun a b : Units × Live => env.localeCompare a.1 b.1 ≠ .eq :=
    ⟨fun a b hab hba => hab (Std.OrientedCmp.eq_symm hba)⟩
  have hms := List.perm_insertionSort (collates env) ms
  have hns := List.perm_insertionSort (collates env) ns
  refine List.Perm.eq_of_pairwise ?_ (List.pairwise_insertionSort (collates env) ms)
    (List.pairwise_insertionSort (collates env) ns) (hms.trans (h.trans hns.symm))
  intro a b ha hb hab hba
  by_contra hne
  refine hdistinct.forall (h.subset (hms.subset ha)) (hns.subset hb) hne ?_
  exact Std.OrientedCmp.isLE_antisymm hab hba

theorem stableObservation_eq (v : Live) : ∀ key, Collated env (plain key v) →
    stableObservation env key v = arrange env (plain key v) := by
  induction v using Live.induct with
  | atom v harr hobj =>
      intro key _
      cases v with
      | arr items => exact absurd rfl (harr items)
      | obj members => exact absurd rfl (hobj members)
      | date iso =>
          simp [stableObservation, plain, arrange, arrangeMembers, Live.fromEntries]
      | _ => rfl
  | arr items ih =>
      intro key h
      rw [plain, plainItems_eq_map] at h ⊢
      rw [stableObservation, arrange, stableItems_eq_map, arrangeItems_eq_map, List.map_map]
      have hitems := collatedItems_iff.1 h
      exact congrArg Live.arr (List.map_congr_left fun item hitem =>
        ih item hitem [] (hitems _ (List.mem_map_of_mem hitem)))
  | obj members ih =>
      intro key h
      rw [plain, plainMembers_eq_map] at h ⊢
      obtain ⟨hdistinct, hmembers⟩ := h
      have hperm := List.perm_insertionSort (fun a b : Units × Live => a.1 ≤ b.1)
        ((kept members).map fun m => (m.1, plain m.1 m.2))
      have hstable : stableMembers env members = ((kept members).map fun m =>
          (m.1, plain m.1 m.2)).map fun m => (m.1, arrange env m.2) := by
        rw [stableMembers_eq_map, List.map_map]
        refine List.map_congr_left fun m hm => Prod.ext rfl ?_
        exact ih m (List.mem_of_mem_filter hm) m.1
          (collatedMembers_iff.1 hmembers _ (hperm.mem_iff.2 (List.mem_map_of_mem hm)))
      rw [stableObservation, arrange, hstable, arrangeMembers_eq_map]
      refine congrArg Live.fromEntries (sorted_eq_of_perm (hperm.map _).symm ?_)
      exact List.pairwise_map.2 hdistinct

/-- Alike values have one digest. -/
theorem observationKey_alike {v w : Live} (h : Alike v w) (hw : Collated env (plain [] w)) :
    CorrectionBudget.observationKey env v = CorrectionBudget.observationKey env w := by
  have hv : Collated env (plain [] v) := h ▸ hw
  unfold CorrectionBudget.observationKey
  rw [stableObservation_eq v [] hv, stableObservation_eq w [] hw, h]

/-! ## Every sequence of calls -/

namespace CorrectionBudget

/-- What is promised after the calls, for a budget that started from a checkpoint or afresh. -/
structure Bounds (env : Builtins) (checkpoint : Option ProgressCheckpoint)
    (calls : List BudgetCall) : Prop where
  has : ∀ category failure, ((start checkpoint).after env calls).has category = true
    ↔ (((start checkpoint).after env calls).consume env category failure).1 = true
  between : ∀ before segment rest, calls = before ++ segment ++ rest →
    added env ((start checkpoint).after env before) segment = [] →
      (granted env ((start checkpoint).after env before) segment).length ≤ 2
  protocol : (granted env (start checkpoint) calls).countP (·.isProtocol) ≤ 2
  again : ∀ w ∈ (added env (start checkpoint) calls).drop
      ((added env (start checkpoint) calls).length - 2048), ∀ v, Alike v w →
    ((start checkpoint).after env calls).observe env v
      = (.ok (), (start checkpoint).after env calls)

/-- The budget keeps its bounds over every sequence of calls in which no two names of an
    observed object are collated as one. -/
theorem bounds_of_collated (env : Builtins) {checkpoint : Option ProgressCheckpoint}
    (h : ∀ c ∈ checkpoint, ProgressCheckpoint.check c.input = .ok ()) {calls : List BudgetCall}
    (hcollated : ∀ v, .observe v ∈ calls → Collated env (plain [] v)) :
    Bounds env checkpoint calls := by
  have hwithin := within_start h
  refine ⟨fun category failure => has_iff_consume, ?_, ?_, ?_⟩
  · intro before segment rest _ hnone
    have hcount := (@within_after env _ before hwithin).count
    have hle := granted_le hnone
    omega
  · have hrepairs := hwithin.protocolRepairs
    have hle := @granted_protocol_le env (start checkpoint) calls
    omega
  · intro w hw v hv
    obtain ⟨hmem, hkey⟩ := mem_added (List.mem_of_mem_drop hw)
    have hknown : digest env w ∈ ((start checkpoint).after env calls).observations := by
      rw [after_observations]
      apply Fifo.mem_foldl_push hwithin.observations
      rw [List.length_map, ← List.map_drop]
      exact List.mem_map_of_mem hw
    have hsame := (observationKey_alike hv (hcollated w hmem)).trans hkey
    simp [observe, hsame, hknown]

private def revisedLater : Live :=
  .obj [(literal "observedAt", .str (literal "2026-01-02T00:00:00Z")),
    (literal "revision", .str (literal "v1"))]

theorem bounds_of_collated_revised :
    let calls := [.observe revised, .consume .kernelError none, .restore, .observe revisedLater]
    granted sampleBuiltins (start none) calls = [.kernelError]
      ∧ ((start none).after sampleBuiltins calls).count = 1
      ∧ Bounds sampleBuiltins none calls := by
  refine ⟨by decide +kernel, by decide +kernel, bounds_of_collated sampleBuiltins (by simp) ?_⟩
  have hcollated : Collated sampleBuiltins revised := ⟨List.pairwise_singleton _ _, trivial, trivial⟩
  intro v hv
  simp only [List.mem_cons, BudgetCall.observe.injEq, reduceCtorEq, List.not_mem_nil, or_false,
    false_or] at hv
  rcases hv with rfl | rfl
  · exact hcollated
  · exact hcollated

private def accented : Live :=
  .obj [([0xE9], .num (.ofInt 1)), ([0x65, 0x301], .num (.ofInt 2))]

private def accentedLast : Live :=
  .obj [([0x65, 0x301], .num (.ofInt 2)), ([0xE9], .num (.ofInt 1))]

/-- Two names that are collated as one keep the order they come in: an object that is observed
    again in the other order is new, and allows another correction. -/
theorem reordered_is_new :
    let calls := [.observe accented, .consume .kernelError none, .consume .kernelError none]
    let budget := (start none).after sampleBuiltins calls
    Alike accentedLast accented ∧ budget.has .kernelError = false
      ∧ (budget.observe sampleBuiltins accentedLast).2.has .kernelError = true
      ∧ ¬ Bounds sampleBuiltins none calls := by
  intro calls budget
  have hno : budget.has .kernelError = false := by decide +kernel
  have hyes : (budget.observe sampleBuiltins accentedLast).2.has .kernelError = true := by
    decide +kernel
  refine ⟨rfl, hno, hyes, fun hbounds => ?_⟩
  have hadded : added sampleBuiltins (start none) calls = [accented] := rfl
  have hsame := hbounds.again accented (by simp [hadded]) accentedLast rfl
  rw [hsame, hno] at hyes
  cases hyes

end CorrectionBudget

end LingxiOS
