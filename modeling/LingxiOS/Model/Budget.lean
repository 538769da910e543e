-- SUMMARY: The in-memory model budget over any run.
import LingxiOS.Base.Double
import LingxiOS.Base.Escrow
import LingxiOS.Base.Transition
import Mathlib.Algebra.Order.Monoid.Prod

/-! # The Model Budget

A translation of `MemoryModelBudgetStore`. Every model call of a root work and
its children reserves its tokens and its cost before it is made, and records
what it used afterwards. Amounts are integers, as the service requires, and the
two running sums of a root are numbers of double precision. The reservations of
a root are an escrow over tokens and cost side by side, and the sums are what
that escrow consumes as long as they are below 2⁵³. -/

namespace LingxiOS

/-! ## State -/

/-- What a call asks for and, on the first call of a root, the limits it sets. -/
structure ModelBudgetLimits where
  maxExecutionMs : Option Nat := none
  reservedTokens : Option Nat := none
  reservedInputTokens : Option Nat := none
  reservedOutputTokens : Option Nat := none
  reservedCostMicros : Option Nat := none
  maxModelCalls : Nat
  maxTokens : Nat
  maxCostMicros : Nat
  deadlineAt : Option Int
  deriving DecidableEq

/-- Tokens and cost a call reserves. -/
def ModelBudgetLimits.reserved (limits : ModelBudgetLimits) : Int × Int :=
  (limits.reservedTokens.getD 0, limits.reservedCostMicros.getD 0)

structure ModelBudgetReservation where
  allowed : Bool
  remainingCalls : Int
  remainingTokens : Double
  remainingCostMicros : Double
  deadlineAt : Option Int
  deriving DecidableEq

/-- The budget of one root, with the tokens and the cost each call reserved. -/
structure ModelBudget where
  maxModelCalls : Nat
  maxTokens : Nat
  maxCostMicros : Nat
  deadlineAt : Option Int
  calls : JsMap String (Int × Int)
  recorded : List String
  tokens : Double
  costMicros : Double

/-- The budgets by root work. -/
abbrev ModelBudgetStore := JsMap String ModelBudget

namespace ModelBudgetStore

/-- The budget the first reservation of a root opens. -/
def newBudget (limits : ModelBudgetLimits) : ModelBudget where
  maxModelCalls := limits.maxModelCalls
  maxTokens := limits.maxTokens
  maxCostMicros := limits.maxCostMicros
  deadlineAt := limits.deadlineAt
  calls := .empty
  recorded := []
  tokens := .ofInt 0
  costMicros := .ofInt 0

/-- Whether a new call still fits. A deadline that cannot be read has passed. -/
def fits (budget : ModelBudget) (limits : ModelBudgetLimits) (now : Int) : Bool :=
  budget.deadlineAt.any (fun deadline => decide (now < deadline))
    && decide (budget.calls.size < budget.maxModelCalls)
    && decide (budget.tokens.plus limits.reserved.1 ≤ .ofInt budget.maxTokens)
    && decide (budget.costMicros.plus limits.reserved.2 ≤ .ofInt budget.maxCostMicros)

/-- The budget once a new call was admitted. -/
def charged (budget : ModelBudget) (callId : String) (limits : ModelBudgetLimits) : ModelBudget :=
  { budget with
    calls := budget.calls.set callId limits.reserved
    tokens := budget.tokens.plus limits.reserved.1
    costMicros := budget.costMicros.plus limits.reserved.2 }

def reservation (budget : ModelBudget) (allowed : Bool) : ModelBudgetReservation where
  allowed := allowed
  remainingCalls := max 0 (budget.maxModelCalls - budget.calls.size)
  remainingTokens := max (.ofInt 0) ((Double.ofInt budget.maxTokens).add budget.tokens.neg)
  remainingCostMicros :=
    max (.ofInt 0) ((Double.ofInt budget.maxCostMicros).add budget.costMicros.neg)
  deadlineAt := budget.deadlineAt

def reserve (s : ModelBudgetStore) (now : Int) (rootWorkId callId : String)
    (limits : ModelBudgetLimits) : ModelBudgetReservation × ModelBudgetStore :=
  let budget := (s.get? rootWorkId).getD (newBudget limits)
  let existing := budget.calls.has callId
  let allowed := existing || fits budget limits now
  let budget := if allowed && !existing then charged budget callId limits else budget
  (reservation budget allowed, s.set rootWorkId budget)

/-- The budget once a call's usage took the place of its reservation. -/
def settled (budget : ModelBudget) (callId : String) (reserved : Int × Int)
    (inputTokens outputTokens costMicros : Nat) : ModelBudget :=
  { budget with
    recorded := budget.recorded ++ [callId]
    tokens := budget.tokens.add
      (((Double.ofInt inputTokens).plus outputTokens).plus ((-reserved.1 : Int) : Rat))
    costMicros := budget.costMicros.add
      ((Double.ofInt costMicros).plus ((-reserved.2 : Int) : Rat)) }

def record (s : ModelBudgetStore) (rootWorkId callId : String)
    (inputTokens outputTokens costMicros : Nat) : Except String Unit × ModelBudgetStore :=
  match s.get? rootWorkId with
  | none => (.error "model call budget reservation is missing", s)
  | some budget =>
      match budget.calls.get? callId with
      | none => (.error "model call budget reservation is missing", s)
      | some reserved =>
          if budget.recorded.contains callId then (.ok (), s)
          else
            (.ok (), s.set rootWorkId
              (settled budget callId reserved inputTokens outputTokens costMicros))

/-! ## Runs -/

inductive Call where
  | reserve (rootWorkId callId : String) (limits : ModelBudgetLimits)
  | record (rootWorkId callId : String) (inputTokens outputTokens costMicros : Nat)

inductive Answer where
  | reserved (result : ModelBudgetReservation)
  | recorded (result : Except String Unit)

/-- A call at some reading of the clock, and its answer. -/
structure Label where
  now : Int
  call : Call
  answer : Answer

def exec (s : ModelBudgetStore) (now : Int) : Call → Answer × ModelBudgetStore
  | .reserve rootWorkId callId limits => (s.reserve now rootWorkId callId limits).map .reserved id
  | .record rootWorkId callId inputTokens outputTokens costMicros =>
      (s.record rootWorkId callId inputTokens outputTokens costMicros).map .recorded id

/-- The store from its creation on, under any sequence of calls. -/
def system : TransitionSystem ModelBudgetStore Label where
  start s := s = .empty
  step s e s' := (e.answer, s') = exec s e.now e.call

/-! ## The escrow of a root -/

/-- What a call adds to the escrow of a root: an admitted call holds what it
    reserved, a recorded call is settled for what it used. -/
def Label.account (rootWorkId : String) (e : Escrow String (Int × Int)) (label : Label) :
    Escrow String (Int × Int) :=
  match label.call, label.answer with
  | .reserve root callId limits, .reserved result =>
      if root = rootWorkId ∧ result.allowed = true then
        e.hold callId limits.reserved
      else e
  | .record root callId inputTokens outputTokens costMicros, .recorded (.ok ()) =>
      if root = rootWorkId then
        e.settle callId ((inputTokens + outputTokens : Nat), (costMicros : Nat))
      else e
  | _, _ => e

/-- The admitted and recorded calls of a root over a run. -/
def escrowOf (rootWorkId : String) (es : List Label) : Escrow String (Int × Int) :=
  es.foldl (Label.account rootWorkId) .empty

/-- A recorded call that is settled, and what is then consumed, stays below 2⁵³. -/
def Label.Exact (es : List Label) (label : Label) : Prop :=
  match label.call with
  | .reserve _ _ limits => limits.maxTokens < 2 ^ 53 ∧ limits.maxCostMicros < 2 ^ 53
  | .record root callId inputTokens outputTokens costMicros =>
      let used : Int × Int := ((inputTokens + outputTokens : Nat), (costMicros : Nat))
      let e := escrowOf root es
      e.held.has callId = true → e.settled.has callId = false →
        used.1 < 2 ^ 53 ∧ used.2 < 2 ^ 53
          ∧ (e.settle callId used).consumed.1 < 2 ^ 53 ∧ (e.settle callId used).consumed.2 < 2 ^ 53

/-- Every call of a run is exact. -/
def Exact (es : List Label) : Prop := ∀ before label, before ++ [label] <+: es → label.Exact before

theorem exact_concat {es : List Label} {label : Label} :
    Exact (es ++ [label]) ↔ Exact es ∧ label.Exact es := by
  constructor
  · intro h
    exact ⟨fun before l hpart => h before l (hpart.trans (List.prefix_append _ _)),
      h es label (List.prefix_refl _)⟩
  · rintro ⟨h, hlast⟩ before l hpart
    rcases List.prefix_concat_iff.1 hpart with heq | hpart
    · obtain ⟨rfl, hl⟩ := List.append_inj' heq rfl
      obtain rfl := (List.cons.inj hl).1
      exact hlast
    · exact h before l hpart

/-- A budget keeps the books of an escrow. -/
structure Tracks (budget : ModelBudget) (e : Escrow String (Int × Int)) : Prop where
  wf : e.Wf
  calls : e.held = budget.calls
  recorded : ∀ callId, e.settled.has callId = budget.recorded.contains callId
  nonneg : e.Nonneg
  consumed : budget.tokens = .ofInt e.consumed.1 ∧ budget.costMicros = .ofInt e.consumed.2
  exact : e.consumed.1 < 2 ^ 53 ∧ e.consumed.2 < 2 ^ 53
  limits : budget.maxTokens < 2 ^ 53 ∧ budget.maxCostMicros < 2 ^ 53
  admitted : budget.calls.size ≤ budget.maxModelCalls
  within : e.Within → e.consumed.1 ≤ budget.maxTokens ∧ e.consumed.2 ≤ budget.maxCostMicros

theorem tracks_newBudget {limits : ModelBudgetLimits}
    (hlimits : limits.maxTokens < 2 ^ 53 ∧ limits.maxCostMicros < 2 ^ 53) :
    Tracks (newBudget limits) .empty where
  wf := Escrow.wf_empty
  calls := rfl
  recorded _ := rfl
  nonneg := Escrow.nonneg_empty
  consumed := ⟨rfl, rfl⟩
  exact := by decide
  limits := hlimits
  admitted := Nat.zero_le _
  within _ := ⟨Int.natCast_nonneg _, Int.natCast_nonneg _⟩

section

variable {budget : ModelBudget} {e : Escrow String (Int × Int)}

theorem reserved_nonneg (limits : ModelBudgetLimits) : 0 ≤ limits.reserved :=
  Prod.le_def.2 ⟨Int.natCast_nonneg _, Int.natCast_nonneg _⟩

/-- Admitting a new call that fits. -/
theorem Tracks.charged (h : Tracks budget e) {callId : String} {limits : ModelBudgetLimits}
    {now : Int} (hnew : budget.calls.has callId = false) (hfits : fits budget limits now = true) :
    Tracks (ModelBudgetStore.charged budget callId limits)
      (e.hold callId limits.reserved) := by
  have hheld : e.held.has callId = false := by rw [h.calls, hnew]
  simp only [fits, Bool.and_eq_true, decide_eq_true_eq] at hfits
  obtain ⟨⟨⟨-, hcalls⟩, htokens⟩, hcost⟩ := hfits
  obtain ⟨hreserved₁, hreserved₂⟩ := Prod.le_def.1 (reserved_nonneg limits)
  obtain ⟨hconsumed₁, hconsumed₂⟩ := Prod.le_def.1 h.nonneg.consumed
  obtain ⟨hlimit₁, hlimit₂⟩ := h.limits
  rw [h.consumed.1] at htokens
  rw [h.consumed.2] at hcost
  -- What is within a limit is below 2⁵³, and exact.
  obtain ⟨hsum₁, hle₁⟩ := Double.plus_le_ofInt (add_nonneg hconsumed₁ hreserved₁)
    (by exact_mod_cast hlimit₁) htokens
  obtain ⟨hsum₂, hle₂⟩ := Double.plus_le_ofInt (add_nonneg hconsumed₂ hreserved₂)
    (by exact_mod_cast hlimit₂) hcost
  have hconsumed := Escrow.consumed_hold h.wf limits.reserved hheld
  refine ⟨h.wf.hold _ _, ?_, ?_, h.nonneg.hold _ (reserved_nonneg limits), ?_, ?_, h.limits, ?_, ?_⟩
  · rw [Escrow.hold_of_new _ hheld, h.calls]
    rfl
  · intro callId'
    rw [Escrow.hold_of_new _ hheld]
    exact h.recorded callId'
  · rw [hconsumed]
    simp only [ModelBudgetStore.charged, h.consumed.1, h.consumed.2]
    exact ⟨hsum₁, hsum₂⟩
  · rw [hconsumed, Prod.fst_add, Prod.snd_add]
    exact ⟨by omega, by omega⟩
  · have hsize := JsMap.size_set_le budget.calls callId limits.reserved
    exact hsize.trans hcalls
  · intro _
    rw [hconsumed]
    exact ⟨hle₁, hle₂⟩

/-- Recording the usage of a call for the first time. -/
theorem Tracks.settled (h : Tracks budget e) {callId : String} {reserved : Int × Int}
    {inputTokens outputTokens costMicros : Nat} (hcall : budget.calls.get? callId = some reserved)
    (hnew : budget.recorded.contains callId = false) {used : Int × Int}
    (hused : used = (((inputTokens + outputTokens : Nat) : Int), (costMicros : Int)))
    (hexact : used.1 < 2 ^ 53 ∧ used.2 < 2 ^ 53
      ∧ (e.settle callId used).consumed.1 < 2 ^ 53 ∧ (e.settle callId used).consumed.2 < 2 ^ 53) :
    Tracks (ModelBudgetStore.settled budget callId reserved inputTokens outputTokens costMicros)
      (e.settle callId used) := by
  have hheld : e.held.get? callId = some reserved := by rw [h.calls, hcall]
  have hhas : e.held.has callId = true := by simp [JsMap.has, hheld]
  have hunsettled : e.settled.has callId = false := by rw [h.recorded, hnew]
  have hpositive : 0 ≤ used := by
    rw [hused]
    exact Prod.le_def.2 ⟨Int.natCast_nonneg _, Int.natCast_nonneg _⟩
  have hnonneg := h.nonneg.settle callId hpositive
  have hconsumed := Escrow.consumed_settle used hheld hunsettled
  refine ⟨h.wf.settle _ _, ?_, ?_, hnonneg, ?_, hexact.2.2, h.limits, h.admitted, ?_⟩
  · rw [Escrow.settle_of_held _ hhas hunsettled]
    exact h.calls
  · intro callId'
    have hbefore := h.recorded callId'
    rw [Escrow.settle_of_held _ hhas hunsettled]
    by_cases hid : callId' = callId
    · simp [JsMap.has, ModelBudgetStore.settled, hid]
    · simpa [JsMap.has, JsMap.get?_set_of_ne _ hid, ModelBudgetStore.settled, hid] using hbefore
  · -- Every sum is between -2⁵³ and 2⁵³.
    obtain ⟨hheld₁, hheld₂⟩ := Prod.le_def.1 (h.nonneg.held_le hheld hunsettled)
    obtain ⟨hreserved₁, hreserved₂⟩ := Prod.le_def.1 (h.nonneg.held callId reserved hheld)
    obtain ⟨hpositive₁, hpositive₂⟩ := Prod.le_def.1 hpositive
    obtain ⟨hafter₁, hafter₂⟩ := Prod.le_def.1 hnonneg.consumed
    obtain ⟨hbefore₁, hbefore₂⟩ := h.exact
    obtain ⟨hused₁, hused₂, hbound₁, hbound₂⟩ := hexact
    rw [hconsumed] at hafter₁ hafter₂ hbound₁ hbound₂ ⊢
    simp only [Prod.fst_add, Prod.snd_add, Prod.fst_sub, Prod.snd_sub, Prod.fst_zero,
      Prod.snd_zero] at *
    have hsum : (Double.ofInt inputTokens).plus outputTokens = .ofInt used.1 := by
      have hplus := Double.plus_ofInt (m := inputTokens) (n := outputTokens)
        (by rw [hused] at hused₁; rw [abs_of_nonneg (by omega)]; push_cast at hused₁; exact hused₁)
      rw [hused]
      exact_mod_cast hplus
    refine ⟨?_, ?_⟩
    · simp only [ModelBudgetStore.settled, hsum, h.consumed.1]
      rw [Double.plus_ofInt (abs_lt.2 ⟨by omega, by omega⟩), ← sub_eq_add_neg]
      exact Double.plus_ofInt (abs_lt.2 ⟨by omega, by omega⟩)
    · have hcost : (costMicros : Int) = used.2 := by rw [hused]
      simp only [ModelBudgetStore.settled, hcost, h.consumed.2]
      rw [Double.plus_ofInt (abs_lt.2 ⟨by omega, by omega⟩), ← sub_eq_add_neg]
      exact Double.plus_ofInt (abs_lt.2 ⟨by omega, by omega⟩)
  · intro hwithin
    obtain ⟨htokens, hcost⟩ := h.within hwithin.of_settle
    -- What was used is at most what it replaces.
    have hless := hwithin callId reserved used
      (by rw [Escrow.settle_of_held _ hhas hunsettled]; exact hheld)
      (by simp [Escrow.settle_of_held _ hhas hunsettled])
    obtain ⟨hless₁, hless₂⟩ := Prod.le_def.1 hless
    rw [hconsumed]
    simp only [ModelBudgetStore.settled, Prod.fst_add, Prod.snd_add, Prod.fst_sub, Prod.snd_sub]
    exact ⟨by omega, by omega⟩

end

/-! ## Every run keeps the books -/

/-- The store keeps a budget for every root whose escrow is not empty. -/
def Keeps (es : List Label) (s : ModelBudgetStore) : Prop :=
  ∀ root, match s.get? root with
    | none => escrowOf root es = .empty
    | some budget => Tracks budget (escrowOf root es)

theorem escrowOf_snoc (root : String) (es : List Label) (label : Label) :
    escrowOf root (es ++ [label]) = label.account root (escrowOf root es) := by
  simp [escrowOf]

section

variable {s : ModelBudgetStore} {es : List Label} {now : Int} {rootWorkId callId : String}

/-- The budget of a root, or the one its first reservation opens. -/
theorem Keeps.budget (h : Keeps es s) (rootWorkId : String) {limits : ModelBudgetLimits}
    (hlimits : limits.maxTokens < 2 ^ 53 ∧ limits.maxCostMicros < 2 ^ 53) :
    Tracks ((s.get? rootWorkId).getD (newBudget limits)) (escrowOf rootWorkId es) := by
  have hroot := h rootWorkId
  cases hbudget : s.get? rootWorkId with
  | none =>
      rw [hbudget] at hroot
      rw [show escrowOf rootWorkId es = .empty from hroot]
      exact tracks_newBudget hlimits
  | some budget =>
      rw [hbudget] at hroot
      exact hroot

/-- A call on one root, which stores that root's budget anew. -/
theorem Keeps.set (h : Keeps es s) {label : Label} {budget : ModelBudget}
    (hbudget : Tracks budget (label.account rootWorkId (escrowOf rootWorkId es)))
    (hother : ∀ root, root ≠ rootWorkId → label.account root (escrowOf root es) = escrowOf root es) :
    Keeps (es ++ [label]) (s.set rootWorkId budget) := by
  intro root
  rw [escrowOf_snoc]
  by_cases hroot : root = rootWorkId
  · subst hroot
    rw [JsMap.get?_set_self]
    exact hbudget
  · rw [JsMap.get?_set_of_ne _ hroot, hother root hroot]
    exact h root

/-- A call that changes neither a budget nor an escrow. -/
theorem Keeps.same (h : Keeps es s) {label : Label}
    (hsame : ∀ root, label.account root (escrowOf root es) = escrowOf root es) :
    Keeps (es ++ [label]) s := by
  intro root
  rw [escrowOf_snoc, hsame root]
  exact h root

theorem Keeps.reserve (h : Keeps es s) {limits : ModelBudgetLimits}
    (hlimits : limits.maxTokens < 2 ^ 53 ∧ limits.maxCostMicros < 2 ^ 53) :
    Keeps (es ++ [⟨now, .reserve rootWorkId callId limits,
        .reserved (s.reserve now rootWorkId callId limits).1⟩])
      (s.reserve now rootWorkId callId limits).2 := by
  have htracks := h.budget rootWorkId hlimits
  simp only [ModelBudgetStore.reserve]
  generalize (s.get? rootWorkId).getD (newBudget limits) = budget at htracks
  apply h.set
  · simp only [Label.account, true_and, reservation]
    cases hexisting : budget.calls.has callId with
    | true =>
        -- The call is held already.
        have hheld : (escrowOf rootWorkId es).held.has callId = true := by
          rw [htracks.calls, hexisting]
        simp only [Bool.true_or, Bool.not_true, Bool.and_false, Bool.false_eq_true, if_false,
          if_true, Escrow.hold_of_has _ hheld]
        exact htracks
    | false =>
        cases hfits : fits budget limits now with
        | true =>
            simp only [Bool.false_or, Bool.not_false, Bool.and_true, if_true]
            exact htracks.charged hexisting hfits
        | false =>
            simp only [Bool.false_or, Bool.not_false, Bool.and_true, Bool.false_eq_true, if_false]
            exact htracks
  · intro root hroot
    simp [Label.account, Ne.symm hroot]

theorem Keeps.record (h : Keeps es s) {inputTokens outputTokens costMicros : Nat}
    {answer : Answer} (hexact : Label.Exact es
      ⟨now, .record rootWorkId callId inputTokens outputTokens costMicros, answer⟩) :
    Keeps (es ++ [⟨now, .record rootWorkId callId inputTokens outputTokens costMicros,
        .recorded (s.record rootWorkId callId inputTokens outputTokens costMicros).1⟩])
      (s.record rootWorkId callId inputTokens outputTokens costMicros).2 := by
  have hroot := h rootWorkId
  unfold ModelBudgetStore.record
  cases hbudget : s.get? rootWorkId with
  | none => exact h.same fun _ => rfl
  | some budget =>
      rw [hbudget] at hroot
      have htracks : Tracks budget (escrowOf rootWorkId es) := hroot
      dsimp only
      cases hcall : budget.calls.get? callId with
      | none => exact h.same fun _ => rfl
      | some reserved =>
          dsimp only
          cases hrecorded : budget.recorded.contains callId with
          | true =>
              -- The call is settled already.
              have hsettled : (escrowOf rootWorkId es).settled.has callId = true := by
                rw [htracks.recorded, hrecorded]
              apply h.same
              intro root
              simp only [if_true, Label.account]
              split
              · rename_i hid
                subst hid
                exact Escrow.settle_of_has _ hsettled
              · rfl
          | false =>
              simp only [Bool.false_eq_true, if_false]
              apply h.set
              · simp only [Label.account, if_true]
                have hheld : (escrowOf rootWorkId es).held.has callId = true := by
                  rw [htracks.calls]
                  simp [JsMap.has, hcall]
                have hnew : (escrowOf rootWorkId es).settled.has callId = false := by
                  rw [htracks.recorded, hrecorded]
                exact htracks.settled hcall hrecorded rfl (hexact hheld hnew)
              · intro root hid
                simp [Label.account, Ne.symm hid]

theorem keeps_of_run {es : List Label} (hrun : system.Run .empty es s) (hexact : Exact es) :
    Keeps es s := by
  revert hexact
  apply hrun.traces (I := fun es s => Exact es → Keeps es s)
  · rintro es s ⟨now, call, answer⟩ s' ih hstep hexact
    obtain ⟨hbefore, hlast⟩ := exact_concat.1 hexact
    have hkeeps := ih hbefore
    change (answer, s') = exec s now call at hstep
    cases call with
    | reserve rootWorkId callId limits =>
        obtain ⟨rfl, rfl⟩ := Prod.mk.inj hstep
        exact hkeeps.reserve hlast
    | record rootWorkId callId inputTokens outputTokens costMicros =>
        obtain ⟨rfl, rfl⟩ := Prod.mk.inj hstep
        exact hkeeps.record hlast
  · intro _ root
    rfl

end

/-! ## Conservation -/

/-- What holds of a root's budget after a run, told by the calls of the run. -/
structure Conserved (es : List Label) (s : ModelBudgetStore) (root : String)
    (budget : ModelBudget) : Prop where
  admitted : (escrowOf root es).held.size ≤ budget.maxModelCalls
  consumed : budget.tokens = .ofInt (escrowOf root es).consumed.1
    ∧ budget.costMicros = .ofInt (escrowOf root es).consumed.2
  reserve_again : ∀ callId now limits, (escrowOf root es).held.has callId = true →
    (s.reserve now root callId limits).1.allowed = true ∧
      (s.reserve now root callId limits).2 = s
  record_again : ∀ callId inputTokens outputTokens costMicros,
    (escrowOf root es).settled.has callId = true →
      s.record root callId inputTokens outputTokens costMicros = (.ok (), s)
  within : (escrowOf root es).Within →
    budget.tokens ≤ .ofInt budget.maxTokens ∧ budget.costMicros ≤ .ofInt budget.maxCostMicros

/-- After any sequence of reservations and recordings the budget of every root
    has admitted at most its number of calls and consumes what the recorded calls
    used and the others reserved; repeating a call changes nothing; and as long
    as no call used more than it reserved, no limit is exceeded. Every sum must stay
    below 2⁵³. -/
theorem model_budget_conserved {s : ModelBudgetStore} {es : List Label} {root : String}
    {budget : ModelBudget} (hrun : system.Run .empty es s) (hexact : Exact es)
    (hbudget : s.get? root = some budget) : Conserved es s root budget := by
  have hroot := keeps_of_run hrun hexact root
  rw [hbudget] at hroot
  have htracks : Tracks budget (escrowOf root es) := hroot
  refine ⟨?_, htracks.consumed, ?_, ?_, fun hwithin => ?_⟩
  · rw [htracks.calls]
    exact htracks.admitted
  · intro callId now limits hheld
    rw [htracks.calls] at hheld
    simp only [reserve, hbudget, Option.getD_some, hheld, Bool.true_or, Bool.not_true,
      Bool.and_false, Bool.false_eq_true, if_false, reservation, true_and]
    exact JsMap.set_eq_self hbudget
  · intro callId inputTokens outputTokens costMicros hsettled
    have hheld := htracks.wf callId hsettled
    rw [htracks.calls] at hheld
    obtain ⟨reserved, hcall⟩ := Option.isSome_iff_exists.1 hheld
    rw [htracks.recorded] at hsettled
    simp only [record, hbudget, hcall, hsettled, if_true]
  · obtain ⟨htokens, hcost⟩ := htracks.within hwithin
    rw [htracks.consumed.1, htracks.consumed.2]
    simp only [Double.ofInt, Double.finite_le_finite]
    exact ⟨by exact_mod_cast htokens, by exact_mod_cast hcost⟩

/-! ### Two runs -/

private def trialLimits : ModelBudgetLimits :=
  { reservedTokens := some 10, maxModelCalls := 2, maxTokens := 12, maxCostMicros := 1
    deadlineAt := some 100 }

private def trialReserved : ModelBudgetStore := (reserve .empty 0 "root" "call" trialLimits).2

/-- A call that reserves ten tokens and uses these. -/
private def trialRecorded (inputTokens outputTokens : Nat) : ModelBudgetStore :=
  (record trialReserved "root" "call" inputTokens outputTokens 0).2

private def trialLabels (inputTokens outputTokens : Nat) : List Label :=
  [⟨0, .reserve "root" "call" trialLimits,
      .reserved (reserve .empty 0 "root" "call" trialLimits).1⟩,
    ⟨1, .record "root" "call" inputTokens outputTokens 0, .recorded (.ok ())⟩]

private theorem trial_run (inputTokens outputTokens : Nat) :
    system.Run .empty (trialLabels inputTokens outputTokens)
      (trialRecorded inputTokens outputTokens) := by
  have hreserve : system.step .empty ⟨0, .reserve "root" "call" trialLimits,
      .reserved (reserve .empty 0 "root" "call" trialLimits).1⟩ trialReserved := rfl
  have hheld : (trialReserved.get? "root").bind (fun budget => budget.calls.get? "call")
      = some (10, 0) := by decide +kernel
  have hrecord : system.step trialReserved
      ⟨1, .record "root" "call" inputTokens outputTokens 0, .recorded (.ok ())⟩
      (trialRecorded inputTokens outputTokens) := by
    obtain ⟨budget, hbudget, hcall⟩ := Option.bind_eq_some_iff.1 hheld
    have hnew : budget.recorded = [] := by
      have hall : (trialReserved.get? "root").all (fun budget => budget.recorded = []) := by
        decide +kernel
      simpa [hbudget] using hall
    simp [system, exec, trialRecorded, record, hbudget, hcall, hnew]
  exact .cons hreserve (.single hrecord)

/-- The call used 2⁵³ + 1 tokens, each amount a number that counts exactly; the budget
    consumes 2⁵³. -/
theorem recorded_sum_rounds :
    ∃ budget, system.Run .empty (trialLabels (2 ^ 53 - 1) 2) (trialRecorded (2 ^ 53 - 1) 2)
      ∧ (trialRecorded (2 ^ 53 - 1) 2).get? "root" = some budget
      ∧ (escrowOf "root" (trialLabels (2 ^ 53 - 1) 2)).consumed = (2 ^ 53 + 1, 0)
      ∧ budget.tokens = .ofInt (2 ^ 53)
      ∧ ¬Conserved (trialLabels (2 ^ 53 - 1) 2) (trialRecorded (2 ^ 53 - 1) 2) "root" budget := by
  have htokens : ((trialRecorded (2 ^ 53 - 1) 2).get? "root").map ModelBudget.tokens
      = some (.ofInt (2 ^ 53)) := by decide +kernel
  have hconsumed : (escrowOf "root" (trialLabels (2 ^ 53 - 1) 2)).consumed = (2 ^ 53 + 1, 0) := by
    decide +kernel
  obtain ⟨budget, hbudget, hsum⟩ := Option.map_eq_some_iff.1 htokens
  refine ⟨budget, trial_run _ _, hbudget, hconsumed, hsum, fun h => ?_⟩
  have hequal := hsum.symm.trans h.consumed.1
  rw [hconsumed] at hequal
  exact absurd hequal (by decide +kernel)

/-- The call that reserved ten tokens and used four counts for four. -/
theorem model_budget_conserved_settled :
    ∃ budget, (trialRecorded 3 1).get? "root" = some budget ∧
      (escrowOf "root" (trialLabels 3 1)).consumed = (4, 0) ∧
      Conserved (trialLabels 3 1) (trialRecorded 3 1) "root" budget := by
  have hsome : ((trialRecorded 3 1).get? "root").isSome = true := by decide +kernel
  obtain ⟨budget, hbudget⟩ := Option.isSome_iff_exists.1 hsome
  have hexact : Exact (trialLabels 3 1) := by
    have hreserve : Exact ([] ++ (trialLabels 3 1).take 1) := by
      refine exact_concat.2 ⟨fun before label hprefix => ?_, by decide, by decide⟩
      simp at hprefix
    have hrecord : Label.Exact ([] ++ (trialLabels 3 1).take 1)
        ⟨1, .record "root" "call" 3 1 0, .recorded (.ok ())⟩ := fun _ _ => by decide +kernel
    exact exact_concat.2 ⟨hreserve, hrecord⟩
  exact ⟨budget, hbudget, by decide +kernel, model_budget_conserved (trial_run 3 1) hexact hbudget⟩

end ModelBudgetStore

end LingxiOS
