-- SUMMARY: Concurrent calls of executeAction over one ledger.
import LingxiOS.ControlPlane.Admission

/-! # Calls Over One Ledger

Any number of calls of `executeAction` for one action of an uncertain tool, under
any leases, interleaved at the operations they await over one action ledger. A
call that crashes stops; an operation of the ledger may fail with or without
having taken effect. A first reservation is a token for one execution, and there
is one per key. -/

namespace LingxiOS

open Program

/-! ## The ledger under the calls -/

/-- What an operation of the ledger answers, and the ledger after it. -/
def ServiceOp.onLedger (ledger : ActionLedger) :
    (op : ServiceOp) → Option (Except String op.Value × ActionLedger)
  | .findIntent key => some (.ok (ledger.findIntent key), ledger)
  | .find key => some (.ok (ledger.find key), ledger)
  | .unsettled workId => some (.ok (ledger.unsettled workId), ledger)
  | .reserve key fingerprint intent => some (ledger.reserve key fingerprint intent)
  | .record key result => some (ledger.record key result)
  | .recordResolution resolution => some (ledger.recordResolution resolution)
  | _ => none

/-- The ledger answers its own operations, unless they fail: then nobody knows
    whether they took effect. Everything else leaves it alone. -/
def ServiceEvent.onLedger (ledger : ActionLedger) (event : ServiceEvent) (ledger' : ActionLedger) :
    Prop :=
  match event.op.onLedger ledger with
  | none => ledger' = ledger
  | some (outcome, after) =>
      (event.answer = outcome.mapError Failure.error ∧ ledger' = after)
        ∨ ((∃ failure, event.answer = .error failure) ∧ (ledger' = ledger ∨ ledger' = after))

/-- What else happens to the ledger: the key's records are nobody else's. -/
def ActionLedger.sameKey (key : String) (ledger ledger' : ActionLedger) : Prop :=
  ledger'.intents.get? key = ledger.intents.get? key
    ∧ ledger'.results.get? key = ledger.results.get? key
    ∧ ledger'.resolutions.get? key = ledger.resolutions.get? key

theorem ActionLedger.sameKey.effectiveResult {key : String} {ledger ledger' : ActionLedger}
    (h : ActionLedger.sameKey key ledger ledger') :
    ledger'.effectiveResult key = ledger.effectiveResult key := by
  simp [ActionLedger.effectiveResult, h.2.1, h.2.2]

/-- The tool of the action is uncertain, or unknown. -/
def ServiceConfig.uncertain (cfg : ServiceConfig) (action : HostAction) : Bool :=
  (cfg.tools.find? (fun tool => tool.action == action.action)).all
    (fun tool => tool.effect == .uncertain)

/-- Calls of `executeAction` for one action, under any lease. -/
def actionCalls (action : HostAction) :
    PoolSpec ActionLedger ServiceOp ServiceOp.Value Failure ActionAnswer where
  world := fun ledger event ledger' => ServiceEvent.onLedger ledger event ledger'
  env := ActionLedger.sameKey action.idempotencyKey
  entry p := ∃ cfg proof, cfg.uncertain action = true ∧ p = Service.executeAction cfg proof action
  start _ := True

abbrev ActionPool := Pool ActionLedger ServiceOp ServiceOp.Value Failure ActionAnswer

abbrev ActionPoolStep := PoolStep ServiceOp ServiceOp.Value Failure ActionAnswer

section Ledger

variable {ledger ledger' : ActionLedger} {event : ServiceEvent} {key : String}

/-- An intent, once recorded, stays. -/
theorem ServiceEvent.onLedger_has (h : ServiceEvent.onLedger ledger event ledger')
    (hhas : ledger.intents.has key = true) : ledger'.intents.has key = true := by
  obtain ⟨op, answer⟩ := event
  cases op <;> simp only [ServiceEvent.onLedger, ServiceOp.onLedger] at h <;>
    first
      | (subst h; exact hhas)
      | (rcases h with ⟨_, rfl⟩ | ⟨_, rfl | rfl⟩ <;>
          simp [ActionLedger.has_intents_reserve hhas, hhas])

/-- An intent is reserved for the first time once. -/
theorem ServiceEvent.onLedger_started {fingerprint : String} {intent : ActionIntent}
    (h : ServiceEvent.onLedger ledger ⟨.reserve key fingerprint intent, .ok .started⟩ ledger') :
    ledger.intents.has key = false ∧ ledger'.intents.has key = true := by
  simp only [ServiceEvent.onLedger, ServiceOp.onLedger] at h
  rcases h with ⟨hanswer, rfl⟩ | ⟨⟨failure, hanswer⟩, _⟩
  · cases hreserve : (ledger.reserve key fingerprint intent).1 with
    | error e =>
        rw [hreserve] at hanswer
        cases hanswer
    | ok reservation =>
        rw [hreserve] at hanswer
        cases hanswer
        exact ActionLedger.reserve_started hreserve
  · cases hanswer

/-- What an event leaves of a receipt that is settled: all of it, unless it is a resolution. -/
theorem ServiceEvent.onLedger_effective {R : HostActionResult}
    (h : ServiceEvent.onLedger ledger event ledger')
    (hR : ledger.effectiveResult key = some R) (hsettled : R.isSettled = true) :
    ledger'.effectiveResult key = some R ∨ ∃ resolution, event.op = .recordResolution resolution
      ∧ resolution.actionKey = key ∧ ledger'.effectiveResult key = some resolution.result := by
  have hnone : R.approval = none := by
    simp [HostActionResult.isSettled] at hsettled
    exact hsettled.1
  obtain ⟨op, answer⟩ := event
  cases op with
  | recordResolution resolution =>
      simp only [ServiceEvent.onLedger, ServiceOp.onLedger] at h
      have hafter : ledger' = ledger ∨ ledger' = (ledger.recordResolution resolution).2 := by
        rcases h with ⟨_, h⟩ | ⟨_, h⟩
        · exact .inr h
        · exact h
      rcases hafter with rfl | rfl
      · exact .inl hR
      · rcases ledger.effectiveResult_recordResolution resolution key with hsame | ⟨hkey, hnew⟩
        · exact .inl (hsame.trans hR)
        · exact .inr ⟨resolution, rfl, hkey, hnew⟩
  | record k result =>
      left
      simp only [ServiceEvent.onLedger, ServiceOp.onLedger] at h
      rcases h with ⟨_, rfl⟩ | ⟨_, rfl | rfl⟩
      · exact ActionLedger.effectiveResult_record hR hnone
      · exact hR
      · exact ActionLedger.effectiveResult_record hR hnone
  | reserve k fingerprint intent =>
      left
      simp only [ServiceEvent.onLedger, ServiceOp.onLedger] at h
      rcases h with ⟨_, rfl⟩ | ⟨_, rfl | rfl⟩
      · simpa using hR
      · exact hR
      · simpa using hR
  | _ =>
      left
      simp only [ServiceEvent.onLedger, ServiceOp.onLedger] at h
      first
        | (subst h; exact hR)
        | (rcases h with ⟨_, rfl⟩ | ⟨_, rfl | rfl⟩ <;> exact hR)

end Ledger

/-! ## Executions -/

/-- A first reservation of the key is a token, an execution spends one, and a
    read-back that is recorded is settled. -/
def executionTokens (key : String) : Monitor ServiceOp ServiceOp.Value Failure Nat where
  allows tokens op := match op with
    | .execute _ _ _ => 0 < tokens
    | .recordResolution resolution => resolution.result.isSettled = true
    | _ => True
  trusts _ _ := True
  next tokens event := match event with
    | ⟨.reserve k _ _, .ok .started⟩ => if k = key then tokens + 1 else tokens
    | ⟨.execute _ _ _, _⟩ => tokens - 1
    | _ => tokens

namespace Service

/-- A recorded read-back is settled. -/
theorem settledReadback_isSettled {read : Option HostActionResult} {result : HostActionResult}
    (h : settledReadback read = some result) : result.isSettled = true := by
  unfold settledReadback at h
  split at h
  · cases h
  · split at h
    · cases h
    · rename_i read hread
      cases h
      simp only [Bool.or_eq_true, not_or, Option.not_isSome_iff_eq_none] at hread
      cases hok : read.ok <;>
        simp [HostActionResult.isSettled, HostActionResult.isUnknown, hread.1.1]

section Executions

variable {cfg : ServiceConfig} {action : HostAction} {key : String} {tokens : Nat}

theorem reject_tokens : AllowsRefusals (executionTokens key) (fun _ => True) action :=
  refusals_of_record (fun _ _ _ => ⟨trivial, trivial⟩) (fun _ _ _ _ _ => ⟨trivial, trivial⟩)

theorem checks_tokens : AllowsChecks (executionTokens key) (fun _ => True) := by
  intro tokens op answer _ hop
  refine ⟨?_, trivial⟩
  cases op <;> trivial

theorem reconcileNative_tokens {work : TurnWork} {requestVersion : Nat} :
    (reconcileNative cfg work action requestVersion).Obeys (executionTokens key)
      (fun _ _ => True) tokens := by
  unfold reconcileNative
  apply Obeys.attempt_bind trivial
  intro read _
  split
  · trivial
  · split
    · trivial
    · rename_i hsettled
      apply Obeys.perform_bind
      · exact settledReadback_isSettled hsettled
      · intro _ _
        trivial
      · intro _ _
        trivial

/-- Running the action takes one token. -/
theorem runAction_tokens {admitted : Admitted} (htoken : 0 < tokens) :
    (runAction admitted action).Obeys (executionTokens key) (fun _ _ => True) tokens := by
  unfold runAction
  apply Obeys.bind
  apply Obeys.attempt
  have hdispatch : (dispatch admitted action).Obeys (executionTokens key) (fun _ _ => True) tokens := by
    unfold dispatch
    split
    · exact Obeys.perform trivial (fun _ _ => trivial)
    · exact Obeys.perform htoken (fun _ _ => trivial)
  apply Obeys.mono hdispatch
  intro tokens outcome _
  apply Obeys.perform_bind trivial
  · intro _ _
    trivial
  · intro _ _
    trivial

/-- An uncertain action runs only after its first reservation. -/
theorem replayOrRun_tokens {admitted : Admitted} {reservation : ActionLedger.Reservation}
    (hunsure : admitted.tool.all (fun tool => tool.effect == .uncertain) = true)
    (htoken : reservation = .started → 0 < tokens) :
    (replayOrRun cfg admitted action reservation).Obeys (executionTokens key)
      (fun _ _ => True) tokens := by
  unfold replayOrRun
  apply Obeys.perform_bind trivial
  · intro _ _
    trivial
  · intro replayed _
    split
    · split
      · apply Obeys.bind
        apply Obeys.mono reconcileNative_tokens
        intro _ outcome _
        cases outcome <;> trivial
      · trivial
    · split
      · apply Obeys.bind
        apply Obeys.mono reconcileNative_tokens
        intro _ outcome _
        cases outcome <;> trivial
      · rename_i hreservation
        apply runAction_tokens
        cases reservation with
        | started => exact htoken rfl
        | existing => exact absurd ⟨rfl, hunsure⟩ hreservation

theorem reserveAndRun_tokens {admitted : Admitted} (hkey : action.idempotencyKey = key)
    (hunsure : admitted.tool.all (fun tool => tool.effect == .uncertain) = true) :
    (reserveAndRun cfg admitted action).Obeys (executionTokens key) (fun _ _ => True) tokens := by
  unfold reserveAndRun
  apply Obeys.perform_bind trivial
  · intro _ _
    trivial
  · intro reservation _
    apply replayOrRun_tokens hunsure
    intro hstarted
    subst hstarted
    simp [executionTokens, hkey]

theorem settleAdmitted_tokens {admitted : Admitted} (hkey : action.idempotencyKey = key)
    (hunsure : admitted.tool.all (fun tool => tool.effect == .uncertain) = true) :
    (settleAdmitted cfg admitted action).Obeys (executionTokens key) (fun _ _ => True) tokens := by
  unfold settleAdmitted
  split
  · unfold changedContract
    apply Obeys.perform_bind trivial
    · intro _ _
      trivial
    · intro prior _
      split
      · trivial
      · split
        · trivial
        · split
          · exact Obeys.mono (reject_tokens tokens _ _ trivial) (fun _ => trivial)
          · trivial
  · unfold gate
    split
    · apply Obeys.perform_bind trivial
      · intro _ _
        trivial
      · intro pending _
        split
        · trivial
        · exact reserveAndRun_tokens hkey hunsure
    · exact reserveAndRun_tokens hkey hunsure

/-- A call executes its uncertain action no more often than it made the first reservation. -/
theorem executeAction_tokens {proof : LeaseProof} (hkey : action.idempotencyKey = key)
    (hunsure : cfg.uncertain action = true) :
    (executeAction cfg proof action).Obeys (executionTokens key) (fun _ _ => True) tokens := by
  unfold executeAction
  apply Obeys.bind
  apply Obeys.mono (checkAction_obeys checks_tokens reject_tokens trivial)
  intro tokens outcome hadmits
  cases outcome with
  | error e => trivial
  | ok admission =>
      cases admission with
      | inl answer => trivial
      | inr admitted =>
          apply settleAdmitted_tokens hkey
          rw [hadmits.2]
          exact hunsure

end Executions

end Service

/-- The step calls the product's `execute`. -/
def executes : ActionPoolStep → Bool
  | .step _ ⟨.execute _ _ _, _⟩ => true
  | _ => false

/-- One, once the key is reserved. -/
def reservations (ledger : ActionLedger) (key : String) : Nat :=
  if ledger.intents.has key then 1 else 0

/-- Every call executes no more than it reserved. -/
def KeepsTokens (key : String) (s : ActionPool) : Prop :=
  s.Each (fun _ call => call.Obeys (executionTokens key) (fun _ _ => True) 0)

/-- Executions and tokens are paid by the reservation of the key. -/
structure ExecutionsPaid (key : String) (labels : List ActionPoolStep) (s : ActionPool) : Prop where
  paid : labels.countP executes + s.total (fun call => (executionTokens key).after 0 call.trace)
    ≤ reservations s.shared key
  keeps : KeepsTokens key s

theorem reservations_mono {ledger ledger' : ActionLedger} {event : ServiceEvent} {key : String}
    (h : ServiceEvent.onLedger ledger event ledger') :
    reservations ledger key ≤ reservations ledger' key := by
  unfold reservations
  cases hhas : ledger.intents.has key with
  | true => simp [ServiceEvent.onLedger_has h hhas]
  | false => simp

/-- An event spends what it executes, and gains no more than it reserves. -/
theorem executionTokens_event {ledger ledger' : ActionLedger} {event : ServiceEvent} {key : String}
    {tokens : Nat} (h : ServiceEvent.onLedger ledger event ledger')
    (hallows : (executionTokens key).allows tokens event.op) (index : Nat) :
    [PoolStep.step index event].countP executes + (executionTokens key).next tokens event
        + reservations ledger key
      ≤ tokens + reservations ledger' key := by
  have hmono : reservations ledger key ≤ reservations ledger' key := reservations_mono h
  obtain ⟨op, answer⟩ := event
  cases op with
  | execute work action requestVersion =>
      have htoken : 0 < tokens := hallows
      simp only [executes, executionTokens, List.countP_singleton, if_true]
      omega
  | reserve k fingerprint intent =>
      simp only [executes, List.countP_singleton]
      cases answer with
      | error failure =>
          simp [executionTokens]
          omega
      | ok reservation =>
          cases reservation with
          | existing =>
              simp [executionTokens]
              omega
          | started =>
              simp only [executionTokens, Bool.false_eq_true, if_false, Nat.zero_add]
              by_cases hkey : k = key
              · rw [if_pos hkey]
                subst hkey
                obtain ⟨hbefore, hafter⟩ := ServiceEvent.onLedger_started h
                simp [reservations, hbefore, hafter]
              · rw [if_neg hkey]
                omega
  | _ =>
      simp only [executes, executionTokens, List.countP_singleton]
      simp
      omega

theorem KeepsTokens.step {action : HostAction} {s s' : ActionPool} {label : ActionPoolStep}
    (h : KeepsTokens action.idempotencyKey s)
    (hstep : (actionCalls action).system.step s label s') :
    KeepsTokens action.idempotencyKey s' := by
  apply Pool.Each.step h hstep
  · intro entry hentry
    obtain ⟨cfg, proof, hunsure, rfl⟩ := hentry
    exact Service.executeAction_tokens rfl hunsure
  · intro index event trace next _ hcall _
    exact hcall.step trivial

theorem ExecutionsPaid.step {action : HostAction} {labels : List ActionPoolStep} {s s' : ActionPool}
    {label : ActionPoolStep} (h : ExecutionsPaid action.idempotencyKey labels s)
    (hstep : (actionCalls action).system.step s label s') :
    ExecutionsPaid action.idempotencyKey (labels ++ [label]) s' := by
  refine ⟨?_, h.keeps.step hstep⟩
  rw [List.countP_append]
  have hpaid := h.paid
  cases label with
  | begin entry =>
      obtain ⟨_, rfl⟩ := hstep
      rw [Pool.total_begin rfl]
      simpa [executes] using hpaid
  | step index event =>
      obtain ⟨trace, next, hget, hworld, hcalls⟩ := hstep
      have htotal := Pool.total_set
        (f := fun call => (executionTokens action.idempotencyKey).after 0 call.trace) hget hcalls
      have hevent := executionTokens_event hworld (h.keeps index _ hget).1
      simp only [Monitor.after_concat] at htotal hevent
      specialize hevent index
      omega
  | other =>
      obtain ⟨hsame, hcalls⟩ := hstep
      have hhas : reservations s'.shared action.idempotencyKey
          = reservations s.shared action.idempotencyKey := by
        unfold reservations JsMap.has
        rw [hsame.1]
      simpa [executes, Pool.total, hcalls, hhas] using hpaid

end LingxiOS
