-- SUMMARY: Concurrent calls of executeAction under one key.
import LingxiOS.ControlPlane.LedgerCalls

/-! # At Most Once

A key whose receipt is settled answers every later call with it. It is replaced
by nothing but the native read-back of a call that found the key unsettled before. -/

namespace LingxiOS

open Program

/-! ## A settled key -/

/-- The operations only an action that passed its checks awaits. -/
def ServiceOp.pastChecks : ServiceOp → Bool
  | .unsettled _ | .reserve _ _ _ => true
  | _ => false

def ServiceOp.asksLedger : ServiceOp → Bool
  | .findIntent _ | .find _ | .unsettled _ | .reserve _ _ _ | .record _ _
  | .recordResolution _ => true
  | _ => false

/-- While the receipt of the key is one of `P`, a call writes nothing under the key and
    executes nothing. The monitor keeps the call's trace. -/
def settledKey (key : String) (P : HostActionResult → Prop) :
    Monitor ServiceOp ServiceOp.Value Failure (List ServiceEvent) where
  allows _ op := match op with
    | .record k _ => k ≠ key
    | .recordResolution resolution => resolution.actionKey ≠ key
    | .execute _ _ _ => False
    | _ => True
  trusts _ event := match event with
    | ⟨.find k, .ok found⟩ => k = key → ∃ result, found = some result ∧ P result
    | _ => True
  next trace event := trace ++ [event]

/-- How a call ends that began when the key was settled: with its receipt, unless the
    checks refuse it, another action of the work is unsettled, or the ledger fails. -/
def SettledAnswer (key : String) (P : HostActionResult → Prop) (trace : List ServiceEvent) :
    Except Failure ActionAnswer → Prop
  | .ok (.answered result) => P result
  | .ok (.blocked _) => ∃ workId pending, ⟨.unsettled workId, .ok pending⟩ ∈ trace
      ∧ ∃ item ∈ pending, item.actionKey ≠ key
  | .ok (.refused _) => True
  | .error _ => (∃ event ∈ trace, event.op.pastChecks = true) →
      ∃ event ∈ trace, event.op.asksLedger = true ∧ ∃ failure, event.answer = .error failure

/-- A failed operation of the ledger ends a call the way it may end. -/
theorem SettledAnswer.of_failed {key : String} {P : HostActionResult → Prop}
    {trace : List ServiceEvent} {op : ServiceOp} {failure : Failure}
    (hop : op.asksLedger = true) :
    SettledAnswer key P (trace ++ [⟨op, .error failure⟩]) (.error failure) := by
  intro _
  exact ⟨⟨op, .error failure⟩, by simp, hop, failure, rfl⟩

theorem settledKey_after {key : String} {P : HostActionResult → Prop}
    (seen trace : List ServiceEvent) : (settledKey key P).after seen trace = seen ++ trace := by
  induction trace generalizing seen with
  | nil => simp
  | cons event rest ih =>
      have hnext := ih (seen ++ [event])
      rw [List.append_assoc] at hnext
      exact hnext

namespace Service

section Settled

variable {cfg : ServiceConfig} {action : HostAction} {P : HostActionResult → Prop}
  {trace : List ServiceEvent}

/-- No event so far is one of an action past its checks. -/
abbrev InChecks (trace : List ServiceEvent) : Prop := ∀ event ∈ trace, event.op.pastChecks = false

theorem InChecks.concat {event : ServiceEvent} (h : InChecks trace)
    (hevent : event.op.pastChecks = false) : InChecks (trace ++ [event]) := by
  intro other hother
  rcases List.mem_append.1 hother with hother | hother
  · exact h other hother
  · rw [List.mem_singleton.1 hother]
    exact hevent

theorem checks_settled : AllowsChecks (settledKey action.idempotencyKey P) InChecks := by
  intro trace op answer htrace hop
  refine ⟨?_, htrace.concat ?_⟩
  · cases op <;> trivial
  · cases op <;> first | rfl | cases hop

/-- A settled receipt waits for no approval, so a refusal records nothing. -/
theorem reject_settled (hP : ∀ {result}, P result → result.isSettled = true) :
    AllowsRefusals (settledKey action.idempotencyKey P) InChecks action := by
  intro trace code error htrace
  unfold reject
  apply Obeys.perform_bind trivial
  · intro e _
    refine ⟨htrace.concat rfl, fun answer hanswer => ?_⟩
    cases hanswer
  · intro prior htrust
    obtain ⟨result, rfl, hresult⟩ := htrust rfl
    have hsettled := hP hresult
    simp only [HostActionResult.isSettled, Bool.and_eq_true] at hsettled
    rw [if_neg (by simpa using hsettled.1)]
    refine ⟨htrace.concat rfl, fun answer hanswer => ?_⟩
    cases hanswer
    exact ⟨_, rfl⟩

theorem changedContract_settled (hP : ∀ {result}, P result → result.isSettled = true) :
    (changedContract action).Obeys (settledKey action.idempotencyKey P)
      (SettledAnswer action.idempotencyKey P) trace := by
  unfold changedContract
  apply Obeys.perform_bind trivial
  · intro failure _
    exact .of_failed rfl
  · intro prior htrust
    obtain ⟨result, rfl, hresult⟩ := htrust rfl
    simp only [hP hresult, if_true]
    exact hresult

/-- The replay lookup finds the receipt, so nothing runs and nothing is read back. -/
theorem replayOrRun_settled (hP : ∀ {result}, P result → result.isSettled = true)
    {admitted : Admitted} {reservation : ActionLedger.Reservation} :
    (replayOrRun cfg admitted action reservation).Obeys (settledKey action.idempotencyKey P)
      (SettledAnswer action.idempotencyKey P) trace := by
  unfold replayOrRun
  apply Obeys.perform_bind trivial
  · intro failure _
    exact .of_failed rfl
  · intro replayed htrust
    obtain ⟨result, rfl, hresult⟩ := htrust rfl
    have hsettled := hP hresult
    simp only [HostActionResult.isSettled, Bool.and_eq_true, Bool.not_eq_true'] at hsettled
    simp only [Option.filter_some, hsettled.1, hsettled.2, if_true, Bool.false_eq_true, if_false]
    exact hresult

theorem reserveAndRun_settled (hP : ∀ {result}, P result → result.isSettled = true)
    {admitted : Admitted} :
    (reserveAndRun cfg admitted action).Obeys (settledKey action.idempotencyKey P)
      (SettledAnswer action.idempotencyKey P) trace := by
  unfold reserveAndRun
  apply Obeys.perform_bind trivial
  · intro failure _
    exact .of_failed rfl
  · intro reservation _
    exact replayOrRun_settled hP

theorem settleAdmitted_settled (hP : ∀ {result}, P result → result.isSettled = true)
    {admitted : Admitted} :
    (settleAdmitted cfg admitted action).Obeys (settledKey action.idempotencyKey P)
      (SettledAnswer action.idempotencyKey P) trace := by
  unfold settleAdmitted
  split
  · exact changedContract_settled hP
  · unfold gate
    split
    · apply Obeys.perform_bind trivial
      · intro failure _
        exact .of_failed rfl
      · intro pending _
        split
        · rename_i hother
          obtain ⟨item, hitem, hne⟩ := List.any_eq_true.1 hother
          refine ⟨admitted.work.id, pending, by simp [settledKey], item, hitem, ?_⟩
          simpa using hne
        · exact reserveAndRun_settled hP
    · exact reserveAndRun_settled hP

/-- A call that runs while the key is settled ends as `SettledAnswer` says. -/
theorem executeAction_settled (hP : ∀ {result}, P result → result.isSettled = true)
    {proof : LeaseProof} :
    (executeAction cfg proof action).Obeys (settledKey action.idempotencyKey P)
      (SettledAnswer action.idempotencyKey P) [] := by
  unfold executeAction
  apply Obeys.bind
  apply Obeys.mono (checkAction_obeys checks_settled (reject_settled hP) (List.forall_mem_nil _))
  intro trace outcome hadmits
  cases outcome with
  | error failure =>
      rintro ⟨event, hevent, hpast⟩
      rw [hadmits event hevent] at hpast
      cases hpast
  | ok admission =>
      cases admission with
      | inl answer =>
          obtain ⟨_, result, rfl⟩ := hadmits
          trivial
      | inr admitted => exact settleAdmitted_settled hP

end Settled

end Service

/-- Since there were `n` calls the key's receipt is one of `P`, and the calls begun
    since then keep to it. -/
structure SettledSince (key : String) (n : Nat) (P : HostActionResult → Prop) (s : ActionPool) :
    Prop where
  effective : ∃ result, s.shared.effectiveResult key = some result ∧ P result
  later : s.Each (fun index call =>
    n ≤ index → call.Obeys (settledKey key P) (SettledAnswer key P) [])

/-- The lookups of the key are answered with its receipt. -/
theorem settledKey_trusts {ledger ledger' : ActionLedger} {event : ServiceEvent} {key : String}
    {P : HostActionResult → Prop} {trace : List ServiceEvent}
    (h : ServiceEvent.onLedger ledger event ledger')
    (heffective : ∃ result, ledger.effectiveResult key = some result ∧ P result) :
    (settledKey key P).trusts trace event := by
  obtain ⟨op, answer⟩ := event
  cases op with
  | find k =>
      cases answer with
      | error failure => trivial
      | ok found =>
          intro hkey
          subst hkey
          simp only [ServiceEvent.onLedger, ServiceOp.onLedger] at h
          rcases h with ⟨hanswer, _⟩ | ⟨⟨failure, hanswer⟩, _⟩
          · cases hanswer
            exact heffective
          · cases hanswer
  | _ => trivial

section Settled

variable {action : HostAction} {n : Nat} {P : HostActionResult → Prop} {s s' : ActionPool}
  {label : ActionPoolStep}

/-- A step keeps the receipt in `P` when what an earlier call reads back is. -/
theorem SettledSince.step (hP : ∀ {result}, P result → result.isSettled = true)
    (h : SettledSince action.idempotencyKey n P s)
    (hstep : (actionCalls action).system.step s label s')
    (hreads : ∀ {index resolution answer}, index < n →
      label = .step index ⟨.recordResolution resolution, answer⟩ →
      resolution.actionKey = action.idempotencyKey → P resolution.result) :
    SettledSince action.idempotencyKey n P s' := by
  refine ⟨?_, ?_⟩
  · obtain ⟨result, heffective, hresult⟩ := h.effective
    cases label with
    | begin entry =>
        obtain ⟨_, rfl⟩ := hstep
        exact ⟨result, heffective, hresult⟩
    | other => exact ⟨result, hstep.1.effectiveResult.trans heffective, hresult⟩
    | step index event =>
        obtain ⟨trace, next, hget, hworld, _⟩ := hstep
        rcases ServiceEvent.onLedger_effective hworld heffective (hP hresult) with
          hsame | ⟨resolution, hop, hkey, hnew⟩
        · exact ⟨result, hsame, hresult⟩
        · obtain ⟨op, answer⟩ := event
          cases hop
          refine ⟨resolution.result, hnew, ?_⟩
          apply hreads _ rfl hkey
          -- a later call records no read-back under the key
          by_contra hlater
          exact (h.later index _ hget (Nat.le_of_not_lt hlater)).1 hkey
  · apply h.later.step hstep
    · intro entry hentry _
      obtain ⟨cfg, proof, _, rfl⟩ := hentry
      exact Service.executeAction_settled hP
    · intro index event trace next _ hcall hworld hlater
      exact (hcall hlater).step (settledKey_trusts hworld h.effective)

/-- A later call leaves the receipt as it is. -/
theorem SettledSince.later_keeps (hP : ∀ {result}, P result → result.isSettled = true)
    (h : SettledSince action.idempotencyKey n P s) {index : Nat} {event : ServiceEvent}
    (hstep : (actionCalls action).system.step s (.step index event) s') (hlater : n ≤ index) :
    s'.shared.effectiveResult action.idempotencyKey
      = s.shared.effectiveResult action.idempotencyKey := by
  obtain ⟨result, heffective, hresult⟩ := h.effective
  obtain ⟨trace, next, hget, hworld, _⟩ := hstep
  rcases ServiceEvent.onLedger_effective hworld heffective (hP hresult) with
    hsame | ⟨resolution, hop, hkey, _⟩
  · rw [hsame, heffective]
  · obtain ⟨op, answer⟩ := event
    cases hop
    exact absurd hkey (h.later index _ hget hlater).1

/-- How a later call ends. -/
theorem SettledSince.answers (h : SettledSince action.idempotencyKey n P s) {index : Nat}
    {trace : List ServiceEvent} {outcome : Except Failure ActionAnswer} (hlater : n ≤ index)
    (hget : s.calls[index]? = some ⟨trace, .done outcome⟩) :
    SettledAnswer action.idempotencyKey P trace outcome := by
  have hobeys := h.later index _ hget hlater
  rw [Call.Obeys, settledKey_after] at hobeys
  exact hobeys

end Settled

/-! ## Every run -/

/-- The step is the recorded read-back of the key of one of the first `n` calls. -/
def readsBack (key : String) (n : Nat) : ActionPoolStep → Prop
  | .step index ⟨.recordResolution resolution, _⟩ => index < n ∧ resolution.actionKey = key
  | _ => False

section Runs

variable {action : HostAction} {s₀ s s' : ActionPool} {labels : List ActionPoolStep}

theorem executionsPaid_run (hstart : (actionCalls action).system.start s₀)
    (hrun : (actionCalls action).system.Run s₀ labels s) :
    ExecutionsPaid action.idempotencyKey labels s := by
  apply hrun.traces ExecutionsPaid.step
  refine ⟨?_, ?_⟩
  · simp [Pool.total, hstart.1]
  · intro index call hget
    rw [hstart.1] at hget
    cases hget

theorem executions_le_one (h : ExecutionsPaid action.idempotencyKey labels s) :
    labels.countP executes ≤ 1 := by
  have hone : reservations s.shared action.idempotencyKey ≤ 1 := by
    unfold reservations
    split
    · exact Nat.le_refl 1
    · exact Nat.zero_le 1
  exact Nat.le_trans (Nat.le_of_add_right_le h.paid) hone

theorem SettledSince.of_settled {P : HostActionResult → Prop} {receipt : HostActionResult}
    (heffective : s.shared.effectiveResult action.idempotencyKey = some receipt)
    (hreceipt : P receipt) : SettledSince action.idempotencyKey s.calls.length P s := by
  refine ⟨⟨receipt, heffective, hreceipt⟩, ?_⟩
  intro index call hget hlater
  rw [List.getElem?_eq_none hlater] at hget
  cases hget

/-- Once settled, the key stays settled. -/
theorem settledSince_run {receipt : HostActionResult}
    (hpaid : ExecutionsPaid action.idempotencyKey labels s)
    (heffective : s.shared.effectiveResult action.idempotencyKey = some receipt)
    (hsettled : receipt.isSettled = true) {after : List ActionPoolStep}
    (hrun : (actionCalls action).system.Run s after s') :
    SettledSince action.idempotencyKey s.calls.length (fun result => result.isSettled = true) s' := by
  have hinv : KeepsTokens action.idempotencyKey s' ∧ SettledSince action.idempotencyKey
      s.calls.length (fun result => result.isSettled = true) s' := by
    apply hrun.preserves (I := fun t => KeepsTokens action.idempotencyKey t ∧ SettledSince
      action.idempotencyKey s.calls.length (fun result => result.isSettled = true) t)
    · intro t label t' ⟨hkeeps, hsince⟩ hstep
      refine ⟨hkeeps.step hstep, ?_⟩
      apply hsince.step id hstep
      -- what a call reads back and records is settled
      intro index resolution answer _ hlabel _
      subst hlabel
      obtain ⟨trace, next, hget, _⟩ := hstep
      exact (hkeeps index _ hget).1
    · exact ⟨hpaid.keeps, .of_settled heffective hsettled⟩
  exact hinv.2

/-- Until an earlier call records its read-back, the receipt stays the same. -/
theorem sameReceipt_run {receipt : HostActionResult}
    (heffective : s.shared.effectiveResult action.idempotencyKey = some receipt)
    (hsettled : receipt.isSettled = true) {after : List ActionPoolStep}
    (hrun : (actionCalls action).system.Run s after s')
    (hreads : ∀ label ∈ after, ¬ readsBack action.idempotencyKey s.calls.length label) :
    SettledSince action.idempotencyKey s.calls.length (fun result => result = receipt) s' := by
  revert hreads
  apply hrun.traces (I := fun after t =>
    (∀ label ∈ after, ¬ readsBack action.idempotencyKey s.calls.length label) →
      SettledSince action.idempotencyKey s.calls.length (fun result => result = receipt) t)
  · intro after t label t' ih hstep hreads
    have hbefore := ih (fun l hl => hreads l (List.mem_append_left _ hl))
    have hlabel := hreads label (by simp)
    apply hbefore.step _ hstep
    · intro index resolution answer hearlier hread hkey
      subst hread
      exact absurd ⟨hearlier, hkey⟩ hlabel
    · intro result hresult
      rw [hresult]
      exact hsettled
  · intro _
    exact .of_settled heffective rfl

end Runs

/-- Over every interleaving of the calls of one uncertain action, the product's `execute`
    runs at most once. Once a settled receipt is recorded the key stays settled and no
    call begun later changes it. Until a call begun earlier records its native
    read-back, every later call past the checks ends with that very receipt, unless
    another action of the work is unsettled or the ledger fails. -/
theorem executeAction_at_most_once {action : HostAction} {s₀ s : ActionPool}
    {labels : List ActionPoolStep} (hstart : (actionCalls action).system.start s₀)
    (hrun : (actionCalls action).system.Run s₀ labels s) :
    labels.countP executes ≤ 1 ∧
    ∀ receipt, s.shared.effectiveResult action.idempotencyKey = some receipt →
      receipt.isSettled = true →
      ∀ after s', (actionCalls action).system.Run s after s' →
        (∃ result, s'.shared.effectiveResult action.idempotencyKey = some result
          ∧ result.isSettled = true)
        ∧ (∀ index event s'', s.calls.length ≤ index →
          (actionCalls action).system.step s' (.step index event) s'' →
          s''.shared.effectiveResult action.idempotencyKey
            = s'.shared.effectiveResult action.idempotencyKey)
        ∧ (∀ index trace outcome, s.calls.length ≤ index →
          s'.calls[index]? = some ⟨trace, .done outcome⟩ →
          SettledAnswer action.idempotencyKey (fun result => result.isSettled = true) trace outcome)
        ∧ ((∀ label ∈ after, ¬ readsBack action.idempotencyKey s.calls.length label) →
          s'.shared.effectiveResult action.idempotencyKey = some receipt
          ∧ ∀ index trace outcome, s.calls.length ≤ index →
            s'.calls[index]? = some ⟨trace, .done outcome⟩ →
            SettledAnswer action.idempotencyKey (fun result => result = receipt) trace outcome) := by
  have hpaid := executionsPaid_run hstart hrun
  refine ⟨executions_le_one hpaid, ?_⟩
  intro receipt heffective hsettled after s' hafter
  have hsince := settledSince_run hpaid heffective hsettled hafter
  refine ⟨hsince.effective, ?_, ?_, ?_⟩
  · intro index event s'' hlater hstep
    exact hsince.later_keeps id hstep hlater
  · intro index trace outcome hlater hget
    exact hsince.answers hlater hget
  · intro hreads
    have hsame := sameReceipt_run heffective hsettled hafter hreads
    obtain ⟨result, hresult, rfl⟩ := hsame.effective
    refine ⟨hresult, ?_⟩
    intro index trace outcome hlater hget
    exact hsame.answers hlater hget

/-! ### A payment that is read back while it runs -/

section Payment

def payTool : ToolDefinition where
  name := "pay"
  action := "pay.send"
  effect := .uncertain

def payConfig : ServiceConfig where
  sha256 _ := "h"
  tools := [payTool]
  toolContractHash tool := tool.name

def payProof : LeaseProof := ⟨"w", 1, "t"⟩

def payAction (callIndex : Nat) : HostAction where
  runId := "w"
  cellId := "c"
  callIndex := callIndex
  action := "pay.send"
  args := []
  idempotencyKey := actionKeyOf "w" "c" callIndex

def payWork : TurnWork where
  id := "w"
  tenantId := "t"
  agentId := "a"
  sessionId := "s"
  threadId := none
  kind := "chat"
  lane := .interactive
  triggerRef := "m"
  principalId := none
  meta_ := {}

/-- The receipt of the payment, or what the product reads back of it. -/
def payReceipt (code : String) : HostActionResult where
  ok := true
  executionState := some .succeeded
  code := some code

/-- The product and the stores, with nothing going wrong. -/
def payHandler : Handler ActionLedger ServiceOp ServiceOp.Value Failure
  | ledger, .getLeased _ => (.ok (some ⟨payWork, 1, false⟩), ledger)
  | ledger, .heartbeat _ => (.ok (some ⟨false, false, []⟩), ledger)
  | ledger, .authorizeWork _ => (.ok (), ledger)
  | ledger, .authorizeRequest _ _ => (.ok (), ledger)
  | ledger, .resolveGrants _ => (.ok [⟨"pay", none⟩], ledger)
  | ledger, .getSession _ _ => (.ok none, ledger)
  | ledger, .findIntent key => (.ok (ledger.findIntent key), ledger)
  | ledger, .find key => (.ok (ledger.find key), ledger)
  | ledger, .unsettled workId => (.ok (ledger.unsettled workId), ledger)
  | ledger, .reserve key fingerprint intent =>
      ((ledger.reserve key fingerprint intent).1.mapError .error,
        (ledger.reserve key fingerprint intent).2)
  | ledger, .record key result =>
      ((ledger.record key result).1.mapError .error, (ledger.record key result).2)
  | ledger, .recordResolution resolution =>
      ((ledger.recordResolution resolution).1.mapError .error, (ledger.recordResolution resolution).2)
  | ledger, .prepare _ _ _ => (.ok (), ledger)
  | ledger, .execute _ _ _ => (.ok (payReceipt "executed"), ledger)
  | ledger, .reconcile _ _ _ => (.ok (some (payReceipt "read_back")), ledger)
  | ledger, .taskAction _ _ _ => (.ok (payReceipt "task"), ledger)

theorem payHandler_world (ledger : ActionLedger) (op : ServiceOp) :
    ServiceEvent.onLedger ledger ⟨op, (payHandler ledger op).1⟩ (payHandler ledger op).2 := by
  cases op <;> first | rfl | exact .inl ⟨rfl, rfl⟩

def payCall : Service ActionAnswer := Service.executeAction payConfig payProof (payAction 0)

abbrev PayMove := Move ServiceOp ServiceOp.Value Failure ActionAnswer

/-- Play a schedule of the payment's calls. -/
def payPlay (s : ActionPool) (moves : List PayMove) : ActionPool := (s.play payHandler moves).2

theorem payPlay_run (s : ActionPool) {moves : List PayMove}
    (hentries : ∀ entry, Move.begin entry ∈ moves → entry = payCall) :
    (actionCalls (payAction 0)).system.Run s (s.play payHandler moves).1 (payPlay s moves) := by
  apply Pool.run_of_play payHandler_world
  intro entry hentry
  exact ⟨payConfig, payProof, by decide, hentries entry hentry⟩

/-- The call has ended with an answer of this kind. -/
def ended (s : ActionPool) (index : Nat) (kind : ActionAnswer → Bool) : Bool :=
  match s.calls[index]? with
  | some ⟨_, .done (.ok answer)⟩ => kind answer
  | _ => false

theorem of_ended {s : ActionPool} {index : Nat} {kind : ActionAnswer → Bool}
    (h : ended s index kind = true) :
    ∃ trace answer, s.calls[index]? = some ⟨trace, .done (.ok answer)⟩ ∧ kind answer = true := by
  unfold ended at h
  split at h
  · rename_i trace answer hget
    exact ⟨trace, answer, hget, h⟩
  · cases h

/-- The receipt of the payment is settled, and has this code. -/
def paid (s : ActionPool) (code : String) : Bool :=
  (s.shared.effectiveResult (payAction 0).idempotencyKey).any
    (fun receipt => receipt.isSettled && receipt.code == some code)

theorem of_paid {s : ActionPool} {code : String} (h : paid s code = true) :
    ∃ receipt, s.shared.effectiveResult (payAction 0).idempotencyKey = some receipt
      ∧ receipt.isSettled = true ∧ receipt.code = some code := by
  obtain ⟨receipt, hreceipt, h⟩ := (Option.any_eq_true _ _).1 h
  rw [Bool.and_eq_true, beq_iff_eq] at h
  exact ⟨receipt, hreceipt, h⟩

/-- The first call of the payment, from its lease to its receipt. -/
def firstPayment : List PayMove := .begin payCall :: List.replicate 10 (.step 0)

def paidOnce : ActionPool := payPlay ⟨.init, []⟩ firstPayment

/-- Another payment of the work was reserved, and nobody knows what became of it. -/
def otherUnsettled (s : ActionPool) : ActionPool :=
  { s with shared := (s.shared.reserve (payAction 1).idempotencyKey "h"
      (Service.newIntent payConfig ⟨payWork, 1, "pay", some payTool, none⟩ (payAction 1))).2 }

/-- The second call of the payment, up to the other unsettled payment. -/
def retry : List PayMove := .begin payCall :: List.replicate 6 (.step 1)

/-- The second call reads the payment back while the first one records its receipt. -/
def payTwice : List PayMove :=
  .begin payCall :: .begin payCall :: (List.replicate 9 (.step 0) ++ List.replicate 8 (.step 1)
    ++ [.step 0])

def readBack : List PayMove :=
  .begin payCall :: (List.replicate 2 (.step 1) ++ List.replicate 8 (.step 2))

/-- The payment's receipt is recorded, and a call that begins afterwards and passes every
    check ends without it: another payment of the work is unsettled, or an earlier
    call has recorded its read-back over the receipt. -/
theorem payment_receipt_not_answered :
    (∃ s after s' receipt trace result, (actionCalls (payAction 0)).system.Reachable s
      ∧ s.shared.effectiveResult (payAction 0).idempotencyKey = some receipt
      ∧ receipt.isSettled = true ∧ (actionCalls (payAction 0)).system.Run s after s'
      ∧ s.calls.length ≤ 1 ∧ s'.calls[1]? = some ⟨trace, .done (.ok (.blocked result))⟩)
    ∧ ∃ s after s' receipt trace result, (actionCalls (payAction 0)).system.Reachable s
      ∧ s.shared.effectiveResult (payAction 0).idempotencyKey = some receipt
      ∧ receipt.isSettled = true ∧ (actionCalls (payAction 0)).system.Run s after s'
      ∧ s.calls.length ≤ 2 ∧ s'.calls[2]? = some ⟨trace, .done (.ok (.answered result))⟩
      ∧ result ≠ receipt := by
  refine ⟨?_, ?_⟩
  · obtain ⟨receipt, hreceipt, hsettled, _⟩ :=
      of_paid (by decide +kernel : paid paidOnce "executed" = true)
    obtain ⟨trace, answer, hget, hanswer⟩ := of_ended
      (by decide +kernel : ended (payPlay (otherUnsettled paidOnce) retry) 1 (fun answer =>
        match answer with
        | .blocked _ => true
        | _ => false) = true)
    cases answer with
    | blocked result =>
        have hother : (actionCalls (payAction 0)).system.step paidOnce .other
            (otherUnsettled paidOnce) :=
          ⟨⟨by decide +kernel, by rfl, by rfl⟩, rfl⟩
        have hblocked := TransitionSystem.Run.cons hother
          (payPlay_run (otherUnsettled paidOnce) (by simp [retry] : ∀ entry, .begin entry ∈ retry → _))
        refine ⟨paidOnce, _, _, receipt, trace, result, ?_, hreceipt, hsettled, hblocked, ?_, hget⟩
        · exact ⟨⟨.init, []⟩, _, ⟨rfl, trivial⟩, payPlay_run _ (by simp [firstPayment])⟩
        · decide +kernel
    | _ => cases hanswer
  · obtain ⟨receipt, hreceipt, hsettled, hcode⟩ :=
      of_paid (by decide +kernel : paid (payPlay ⟨.init, []⟩ payTwice) "executed" = true)
    obtain ⟨trace, answer, hget, hanswer⟩ := of_ended
      (by decide +kernel : ended (payPlay (payPlay ⟨.init, []⟩ payTwice) readBack) 2 (fun answer =>
        match answer with
        | .answered result => result.code == some "read_back"
        | _ => false) = true)
    cases answer with
    | answered result =>
        refine ⟨_, _, _, receipt, trace, result, ?_, hreceipt, hsettled,
          payPlay_run _ (by simp [readBack]), ?_, hget, ?_⟩
        · exact ⟨⟨.init, []⟩, _, ⟨rfl, trivial⟩, payPlay_run _ (by simp [payTwice])⟩
        · decide +kernel
        · intro hsame
          have hread : (receipt.code == some "read_back") = true := hsame ▸ hanswer
          rw [hcode] at hread
          cases hread
    | _ => cases hanswer

/-- The second call of the payment, with nothing else unsettled. -/
def replay : List PayMove := .begin payCall :: List.replicate 8 (.step 1)

theorem not_readsBack_of_all {key : String} {n : Nat} {labels : List ActionPoolStep}
    (h : labels.all (fun label => match label with
      | .step _ ⟨.recordResolution _, _⟩ => false
      | _ => true) = true) : ∀ label ∈ labels, ¬ readsBack key n label := by
  intro label hlabel hread
  have hkept := List.all_eq_true.1 h label hlabel
  unfold readsBack at hread
  split at hread
  · cases hkept
  · exact hread

/-- The payment runs once, and the second call answers with the first one's receipt. -/
theorem payment_replayed :
    (Pool.play payHandler ⟨.init, []⟩ firstPayment).1.countP executes ≤ 1
    ∧ ∃ receipt trace, (payPlay paidOnce replay).shared.effectiveResult
        (payAction 0).idempotencyKey = some receipt
      ∧ (payPlay paidOnce replay).calls[1]? = some ⟨trace, .done (.ok (.answered receipt))⟩ := by
  obtain ⟨receipt, hreceipt, hsettled, _⟩ :=
    of_paid (by decide +kernel : paid paidOnce "executed" = true)
  obtain ⟨trace, answer, hget, hanswer⟩ := of_ended
    (by decide +kernel : ended (payPlay paidOnce replay) 1 (fun answer =>
      match answer with
      | .answered _ => true
      | _ => false) = true)
  have hlength : paidOnce.calls.length ≤ 1 := by decide +kernel
  obtain ⟨honce, hlater⟩ := executeAction_at_most_once
    (⟨rfl, trivial⟩ : (actionCalls (payAction 0)).system.start ⟨.init, []⟩)
    (payPlay_run _ (by simp [firstPayment] : ∀ entry, .begin entry ∈ firstPayment → _))
  obtain ⟨_, _, _, hsame⟩ := hlater receipt hreceipt hsettled _ _
    (payPlay_run _ (by simp [replay] : ∀ entry, .begin entry ∈ replay → _))
  obtain ⟨heffective, hanswers⟩ := hsame (not_readsBack_of_all (by decide +kernel))
  cases answer with
  | answered result =>
      have hresult : result = receipt := hanswers 1 trace _ hlength hget
      subst hresult
      exact ⟨honce, result, trace, heffective, hget⟩
  | _ => cases hanswer

end Payment

end LingxiOS
