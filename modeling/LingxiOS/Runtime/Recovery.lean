-- SUMMARY: When the next attempt restores a call's request facts.
import LingxiOS.Runtime.Restore

/-! # Crash Recovery of Request Facts

A call has recorded all its receipts. Either the attempt goes on, folds them into
the request and saves the session, or it crashes before that and the next attempt
restores the call. The two agree on the request's evidence, resource checks and
task contract exactly when what one of them folds and the other does not is
inert. -/

namespace LingxiOS

/-! ## A call without a crash -/

/-- How the run of a call ends once its receipts are recorded: with the result of
    its execution, or with an error `executeCall` answers itself. -/
inductive CallEnding where
  | completed (stdout stderr : String) (result : Option Json) (truncated : Bool)
      (artifacts : List KernelArtifact)
  | approvalPending (approvalId cellId : String)
  | timedOut (timeoutMs : Nat) (cellId : String)
  | raised (message cellId : String)

namespace CallEnding

def isCompleted : CallEnding → Bool
  | .completed .. => true
  | _ => false

/-- `execution.artifacts`, once those of the receipts are pushed onto it. -/
def artifacts (ending : CallEnding) (receipts : List Receipt) : List KernelArtifact :=
  match ending with
  | .completed _ _ _ _ artifacts => artifacts ++ receiptArtifacts receipts
  | _ => []

def errorBody (failure : Failure) (receipts : List Receipt) (more : JsonObject) : ToolBody where
  fields := ("error", .str failure.message) :: more
  receipts := some receipts

/-- The output of the call's completed step. -/
def body (ending : CallEnding) (receipts : List Receipt) : ToolBody :=
  match ending with
  | .completed stdout stderr result truncated _ =>
      { fields := [("stdout", .str stdout), ("stderr", .str stderr)]
          ++ optionalField "result" result (fun v => v)
          ++ [("truncated", .bool truncated),
            ("artifacts", .arr ((ending.artifacts receipts).map KernelArtifact.toJson))]
        receipts := some receipts }
  | .approvalPending approvalId cellId =>
      errorBody (.approvalPending approvalId cellId) receipts
        [("approvalPending", .str approvalId)]
  | .timedOut timeoutMs cellId => errorBody (.kernelTimeout timeoutMs cellId) receipts []
  | .raised message cellId => errorBody (.kernelExecution message cellId) receipts []

@[simp] theorem body_receipts (ending : CallEnding) (receipts : List Receipt) :
    (ending.body receipts).receipts = some receipts := by
  cases ending with
  | completed => rfl
  | approvalPending => rfl
  | timedOut => rfl
  | raised => rfl

end CallEnding

/-- The request `executeCall` saves: checks are noted while the call runs, and the
    other receipts are settled only after it ended normally. -/
def executedRequest (sha256 : String → String) (request : Option RequestSnapshot)
    (receipts : List Receipt) (ending : CallEnding) : Except String (Option RequestSnapshot) := do
  let noted ← receipts.foldlM noteReceipt request
  if ending.isCompleted then receipts.foldlM (settleReceipt sha256) noted else return noted

/-! ## A call with a crash -/

/-- Where the attempt stopped, after the last receipt was recorded and before the
    session with the call's output was saved. -/
inductive CrashPoint where
  | beforeStep | afterStep
  deriving DecidableEq

/-- The actions of a call are in the ledger under one version of the request and
    under no other, and its receipts are read from them in call order. -/
structure RecordedCell (env : RestoreEnv) (call : FunctionCall) (version : Nat)
    (receipts : List Receipt) : Prop where
  records : ∃ records, env.ledger.listCell env.work.id call.cellId (some version) = records
    ∧ recoverRecords env.work env.serviceTools env.execute 0 records = .ok receipts
  others : ∀ version', version' ≠ version →
    env.ledger.listCell env.work.id call.cellId (some version') = []

/-- What an attempt that stopped at a crash point left of a call. -/
structure Crashed (env : RestoreEnv) (call : FunctionCall) (request : Option RequestSnapshot)
    (version : Nat) (receipts : List Receipt) (ending : CallEnding) (point : CrashPoint) :
    Prop where
  later : 1 < env.fence
  cell : checkCellId call.cellId = .ok ()
  own : ∀ r ∈ request, r.workId = env.work.id
  recorded : RecordedCell env call version receipts
  step : ∀ r ∈ request, match point with
    | .beforeStep => ∀ step ∈ env.steps.get env.work.id call.cellId r.requestVersion,
        step.output = none
    | .afterStep => ∃ step artifacts,
        env.steps.get env.work.id call.cellId r.requestVersion = some step
          ∧ step.output = some (boundedToolOutput (ending.body receipts))
          ∧ snapshotArtifacts step.artifacts = .ok artifacts

/-! ## When the facts agree -/

section Agreement

variable (env : RestoreEnv) (call : FunctionCall) (request : Option RequestSnapshot)
  (version : Nat) (receipts : List Receipt) (ending : CallEnding) (point : CrashPoint)

/-- A safe direct tool that runs again without failing and without an outcome that
    would end the recovery. -/
def RunsAgain : Prop :=
  ∃ tool action result,
    (env.contextTools.find? (fun tool => tool.name == call.name)).filter ToolDefinition.isSafe
        = some tool
      ∧ directAction env.work call tool.action = .ok action ∧ env.execute action = .ok result
      ∧ ¬ (result.isUnknown = true ∧ result.defers = true)

/-- The ledger answers the call: with its receipts, when there are at least one and
    at most a hundred under the version looked up, and else by running it again. -/
def LedgerAnswers : Prop :=
  if cellVersion env.work request env.steer = version ∧ receipts ≠ [] ∧ receipts.length ≤ 100 then
    ¬ ((∃ receipt ∈ receipts, receipt.result.isUnknown = true)
      ∧ ∃ receipt ∈ receipts, receipt.result.defers = true)
  else RunsAgain env call

/-- The stored step answers the call, and only for a request of this work. -/
def stepAnswers : Bool := request.isSome && point == .afterStep

/-- The receipts are folded again: the stored output still has them. -/
def replays : Bool := stepAnswers request point && (ending.body receipts).fits

/-- No receipt extends the evidence of the request. -/
def EvidenceInert : Prop :=
  ∀ r ∈ request, ∀ receipt ∈ receipts, evidenceStep env.sha256 r.evidence receipt = .ok r.evidence

/-- No receipt extends the checks of the request. -/
def ChecksInert : Prop :=
  ∀ r ∈ request, ∀ receipt ∈ receipts,
    checkStep r.requestVersion (r.resourceChecks.getD []) receipt = .ok (r.resourceChecks.getD [])

/-- The last contract the receipts propose, if any, is the one the request holds. -/
def ContractHeld : Prop :=
  ∀ r ∈ request, lastContract env.sha256 r r.contract receipts = .ok r.contract

/-- The call is answered, and what only one of the two sides folds is inert. -/
@[mk_iff]
structure Recovers : Prop where
  answered : stepAnswers request point = true ∨ LedgerAnswers env call request version receipts
  checks : replays request receipts ending point = true ∨ ChecksInert request receipts
  evidence : replays request receipts ending point = ending.isCompleted ∨
    EvidenceInert env request receipts
  contract : replays request receipts ending point = ending.isCompleted ∨
    ContractHeld env request receipts
  valid : replays request receipts ending point = true →
    ∀ r ∈ request, ContractsValid env.sha256 r receipts

end Agreement

/-! ## What is restored -/

section Restored

open Except

variable {env : RestoreEnv} {call : FunctionCall} {request : Option RequestSnapshot}
  {version : Nat} {receipts : List Receipt} {ending : CallEnding} {point : CrashPoint}

theorem ownRequest_eq_self {work : TurnWork} (h : ∀ r ∈ request, r.workId = work.id) :
    ownRequest work request = request := by
  cases request with
  | none => rfl
  | some r => simp [ownRequest, h r rfl]

theorem recoverStep_of_completed {r : RequestSnapshot}
    (h : Crashed env call (some r) version receipts ending .afterStep) :
    ∃ artifacts, recoverStep env.work env.fence (some r) env.steps call.cellId
      = .ok (some (boundedToolOutput (ending.body receipts), artifacts)) := by
  obtain ⟨step, artifacts, hget, houtput, hartifacts⟩ := h.step r rfl
  have hfence : ¬ env.fence ≤ 1 := Nat.not_le_of_lt h.later
  refine ⟨artifacts, ?_⟩
  simp [recoverStep, h.cell, ownRequest_eq_self h.own, hfence, hget, houtput, orError, hartifacts,
    Except.mapError]

theorem recoverStep_eq_none
    (h : Crashed env call request version receipts ending point)
    (hstep : stepAnswers request point = false) :
    recoverStep env.work env.fence request env.steps call.cellId = .ok none := by
  have hfence : ¬ env.fence ≤ 1 := Nat.not_le_of_lt h.later
  cases request with
  | none => simp [recoverStep, h.cell, ownRequest]
  | some r =>
      cases point with
      | afterStep => cases hstep
      | beforeStep =>
          have houtput := h.step r rfl
          dsimp only at houtput
          cases hget : env.steps.get env.work.id call.cellId r.requestVersion with
          | none => simp [recoverStep, h.cell, ownRequest_eq_self h.own, hfence, hget]
          | some step =>
              have hnone : step.output = none := houtput step (by simp [hget])
              simp [recoverStep, h.cell, ownRequest_eq_self h.own, hfence, hget, hnone]

theorem recoverRecords_length {work : TurnWork} {tools : List ToolDefinition}
    {execute : HostAction → Except Failure HostActionResult} {index : Nat}
    {records : List ActionLedger.CellRecord}
    (h : recoverRecords work tools execute index records = .ok receipts) :
    receipts.length = records.length := by
  induction records generalizing index receipts with
  | nil =>
      cases h
      rfl
  | cons record rest ih =>
      unfold recoverRecords at h
      split at h
      · cases h
      · obtain ⟨result, -, h⟩ := bind_eq_ok_iff.mp h
        obtain ⟨later, hlater, h⟩ := bind_eq_ok_iff.mp h
        cases h
        rw [List.length_cons, List.length_cons, ih hlater]

/-- The receipts the ledger gives back of a call that crashed. -/
theorem recoverCell_of_crashed (h : Crashed env call request version receipts ending point) :
    recoverCell env.work env.serviceTools env.execute request env.steer env.ledger call.cellId
      = .ok (if cellVersion env.work request env.steer = version ∧ receipts ≠ []
          ∧ receipts.length ≤ 100 then some receipts else none) := by
  obtain ⟨records, hlist, hreceipts⟩ := h.recorded.records
  have hlength : receipts.length = records.length := recoverRecords_length hreceipts
  have hempty : records.isEmpty = receipts.isEmpty := by
    rw [Bool.eq_iff_iff, List.isEmpty_iff_length_eq_zero, List.isEmpty_iff_length_eq_zero, hlength]
  unfold recoverCell
  by_cases hversion : cellVersion env.work request env.steer = version
  · by_cases hcount : receipts ≠ [] ∧ receipts.length ≤ 100
    · have hguard : (records.isEmpty || decide (100 < records.length)) = false := by
        simp [hempty, ← hlength, hcount.1, hcount.2]
      simp [h.cell, hversion, hlist, hguard, hreceipts, hcount]
    · have hguard : (records.isEmpty || decide (100 < records.length)) = true := by
        rw [hempty, ← hlength, Bool.or_eq_true, decide_eq_true_iff, List.isEmpty_iff]
        by_contra hneither
        exact hcount ⟨fun hnil => hneither (.inl hnil),
          Nat.le_of_not_lt (fun hlt => hneither (.inr hlt))⟩
      simp [h.cell, hversion, hlist, hguard, hcount]
  · simp [h.cell, h.recorded.others _ hversion, hversion]

theorem answerFrom_iff {P : Option RequestSnapshot → Prop} :
    (∃ restored, answerFrom request receipts = .ok restored ∧ P restored.request) ↔
      (receipts ≠ [] ∧ ¬ ((∃ receipt ∈ receipts, receipt.result.isUnknown = true)
        ∧ ∃ receipt ∈ receipts, receipt.result.defers = true)) ∧ P request := by
  unfold answerFrom
  cases hempty : receipts.isEmpty with
  | true =>
      rw [List.isEmpty_iff] at hempty
      simp [hempty]
  | false =>
      have hne : receipts ≠ [] := by
        rintro rfl
        cases hempty
      cases hunknown : receipts.any (fun receipt => receipt.result.isUnknown)
          && receipts.any (fun receipt => receipt.result.defers) with
      | true =>
          rw [Bool.and_eq_true, List.any_eq_true, List.any_eq_true] at hunknown
          simp [hunknown]
      | false =>
          rw [← Bool.not_eq_true, Bool.and_eq_true, List.any_eq_true, List.any_eq_true] at hunknown
          simp [hne, hunknown]

/-- An answer from the ledger exists exactly when the ledger answers the call, and
    it leaves the request as it was saved. -/
theorem restoreFromLedger_iff (h : Crashed env call request version receipts ending point)
    {P : Option RequestSnapshot → Prop} :
    (∃ restored, restoreFromLedger env request call = .ok restored ∧ P restored.request) ↔
      LedgerAnswers env call request version receipts ∧ P request := by
  unfold LedgerAnswers restoreFromLedger cellReceipts
  rw [recoverCell_of_crashed h]
  split
  · rename_i hcount
    cases receipts with
    | nil => cases hcount.2.1 rfl
    | cons receipt rest =>
        have hiff : (∃ restored, answerFrom request (receipt :: rest) = .ok restored
            ∧ P restored.request) ↔ _ := answerFrom_iff
        simpa using hiff
  · unfold RunsAgain
    rw [ok_bind]
    dsimp only [Option.getD_none]
    cases (env.contextTools.find? (fun tool => tool.name == call.name)).filter
        ToolDefinition.isSafe with
    | none => simp [answerFrom]
    | some tool =>
        cases haction : directAction env.work call tool.action with
        | error e => simp [haction]
        | ok action =>
            cases hresult : env.execute action with
            | error e => simp [haction, hresult]
            | ok result =>
                have hiff : (∃ restored, answerFrom request
                    [⟨tool.action, action.idempotencyKey, result⟩] = .ok restored
                    ∧ P restored.request) ↔ _ := answerFrom_iff
                simpa [haction, hresult] using hiff

end Restored

/-! ## What is executed -/

section Executed

open Except

variable {sha256 : String → String} {r : RequestSnapshot} {live : Option RequestSnapshot}
  {receipts : List Receipt} {ending : CallEnding}

theorem foldlM_noteReceipt (receipts : List Receipt) (r : RequestSnapshot) :
    receipts.foldlM noteReceipt (some r) = (receipts.foldlM RequestSnapshot.note r).map some :=
  (map_foldlM (I := fun _ => True) (π := some) (fun _ => rfl) (fun _ _ => trivial) receipts
    trivial).symm

theorem foldlM_settleReceipt (receipts : List Receipt) (r : RequestSnapshot) :
    receipts.foldlM (settleReceipt sha256) (some r)
      = (receipts.foldlM (RequestSnapshot.settle sha256) r).map some :=
  (map_foldlM (I := fun _ => True) (π := some) (fun _ => rfl) (fun _ _ => trivial) receipts
    trivial).symm

theorem foldlM_replayReceipt (receipts : List Receipt) (r : RequestSnapshot) :
    receipts.foldlM (replayReceipt sha256) (some r)
      = (receipts.foldlM (RequestSnapshot.replay sha256) r).map some :=
  (map_foldlM (I := fun _ => True) (π := some) (fun _ => rfl) (fun _ _ => trivial) receipts
    trivial).symm

theorem noteAll_eq_ok {noted : RequestSnapshot}
    (h : receipts.foldlM RequestSnapshot.note r = .ok noted) :
    receipts.foldlM (checkStep r.requestVersion) r.facts.resourceChecks
        = .ok noted.facts.resourceChecks
      ∧ noted.facts.evidence = r.facts.evidence ∧ noted.facts.contract = r.facts.contract := by
  have hfacts : (receipts.foldlM RequestSnapshot.note r).map RequestSnapshot.facts = _ :=
    RequestSnapshot.noteAll_facts
  rw [h, ok_map] at hfacts
  obtain ⟨he, hc, hk⟩ := foldlM_stepFacts_eq_ok_iff.mp hfacts.symm
  rw [foldlM_idle, Except.ok.injEq] at he hk
  exact ⟨hc, he.symm, hk.symm⟩

theorem settleAll_eq_ok {settled : RequestSnapshot}
    (h : receipts.foldlM (RequestSnapshot.settle sha256) r = .ok settled) :
    receipts.foldlM (evidenceStep sha256) r.facts.evidence = .ok settled.facts.evidence
      ∧ settled.facts.resourceChecks = r.facts.resourceChecks
      ∧ receipts.foldlM (currentContractStep sha256 r) r.facts.contract
        = .ok settled.facts.contract := by
  have hfacts : (receipts.foldlM (RequestSnapshot.settle sha256) r).map RequestSnapshot.facts = _ :=
    RequestSnapshot.settleAll_facts
  rw [h, ok_map] at hfacts
  obtain ⟨he, hc, hk⟩ := foldlM_stepFacts_eq_ok_iff.mp hfacts.symm
  rw [foldlM_idle, Except.ok.injEq] at hc
  exact ⟨he, hc.symm, hk⟩

theorem currentContractStep_eq_ok {contract contract' : Option TaskContract} {receipt : Receipt}
    (h : currentContractStep sha256 r contract receipt = .ok contract') :
    contractStep sha256 r contract receipt = .ok contract' := by
  unfold currentContractStep at h
  split at h
  · cases h
  · exact h

/-- The facts of the request `executeCall` saves. -/
structure ExecutedFacts (sha256 : String → String) (facts : RequestFacts) (r : RequestSnapshot)
    (receipts : List Receipt) (settles : Bool) : Prop where
  checks : receipts.foldlM (checkStep r.requestVersion) r.facts.resourceChecks
    = .ok facts.resourceChecks
  evidence : if settles then receipts.foldlM (evidenceStep sha256) r.facts.evidence
      = .ok facts.evidence else facts.evidence = r.facts.evidence
  contract : if settles then receipts.foldlM (contractStep sha256 r) r.facts.contract
      = .ok facts.contract else facts.contract = r.facts.contract

theorem executedFacts (h : executedRequest sha256 (some r) receipts ending = .ok live) :
    ∃ r', live = some r' ∧ ExecutedFacts sha256 r'.facts r receipts ending.isCompleted := by
  unfold executedRequest at h
  rw [foldlM_noteReceipt] at h
  obtain ⟨noted', hnoted', h⟩ := bind_eq_ok_iff.mp h
  obtain ⟨noted, hnoted, rfl⟩ := map_eq_ok_iff.mp hnoted'
  obtain ⟨hchecks, hevidence, hcontract⟩ := noteAll_eq_ok hnoted
  cases hcompleted : ending.isCompleted with
  | false =>
      rw [hcompleted] at h
      cases h
      exact ⟨noted, rfl, hchecks, hevidence, hcontract⟩
  | true =>
      rw [hcompleted, if_pos rfl, foldlM_settleReceipt] at h
      obtain ⟨settled, hsettled, rfl⟩ := map_eq_ok_iff.mp h
      obtain ⟨he, hc, hk⟩ := settleAll_eq_ok hsettled
      rw [(RequestSnapshot.noteAll_agrees hnoted).currentContractStep, hcontract] at hk
      exact ⟨settled, rfl, by rw [hchecks, hc], by simpa [hevidence] using he,
        by simpa using foldlM_eq_ok_mono currentContractStep_eq_ok hk⟩

end Executed

/-! ## The comparison -/

section Comparison

open Except

variable {env : RestoreEnv} {call : FunctionCall} {request live : Option RequestSnapshot}
  {r : RequestSnapshot} {facts : RequestFacts} {version : Nat} {receipts : List Receipt}
  {ending : CallEnding} {point : CrashPoint} {settles : Bool}

theorem evidenceInert_iff : EvidenceInert env (some r) receipts ↔
    receipts.foldlM (evidenceStep env.sha256) r.facts.evidence = .ok r.facts.evidence := by
  rw [evidenceStep_eq_self_iff]
  simp [EvidenceInert, RequestSnapshot.facts]

theorem checksInert_iff : ChecksInert (some r) receipts ↔
    receipts.foldlM (checkStep r.requestVersion) r.facts.resourceChecks
      = .ok r.facts.resourceChecks := by
  rw [checkStep_eq_self_iff]
  simp [ChecksInert, RequestSnapshot.facts]

theorem contractHeld_iff : ContractHeld env (some r) receipts ↔
    lastContract env.sha256 r r.facts.contract receipts = .ok r.facts.contract := by
  simp [ContractHeld, RequestSnapshot.facts]

theorem facts_eq_iff {facts facts' : RequestFacts} : facts = facts' ↔
    facts'.resourceChecks = facts.resourceChecks ∧ facts'.evidence = facts.evidence
      ∧ facts'.contract = facts.contract := by
  constructor
  · rintro rfl
    exact ⟨rfl, rfl, rfl⟩
  · intro ⟨hchecks, hevidence, hcontract⟩
    cases facts
    cases facts'
    simp_all

/-- A request that was not folded again has the facts of the executed one when
    whatever the execution folded was inert. -/
theorem facts_eq_iff_inert (h : ExecutedFacts env.sha256 facts r receipts settles) :
    r.facts = facts ↔ ChecksInert (some r) receipts
      ∧ (settles = false ∨ EvidenceInert env (some r) receipts)
      ∧ (settles = false ∨ ContractHeld env (some r) receipts) := by
  have hchecks : ChecksInert (some r) receipts ↔ facts.resourceChecks = r.facts.resourceChecks := by
    rw [checksInert_iff, h.checks, Except.ok.injEq]
  rw [facts_eq_iff, hchecks]
  cases settles with
  | false => simpa using fun _ => ⟨h.evidence, h.contract⟩
  | true =>
      have hsettled := h.evidence
      rw [if_pos rfl] at hsettled
      have hevidence : EvidenceInert env (some r) receipts ↔ facts.evidence = r.facts.evidence := by
        rw [evidenceInert_iff, hsettled, Except.ok.injEq]
      have hlast : lastContract env.sha256 r r.facts.contract receipts = .ok facts.contract :=
        (contractStep_eq_ok_iff.mp h.contract).2
      have hcontract : ContractHeld env (some r) receipts ↔ facts.contract = r.facts.contract := by
        rw [contractHeld_iff, hlast, Except.ok.injEq]
      simp [hevidence, hcontract]

/-- A request whose receipts were folded again has the facts of the executed one
    when what the execution did not fold was inert. -/
theorem replayed_facts_iff (h : ExecutedFacts env.sha256 facts r receipts settles) :
    (∃ r', receipts.foldlM (RequestSnapshot.replay env.sha256) r = .ok r' ∧ r'.facts = facts) ↔
      (settles = true ∨ EvidenceInert env (some r) receipts)
      ∧ (settles = true ∨ ContractHeld env (some r) receipts)
      ∧ ContractsValid env.sha256 r receipts := by
  rw [← map_eq_ok_iff, RequestSnapshot.replayAll_facts, foldlM_stepFacts_eq_ok_iff]
  cases settles with
  | true =>
      have hvalid : ContractsValid env.sha256 r receipts := (contractStep_eq_ok_iff.mp h.contract).1
      have hevidence := h.evidence
      have hcontract := h.contract
      rw [if_pos rfl] at hevidence hcontract
      simp [h.checks, hevidence, hcontract, hvalid]
  | false =>
      have hevidence : facts.evidence = r.facts.evidence := h.evidence
      have hcontract : facts.contract = r.facts.contract := h.contract
      rw [h.checks, hevidence, hcontract, contractStep_eq_ok_iff, evidenceInert_iff,
        contractHeld_iff]
      simp only [Bool.false_eq_true, false_or, true_and]
      tauto

theorem executedRequest_none (h : executedRequest env.sha256 none receipts ending = .ok live) :
    live = none := by
  have hnote : receipts.foldlM noteReceipt none = .ok none := foldlM_eq_self fun _ _ => rfl
  unfold executedRequest at h
  rw [hnote, ok_bind] at h
  split at h
  · apply foldlM_preserves (I := fun request => request = none) _ rfl h
    rintro _ receipt request' rfl hstep
    unfold settleReceipt at hstep
    dsimp only at hstep
    split at hstep
    · cases hstep
    · exact (Except.ok.inj hstep).symm
  · exact (Except.ok.inj h).symm

theorem restoreFromStep_iff {output : ToolOutput} {artifacts : List KernelArtifact} :
    (∃ restored, restoreFromStep env (some r) output artifacts = .ok restored
        ∧ restored.request.map RequestSnapshot.facts = some facts) ↔
      ∃ r', output.receipts.foldlM (RequestSnapshot.replay env.sha256) r = .ok r'
        ∧ r'.facts = facts := by
  unfold restoreFromStep
  rw [foldlM_replayReceipt]
  cases output.receipts.foldlM (RequestSnapshot.replay env.sha256) r with
  | error e => simp [orError, Except.mapError]
  | ok r' => simp [orError, Except.mapError]

end Comparison

/-! ## A recorded read

A direct read tool returns its sources. Its receipt is in the ledger when the
attempt stops, and its completed step is not saved. -/

private def pageCall : FunctionCall where
  callId := "c1"
  name := "files__read"
  arguments := ⟨"\x7b\x7d", some (.obj [])⟩
  stepId := some "step:1"

private def pageWork : TurnWork where
  id := "w"
  tenantId := "t"
  agentId := "a"
  sessionId := "s"
  threadId := none
  kind := "turn"
  lane := .interactive
  triggerRef := "m1"
  principalId := some "u"
  meta_ := { text := some "What are the return terms?" }

private def pageRequest : RequestSnapshot where
  version := 1
  workId := "w"
  tenantId := "t"
  sessionId := "s"
  authorId := "u"
  sourceRef := "m1"
  originalText := "What are the return terms?"
  revisions := []
  attachments := []
  evidence := ⟨1, "w:evidence:1", []⟩

private def pageKey : String := actionKeyOf "w" "step:1" 0

private def pageReceipt (sources : List SourceEvidence) : Receipt :=
  ⟨"files.read", pageKey, { ok := true, evidence := sources }⟩

private def pageIntent : ActionIntent where
  workId := "w"
  tenantId := "t"
  principalId := some "u"
  agentId := "a"
  sessionId := "s"
  threadId := none
  requestVersion := some 1
  action := ⟨"w", "step:1", 0, "files.read", [], pageKey⟩

private def pageLedger (sources : List SourceEvidence) : ActionLedger :=
  ((ActionLedger.init.reserve pageKey "fingerprint" pageIntent).2.record pageKey
    (pageReceipt sources).result).2

private def pageEnding : CallEnding := .completed "" "" none false []

/-- The step as it was saved before the call ran. -/
private def pageStep : ExecutionStep where
  id := "step:1"
  requestVersion := 1
  kind := "files__read"
  input := [("callId", .str "c1"), ("arguments", .str "\x7b\x7d")]

/-- The next attempt. The digest is the one of the evidence item the read becomes. -/
private def pageEnv (sources : List SourceEvidence) : RestoreEnv where
  sha256 := fun _ => "2f79f8c76157ce19bea2f75612aa0aa70caea4bd53cd1ba72da7a0e717cad20a"
  work := pageWork
  fence := 2
  steps := (StepStore.init.save "w" pageStep).2
  ledger := pageLedger sources
  steer := 0
  serviceTools := []
  contextTools := []
  execute := fun _ => .error (.leaseLost "work lease lost or expired")

private theorem pageCrashed (sources : List SourceEvidence) :
    Crashed (pageEnv sources) pageCall (some pageRequest) 1 [pageReceipt sources] pageEnding
      .beforeStep := by
  have hget : (pageEnv sources).steps.get "w" "step:1" 1 = some pageStep := by rfl
  refine ⟨Nat.lt_succ_self 1, rfl, ?_, ⟨⟨_, rfl, rfl⟩, ?_⟩, ?_⟩
  · rintro r ⟨⟩
    rfl
  · intro version hversion
    have hentries : (pageLedger sources).intentDetails.entries = [(pageKey, pageIntent)] := by rfl
    simp [ActionLedger.listCell, pageEnv, hentries, pageIntent, hversion.symm]
  · rintro r ⟨⟩ step hstep
    obtain rfl : pageStep = step := Option.some.inj (hget.symm.trans hstep)
    rfl

private theorem pageExecuted {sources : List SourceEvidence} {evidence : EvidenceSnapshot}
    (hread : evidenceStep (pageEnv sources).sha256 pageRequest.evidence (pageReceipt sources)
      = .ok evidence) :
    executedRequest (pageEnv sources).sha256 (some pageRequest) [pageReceipt sources] pageEnding
      = .ok (some { pageRequest with evidence := evidence }) := by
  have hsettle : settleReceipt (pageEnv sources).sha256 (some pageRequest) (pageReceipt sources)
      = .ok (some { pageRequest with evidence := evidence }) := by
    rw [settleReceipt, RequestSnapshot.settle, RequestSnapshot.read_eq, hread]
    rfl
  have hnoted : [pageReceipt sources].foldlM noteReceipt (some pageRequest)
      = .ok (some pageRequest) := Except.foldlM_cons_eq_ok_iff.mpr ⟨_, rfl, rfl⟩
  unfold executedRequest
  rw [hnoted, Except.ok_bind, if_pos (show pageEnding.isCompleted = true from rfl)]
  exact Except.foldlM_cons_eq_ok_iff.mpr ⟨_, hsettle, rfl⟩

private def pageSource : SourceEvidence where
  sourceId := "files/terms.md"
  sourceVersion := "7"
  chunkId := "terms:1"
  title := "Terms"
  excerpt := "Returns are accepted for 30 days"

private def pageEvidence : EvidenceSnapshot :=
  ⟨1, "evidence:2f79f8c76157ce19bea2f75612aa0aa70caea4bd53cd1ba72da7a0e717cad20a",
    [{ marker := "S1"
       sourceId := "files/terms.md"
       sourceVersion := "7"
       chunkId := "terms:1"
       title := "Terms"
       excerpt := "Returns are accepted for 30 days"
       actionKey := some pageKey }]⟩

end LingxiOS
