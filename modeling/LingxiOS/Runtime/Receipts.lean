-- SUMMARY: How receipts become facts of the request: live, after a call, and on replay.
import LingxiOS.Request.Snapshot
import Mathlib.Data.List.Induction

/-! # Receipts and Request Facts

The receipts of a tool call extend three facts of the request: its evidence, its
resource checks and its task contract. Three pieces of the runtime fold them in:
`onHostAction` while the call runs, the loop of `executeCall` after it, and the
loop of `restoreSession` over a stored output. -/

namespace LingxiOS

/-! ## The three folds -/

/-- The receipt carries a task contract for the request. -/
def Receipt.proposes (receipt : Receipt) : Bool :=
  receipt.action == "task.contract" && receipt.result.ok
    && receipt.result.directive.any (fun directive => directive.type == .taskContract)

/-- `receipt.result.directive.data`. -/
def Receipt.draft (receipt : Receipt) : Option JsonObject :=
  receipt.result.directive.bind HostDirective.data

/-- The contract a receipt's draft makes of the request it is folded into. -/
def RequestSnapshot.createContract (sha256 : String → String) (request : RequestSnapshot)
    (receipt : Receipt) : Except String TaskContract :=
  createTaskContract sha256 request.originalText request.requestVersion
    (contractDraft receipt.draft)

namespace RequestSnapshot

variable (sha256 : String → String) (request : RequestSnapshot) (receipt : Receipt)

/-- A resource check joins the request's. -/
def note : Except String RequestSnapshot :=
  if receipt.action = "task.check_resource" then
    (appendResourceCheck (request.resourceChecks.getD []) receipt.idempotencyKey receipt.result
      request.requestVersion).map (fun checks => { request with resourceChecks := some checks })
  else .ok request

/-- A read's evidence joins the request's. -/
def read : Except String RequestSnapshot :=
  (appendReadEvidence sha256 request.evidence receipt.idempotencyKey receipt.result
    receipt.action).map (fun evidence => { request with evidence := evidence })

/-- The contract of a receipt replaces the request's. -/
def takeContract : Except String RequestSnapshot :=
  (request.createContract sha256 receipt).map
    (fun contract => { request with contract := some contract })

/-- The receipt's draft names the version of the request. -/
def currentDraft : Bool :=
  match receipt.draft with
  | some draft => JsonObject.get? draft "requestVersion" == some (.num request.requestVersion)
  | none => false

def settle : Except String RequestSnapshot := do
  let request ← request.read sha256 receipt
  if !receipt.proposes then return request
  if !request.currentDraft receipt then throw "stale task contract receipt"
  request.takeContract sha256 receipt

def replay : Except String RequestSnapshot := do
  let request ← request.read sha256 receipt
  if receipt.action = "task.check_resource" then request.note receipt
  else if receipt.proposes then request.takeContract sha256 receipt
  else return request

end RequestSnapshot

/-- `onHostAction`, for the request: a resource check is noted while the call runs. -/
def noteReceipt (request : Option RequestSnapshot) (receipt : Receipt) :
    Except String (Option RequestSnapshot) :=
  match request with
  | none => .ok none
  | some request => (request.note receipt).map some

/-- The loop of `executeCall` over the receipts of a call that ended normally.
    A task contract needs the request it was drafted for. -/
def settleReceipt (sha256 : String → String) (request : Option RequestSnapshot)
    (receipt : Receipt) : Except String (Option RequestSnapshot) :=
  match request with
  | none => if receipt.proposes then .error "stale task contract receipt" else .ok none
  | some request => (request.settle sha256 receipt).map some

/-- The loop of `restoreSession` over the receipts of a stored output. -/
def replayReceipt (sha256 : String → String) (request : Option RequestSnapshot)
    (receipt : Receipt) : Except String (Option RequestSnapshot) :=
  match request with
  | none => .ok none
  | some request => (request.replay sha256 receipt).map some

/-! ## Facts -/

/-- What receipts extend; an absent list of checks is an empty one. -/
structure RequestFacts where
  evidence : EvidenceSnapshot
  resourceChecks : List ResourceCheckRecord
  contract : Option TaskContract

def RequestSnapshot.facts (request : RequestSnapshot) : RequestFacts where
  evidence := request.evidence
  resourceChecks := request.resourceChecks.getD []
  contract := request.contract

/-- A fold step for each fact makes a fold step for all three. -/
def stepFacts (evidence : EvidenceSnapshot → Receipt → Except String EvidenceSnapshot)
    (check : List ResourceCheckRecord → Receipt → Except String (List ResourceCheckRecord))
    (contract : Option TaskContract → Receipt → Except String (Option TaskContract))
    (facts : RequestFacts) (receipt : Receipt) : Except String RequestFacts := do
  let evidence ← evidence facts.evidence receipt
  let resourceChecks ← check facts.resourceChecks receipt
  let contract ← contract facts.contract receipt
  return ⟨evidence, resourceChecks, contract⟩

/-- The step of a fold that leaves a fact alone. -/
def idle {σ : Type} (s : σ) (_ : Receipt) : Except String σ := .ok s

def evidenceStep (sha256 : String → String) (evidence : EvidenceSnapshot) (receipt : Receipt) :
    Except String EvidenceSnapshot :=
  appendReadEvidence sha256 evidence receipt.idempotencyKey receipt.result receipt.action

def checkStep (version : Nat) (checks : List ResourceCheckRecord) (receipt : Receipt) :
    Except String (List ResourceCheckRecord) :=
  if receipt.action = "task.check_resource" then
    appendResourceCheck checks receipt.idempotencyKey receipt.result version
  else .ok checks

section Contract

variable (sha256 : String → String) (request : RequestSnapshot)

def contractStep (contract : Option TaskContract) (receipt : Receipt) :
    Except String (Option TaskContract) :=
  if receipt.proposes then (request.createContract sha256 receipt).map some else .ok contract

/-- The step that also refuses a stale draft. -/
def currentContractStep (contract : Option TaskContract) (receipt : Receipt) :
    Except String (Option TaskContract) :=
  if receipt.proposes && !request.currentDraft receipt then .error "stale task contract receipt"
  else contractStep sha256 request contract receipt

end Contract

namespace RequestSnapshot

open Except

variable {sha256 : String → String} {request request' : RequestSnapshot} {receipt : Receipt}
  {receipts : List Receipt}

/-- Two snapshots of one request at one version. -/
def Agrees (request request' : RequestSnapshot) : Prop :=
  request'.requestVersion = request.requestVersion ∧ request'.originalText = request.originalText

theorem Agrees.refl (request : RequestSnapshot) : request.Agrees request := ⟨rfl, rfl⟩

theorem Agrees.trans {r s t : RequestSnapshot} (h₁ : r.Agrees s) (h₂ : s.Agrees t) : r.Agrees t :=
  ⟨h₂.1.trans h₁.1, h₂.2.trans h₁.2⟩

theorem Agrees.createContract (h : request.Agrees request') :
    request'.createContract sha256 receipt = request.createContract sha256 receipt := by
  unfold RequestSnapshot.createContract
  rw [h.1, h.2]

theorem Agrees.contractStep (h : request.Agrees request') :
    contractStep sha256 request' = contractStep sha256 request := by
  funext contract receipt
  unfold LingxiOS.contractStep
  rw [h.createContract]

theorem Agrees.currentDraft (h : request.Agrees request') :
    request'.currentDraft receipt = request.currentDraft receipt := by
  unfold RequestSnapshot.currentDraft
  rw [h.1]

theorem Agrees.currentContractStep (h : request.Agrees request') :
    currentContractStep sha256 request' = currentContractStep sha256 request := by
  funext contract receipt
  unfold LingxiOS.currentContractStep
  rw [h.currentDraft, h.contractStep]

/-! ### One receipt -/

theorem note_agrees (h : request.note receipt = .ok request') : request.Agrees request' := by
  unfold note at h
  split at h
  · obtain ⟨checks, -, rfl⟩ := Except.map_eq_ok_iff.mp h
    exact ⟨rfl, rfl⟩
  · cases h
    exact .refl request

theorem read_agrees (h : request.read sha256 receipt = .ok request') : request.Agrees request' := by
  obtain ⟨evidence, -, rfl⟩ := Except.map_eq_ok_iff.mp h
  exact ⟨rfl, rfl⟩

theorem takeContract_agrees (h : request.takeContract sha256 receipt = .ok request') :
    request.Agrees request' := by
  obtain ⟨contract, -, rfl⟩ := Except.map_eq_ok_iff.mp h
  exact ⟨rfl, rfl⟩

theorem note_facts : (request.note receipt).map facts
    = stepFacts idle (checkStep request.requestVersion) idle request.facts receipt := by
  unfold note stepFacts checkStep idle
  by_cases haction : receipt.action = "task.check_resource"
  · cases hcheck : appendResourceCheck (request.resourceChecks.getD []) receipt.idempotencyKey
        receipt.result request.requestVersion with
    | error e => simp [facts, haction, hcheck]
    | ok checks => simp [facts, haction, hcheck]
  · simp [facts, haction]

theorem read_facts : (request.read sha256 receipt).map facts
    = stepFacts (evidenceStep sha256) idle idle request.facts receipt := by
  unfold RequestSnapshot.read stepFacts evidenceStep idle
  cases hread : appendReadEvidence sha256 request.evidence receipt.idempotencyKey receipt.result
      receipt.action with
  | error e => simp [facts, hread]
  | ok evidence => simp [facts, hread]

theorem takeContract_facts (hproposes : receipt.proposes = true) :
    (request.takeContract sha256 receipt).map facts
      = stepFacts idle idle (contractStep sha256 request) request.facts receipt := by
  unfold RequestSnapshot.takeContract stepFacts contractStep idle
  cases request.createContract sha256 receipt with
  | error e => simp [hproposes]
  | ok contract => simp [facts, hproposes]

theorem settle_agrees (h : request.settle sha256 receipt = .ok request') :
    request.Agrees request' := by
  unfold settle at h
  obtain ⟨next, hread, h⟩ := Except.bind_ok h
  have hnext : request.Agrees next := read_agrees hread
  split at h
  · cases h
    exact hnext
  · split at h
    · cases h
    · exact hnext.trans (takeContract_agrees h)

theorem replay_agrees (h : request.replay sha256 receipt = .ok request') :
    request.Agrees request' := by
  unfold replay at h
  obtain ⟨next, hread, h⟩ := Except.bind_ok h
  have hnext : request.Agrees next := read_agrees hread
  split at h
  · exact hnext.trans (note_agrees h)
  · split at h
    · exact hnext.trans (takeContract_agrees h)
    · cases h
      exact hnext

/-- A read leaves the request's other facts and its version as they are. -/
theorem read_eq : request.read sha256 receipt
    = (evidenceStep sha256 request.evidence receipt).map
      (fun evidence => { request with evidence := evidence }) := rfl

/-- What follows a read sees the same request with the read's evidence. -/
theorem read_bind_facts {next : RequestSnapshot → Except String RequestSnapshot}
    {rest : EvidenceSnapshot → Except String RequestFacts}
    (h : ∀ {request' evidence}, request.Agrees request' →
      request'.facts = { request.facts with evidence := evidence } →
      (next request').map facts = rest evidence) :
    (request.read sha256 receipt >>= next).map facts
      = evidenceStep sha256 request.facts.evidence receipt >>= rest := by
  have hfacts : (request.read sha256 receipt).map facts = _ := read_facts
  unfold stepFacts at hfacts
  cases hevidence : evidenceStep sha256 request.facts.evidence receipt with
  | error e =>
      cases hread : request.read sha256 receipt with
      | error e' => simpa [hread, hevidence] using hfacts
      | ok request' => simp [hread, hevidence] at hfacts
  | ok evidence =>
      cases hread : request.read sha256 receipt with
      | error e' => simp [hread, hevidence, idle] at hfacts
      | ok request' =>
          simp only [hread, hevidence, idle, ok_map, ok_bind, pure_eq_ok, Except.ok.injEq] at hfacts
          exact h (read_agrees hread) hfacts

theorem settle_facts : (request.settle sha256 receipt).map facts
    = stepFacts (evidenceStep sha256) idle (currentContractStep sha256 request) request.facts
      receipt := by
  unfold settle stepFacts
  apply read_bind_facts
  intro request' evidence hagrees hfacts
  unfold currentContractStep
  cases hproposes : receipt.proposes with
  | false => simp [contractStep, idle, hproposes, hfacts]
  | true =>
      cases hdraft : request.currentDraft receipt with
      | false => simp [idle, hagrees.currentDraft, hdraft]
      | true =>
          simp [hagrees.currentDraft, hdraft, takeContract_facts hproposes, stepFacts,
            hagrees.contractStep, hfacts, idle]

theorem replay_facts : (request.replay sha256 receipt).map facts
    = stepFacts (evidenceStep sha256) (checkStep request.requestVersion)
      (contractStep sha256 request) request.facts receipt := by
  unfold replay stepFacts
  apply read_bind_facts
  intro request' evidence hagrees hfacts
  by_cases haction : receipt.action = "task.check_resource"
  · have hproposes : receipt.proposes = false := by simp [Receipt.proposes, haction]
    simp [haction, note_facts, stepFacts, contractStep, idle, hproposes, hagrees.1, hfacts]
  · cases hproposes : receipt.proposes with
    | false => simp [checkStep, contractStep, haction, hproposes, hfacts]
    | true =>
        simp [haction, takeContract_facts hproposes, stepFacts, hagrees.contractStep, checkStep,
          idle, hfacts]

/-! ### All receipts of a call -/

theorem noteAll_facts : (receipts.foldlM note request).map facts
    = receipts.foldlM (stepFacts idle (checkStep request.requestVersion) idle) request.facts := by
  apply map_foldlM (I := request.Agrees) _ _ _ (.refl request)
  · intro r receipt hr
    rw [note_facts, hr.1]
  · intro r receipt r' hr h
    exact hr.trans (note_agrees h)

theorem settleAll_facts : (receipts.foldlM (settle sha256) request).map facts
    = receipts.foldlM (stepFacts (evidenceStep sha256) idle (currentContractStep sha256 request))
      request.facts := by
  apply map_foldlM (I := request.Agrees) _ _ _ (.refl request)
  · intro r receipt hr
    rw [settle_facts, hr.currentContractStep]
  · intro r receipt r' hr h
    exact hr.trans (settle_agrees h)

theorem replayAll_facts : (receipts.foldlM (replay sha256) request).map facts
    = receipts.foldlM (stepFacts (evidenceStep sha256) (checkStep request.requestVersion)
      (contractStep sha256 request)) request.facts := by
  apply map_foldlM (I := request.Agrees) _ _ _ (.refl request)
  · intro r receipt hr
    rw [replay_facts, hr.1, hr.contractStep]
  · intro r receipt r' hr h
    exact hr.trans (replay_agrees h)

theorem noteAll_agrees (h : receipts.foldlM note request = .ok request') :
    request.Agrees request' :=
  foldlM_preserves (fun hagrees hnote => hagrees.trans (note_agrees hnote)) (.refl request) h

end RequestSnapshot

/-! ### Folding the facts one by one -/

section Folds

open Except

variable {evidence : EvidenceSnapshot → Receipt → Except String EvidenceSnapshot}
  {check : List ResourceCheckRecord → Receipt → Except String (List ResourceCheckRecord)}
  {contract : Option TaskContract → Receipt → Except String (Option TaskContract)}
  {facts facts' : RequestFacts} {receipt : Receipt} {receipts : List Receipt}

theorem stepFacts_eq_ok_iff : stepFacts evidence check contract facts receipt = .ok facts' ↔
    evidence facts.evidence receipt = .ok facts'.evidence
      ∧ check facts.resourceChecks receipt = .ok facts'.resourceChecks
      ∧ contract facts.contract receipt = .ok facts'.contract := by
  unfold stepFacts
  simp only [bind_eq_ok_iff, pure_eq_ok, Except.ok.injEq]
  constructor
  · rintro ⟨e, he, c, hc, k, hk, rfl⟩
    exact ⟨he, hc, hk⟩
  · rintro ⟨he, hc, hk⟩
    exact ⟨_, he, _, hc, _, hk, rfl⟩

theorem foldlM_stepFacts_eq_ok_iff :
    receipts.foldlM (stepFacts evidence check contract) facts = .ok facts' ↔
      receipts.foldlM evidence facts.evidence = .ok facts'.evidence
        ∧ receipts.foldlM check facts.resourceChecks = .ok facts'.resourceChecks
        ∧ receipts.foldlM contract facts.contract = .ok facts'.contract := by
  induction receipts generalizing facts with
  | nil =>
      cases facts
      cases facts'
      simp
  | cons receipt receipts ih =>
      simp only [foldlM_cons_eq_ok_iff, stepFacts_eq_ok_iff, ih]
      constructor
      · rintro ⟨next, ⟨he, hc, hk⟩, hes, hcs, hks⟩
        exact ⟨⟨_, he, hes⟩, ⟨_, hc, hcs⟩, ⟨_, hk, hks⟩⟩
      · rintro ⟨⟨e, he, hes⟩, ⟨c, hc, hcs⟩, ⟨k, hk, hks⟩⟩
        exact ⟨⟨e, c, k⟩, ⟨he, hc, hk⟩, hes, hcs, hks⟩

@[simp] theorem foldlM_idle {σ : Type} (s : σ) : receipts.foldlM idle s = .ok s := by
  induction receipts with
  | nil => rfl
  | cons receipt receipts ih =>
      rw [List.foldlM_cons]
      exact ih

end Folds

/-! ### What leaves a fact alone -/

section Inert

open Except

variable {sha256 : String → String} {receipt : Receipt} {receipts : List Receipt}

theorem evidenceStep_eq_self_iff {evidence : EvidenceSnapshot} :
    receipts.foldlM (evidenceStep sha256) evidence = .ok evidence ↔
      ∀ receipt ∈ receipts, evidenceStep sha256 evidence receipt = .ok evidence := by
  apply foldlM_eq_self_iff
  intro evidence receipt evidence' h
  exact appendReadEvidence_grows h

theorem checkStep_grows {version : Nat} {checks checks' : List ResourceCheckRecord}
    (h : checkStep version checks receipt = .ok checks') :
    checks' = checks ∨ checks.length < checks'.length := by
  unfold checkStep at h
  split at h
  · exact appendResourceCheck_grows h
  · exact .inl (Except.ok.inj h).symm

theorem checkStep_eq_self_iff {version : Nat} {checks : List ResourceCheckRecord} :
    receipts.foldlM (checkStep version) checks = .ok checks ↔
      ∀ receipt ∈ receipts, checkStep version checks receipt = .ok checks :=
  foldlM_eq_self_iff checkStep_grows

section Contract

variable {request : RequestSnapshot} {contract contract' : Option TaskContract}

/-- The contract a call leaves behind: the one of its last receipt that proposes
    one, else the one held before. -/
def lastContract (sha256 : String → String) (request : RequestSnapshot)
    (contract : Option TaskContract) (receipts : List Receipt) : Except String (Option TaskContract) :=
  match (receipts.filter Receipt.proposes).getLast? with
  | none => .ok contract
  | some receipt => (request.createContract sha256 receipt).map some

/-- Every contract a call proposes is one. -/
def ContractsValid (sha256 : String → String) (request : RequestSnapshot)
    (receipts : List Receipt) : Prop :=
  ∀ receipt ∈ receipts, receipt.proposes → ∃ c, request.createContract sha256 receipt = .ok c

theorem contractsValid_append : ContractsValid sha256 request (receipts ++ [receipt]) ↔
    ContractsValid sha256 request receipts
      ∧ (receipt.proposes → ∃ c, request.createContract sha256 receipt = .ok c) := by
  unfold ContractsValid
  rw [List.forall_mem_append, List.forall_mem_singleton]

theorem lastContract_append : lastContract sha256 request contract (receipts ++ [receipt])
    = if receipt.proposes then (request.createContract sha256 receipt).map some
      else lastContract sha256 request contract receipts := by
  unfold lastContract
  cases hproposes : receipt.proposes with
  | false => simp [hproposes]
  | true => simp [hproposes]

/-- Valid contracts leave one behind. -/
theorem ContractsValid.exists_last (h : ContractsValid sha256 request receipts) :
    ∃ c, lastContract sha256 request contract receipts = .ok c := by
  unfold lastContract
  split
  · exact ⟨contract, rfl⟩
  · rename_i receipt hlast
    have hmem : receipt ∈ receipts.filter Receipt.proposes := List.mem_of_getLast? hlast
    rw [List.mem_filter] at hmem
    obtain ⟨c, hc⟩ := h receipt hmem.1 hmem.2
    exact ⟨some c, by rw [hc, ok_map]⟩

/-- A contract replaces the one before it, so only the last one counts. -/
theorem contractStep_eq_ok_iff :
    receipts.foldlM (contractStep sha256 request) contract = .ok contract' ↔
      ContractsValid sha256 request receipts
        ∧ lastContract sha256 request contract receipts = .ok contract' := by
  induction receipts using List.reverseRecOn generalizing contract' with
  | nil => simp [ContractsValid, lastContract]
  | append_singleton receipts receipt ih =>
      rw [List.foldlM_append, bind_eq_ok_iff, contractsValid_append, lastContract_append]
      simp only [List.foldlM_cons, List.foldlM_nil, bind_pure, ih, contractStep]
      cases hproposes : receipt.proposes with
      | false => simp
      | true =>
          simp only [if_true, true_imp_iff]
          constructor
          · rintro ⟨t, ⟨hvalid, -⟩, hcreate⟩
            obtain ⟨c, hc, -⟩ := map_eq_ok_iff.mp hcreate
            exact ⟨⟨hvalid, c, hc⟩, hcreate⟩
          · rintro ⟨⟨hvalid, -⟩, hcreate⟩
            obtain ⟨t, ht⟩ := hvalid.exists_last
            exact ⟨t, ⟨hvalid, ht⟩, hcreate⟩

end Contract

end Inert

end LingxiOS
