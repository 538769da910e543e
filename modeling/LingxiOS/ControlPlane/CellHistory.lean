-- SUMMARY: Which cells recoverCell can give back.
import LingxiOS.Base.Increasing
import LingxiOS.ControlPlane.AtMostOnce
import LingxiOS.Kernel.HostBridge

/-! # The History of a Cell

The calls of a cell take consecutive indices, but only those that pass the checks
of `executeAction` leave an intent in the ledger. `recoverCell` expects the
recorded indices to be consecutive too. -/

namespace LingxiOS

open Program

/-! ## Whose the intents are -/

/-- The identity of a work, which never changes. -/
structure WorkIdentity where
  tenantId : String
  principalId : Option String
  agentId : String
  sessionId : String
  threadId : Option String
  deriving DecidableEq

def TurnWork.identity (work : TurnWork) : WorkIdentity :=
  ⟨work.tenantId, work.principalId, work.agentId, work.sessionId, work.threadId⟩

def ActionIntent.identity (intent : ActionIntent) : WorkIdentity :=
  ⟨intent.tenantId, intent.principalId, intent.agentId, intent.sessionId, intent.threadId⟩

theorem ActionIntent.ownedBy_iff {intent : ActionIntent} {work : TurnWork} :
    intent.ownedBy work = true ↔ intent.identity = work.identity := by
  simp [ownedBy, identity, TurnWork.identity, and_assoc]

/-- The action may be asked for beside the cell: it is one of the cell's calls, or
    of another cell. -/
def CellExecution.Sends (cell : CellExecution) (action : HostAction) : Prop :=
  action.runId = cell.runId → action.cellId = cell.cellId → action ∈ cell.actions

/-- The intent is of the work it names, and its action is one that is sent. -/
structure IntentOf (owner : String → WorkIdentity) (cell : CellExecution) (intent : ActionIntent) :
    Prop where
  run : intent.action.runId = intent.workId
  key : intent.action.idempotencyKey
    = actionKeyOf intent.action.runId intent.action.cellId intent.action.callIndex
  identity : intent.identity = owner intent.workId
  sent : cell.Sends intent.action

/-- A lease is answered with the identity of its work. -/
def LeasesOwn (owner : String → WorkIdentity) (event : ServiceEvent) : Prop :=
  match event with
  | ⟨.getLeased _, .ok (some leased)⟩ => leased.work.identity = owner leased.work.id
  | _ => True

/-- Calls of `executeAction` for any action of any work; of the cell, for its own calls only. -/
def hostCalls (owner : String → WorkIdentity) (cell : CellExecution) :
    PoolSpec ActionLedger ServiceOp ServiceOp.Value Failure ActionAnswer where
  world := fun ledger event ledger' =>
    ServiceEvent.onLedger ledger event ledger' ∧ LeasesOwn owner event
  env ledger ledger' := ledger'.intentDetails = ledger.intentDetails
  entry p := ∃ cfg proof action, cell.Sends action ∧ p = Service.executeAction cfg proof action
  start ledger := ledger = .init

/-! ## What is reserved -/

/-- Only intents of their own work are reserved. -/
def ownIntents (owner : String → WorkIdentity) (cell : CellExecution) :
    Monitor ServiceOp ServiceOp.Value Failure Unit where
  allows _ op := match op with
    | .reserve _ _ intent => IntentOf owner cell intent
    | _ => True
  trusts _ event := LeasesOwn owner event
  next _ _ := ()

namespace Service

section Intents

variable {owner : String → WorkIdentity} {cell : CellExecution} {cfg : ServiceConfig}
  {action : HostAction} {admitted : Admitted} {m : Unit}

theorem checks_intents : AllowsChecks (ownIntents owner cell) (fun _ => True) := by
  intro m op answer _ hop
  refine ⟨?_, trivial⟩
  cases op with
  | reserve key fingerprint intent => cases hop
  | _ => trivial

theorem reject_intents : AllowsRefusals (ownIntents owner cell) (fun _ => True) action :=
  refusals_of_record (fun _ _ _ => ⟨trivial, trivial⟩) (fun _ _ _ _ _ => ⟨trivial, trivial⟩)

theorem reads_intents : AllowsReads (ownIntents owner cell) (fun _ => True) where
  lookup := by
    intro m op answer _ hop
    refine ⟨?_, trivial⟩
    cases op with
    | reserve key fingerprint intent => cases hop
    | _ => trivial
  resolution _ _ _ _ := ⟨trivial, trivial⟩

/-- Running an action reserves nothing. -/
theorem runAction_intents : (runAction admitted action).Obeys (ownIntents owner cell)
    (fun _ _ => True) m := by
  unfold runAction
  apply Obeys.bind
  apply Obeys.attempt
  have hdispatch : (dispatch admitted action).Obeys (ownIntents owner cell) (fun _ _ => True) m := by
    unfold dispatch
    split
    · exact Obeys.perform trivial (fun _ _ => trivial)
    · exact Obeys.perform trivial (fun _ _ => trivial)
  apply Obeys.mono hdispatch
  intro _ outcome _
  apply Obeys.perform_bind trivial
  · intro _ _
    trivial
  · intro _ _
    trivial

/-- Whatever a call reserves is of the work its lease is for. -/
theorem executeAction_intents {proof : LeaseProof} (hsends : cell.Sends action) :
    (executeAction cfg proof action).Obeys (ownIntents owner cell) (fun _ _ => True) m := by
  unfold executeAction
  apply Obeys.bind
  apply Obeys.mono (checkAction_obeys_of
    (Q := fun leased => leased.work.identity = owner leased.work.id)
    checks_intents reject_intents trivial (fun _ _ htrust => htrust))
  rintro m outcome ⟨-, hadmitted⟩
  cases outcome with
  | error e => trivial
  | ok admission =>
      cases admission with
      | inl answer => trivial
      | inr admitted =>
          obtain ⟨leased, -, howned, hwork, hvalid, -⟩ := hadmitted admitted rfl
          simp only [HostAction.validEnvelope, Bool.and_eq_true, beq_iff_eq] at hvalid
          obtain ⟨⟨⟨⟨-, hrun⟩, -⟩, -⟩, hkey⟩ := hvalid
          have hintent : IntentOf owner cell (newIntent cfg admitted action) := by
            constructor
            · simpa [newIntent, hwork] using hrun
            · exact hkey
            · simpa [newIntent, ActionIntent.identity, TurnWork.identity, hwork] using howned
            · exact hsends
          exact settleAdmitted_obeys reads_intents reject_intents
            (fun _ _ _ _ _ => ⟨hintent, trivial⟩) (fun _ _ => runAction_intents) trivial

end Intents

end Service
/-! ## What is recorded -/

/-- Every intent is recorded under its own key, of its own work, and one that is sent. -/
def OwnIntents (owner : String → WorkIdentity) (cell : CellExecution) (ledger : ActionLedger) :
    Prop :=
  ∀ key intent, ledger.intentDetails.get? key = some intent →
    key = intent.action.idempotencyKey ∧ IntentOf owner cell intent

section Recorded

variable {owner : String → WorkIdentity} {cell : CellExecution} {ledger ledger' : ActionLedger}

theorem OwnIntents.reserve {key fingerprint : String} {intent : ActionIntent}
    (h : OwnIntents owner cell ledger) (hintent : IntentOf owner cell intent) :
    OwnIntents owner cell (ledger.reserve key fingerprint intent).2 := by
  unfold ActionLedger.reserve
  split
  · exact h
  · rename_i hkey
    split
    · split
      · exact h
      · exact h
    · intro k recorded hrecorded
      rw [JsMap.get?_set] at hrecorded
      split at hrecorded
      · rename_i hsame
        cases hrecorded
        exact ⟨hsame.trans (not_not.1 hkey).symm, hintent⟩
      · exact h k recorded hrecorded

theorem intentDetails_record (ledger : ActionLedger) (key : String) (result : HostActionResult) :
    (ledger.record key result).2.intentDetails = ledger.intentDetails := by
  unfold ActionLedger.record
  split
  · rfl
  · split
    · split
      · rfl
      · rfl
    · rfl

theorem intentDetails_recordResolution (ledger : ActionLedger) (resolution : ActionResolution) :
    (ledger.recordResolution resolution).2.intentDetails = ledger.intentDetails := by
  unfold ActionLedger.recordResolution
  split
  · rfl
  · split
    · split
      · rfl
      · rfl
    · rfl

/-- Only a reservation records an intent. -/
theorem OwnIntents.event {event : ServiceEvent} (h : OwnIntents owner cell ledger)
    (hworld : ServiceEvent.onLedger ledger event ledger')
    (hallows : (ownIntents owner cell).allows () event.op) : OwnIntents owner cell ledger' := by
  obtain ⟨op, answer⟩ := event
  cases op with
  | reserve key fingerprint intent =>
      have hreserved : OwnIntents owner cell (ledger.reserve key fingerprint intent).2 :=
        h.reserve hallows
      simp only [ServiceEvent.onLedger, ServiceOp.onLedger] at hworld
      rcases hworld with ⟨-, rfl⟩ | ⟨-, rfl | rfl⟩
      · exact hreserved
      · exact h
      · exact hreserved
  | record key result =>
      have hrecorded : OwnIntents owner cell (ledger.record key result).2 := by
        unfold OwnIntents
        rw [intentDetails_record]
        exact h
      simp only [ServiceEvent.onLedger, ServiceOp.onLedger] at hworld
      rcases hworld with ⟨-, rfl⟩ | ⟨-, rfl | rfl⟩
      · exact hrecorded
      · exact h
      · exact hrecorded
  | recordResolution resolution =>
      have hresolved : OwnIntents owner cell (ledger.recordResolution resolution).2 := by
        unfold OwnIntents
        rw [intentDetails_recordResolution]
        exact h
      simp only [ServiceEvent.onLedger, ServiceOp.onLedger] at hworld
      rcases hworld with ⟨-, rfl⟩ | ⟨-, rfl | rfl⟩
      · exact hresolved
      · exact h
      · exact hresolved
  | findIntent | find | unsettled =>
      simp only [ServiceEvent.onLedger, ServiceOp.onLedger] at hworld
      rcases hworld with ⟨-, rfl⟩ | ⟨-, rfl | rfl⟩ <;> exact h
  | _ =>
      simp only [ServiceEvent.onLedger, ServiceOp.onLedger] at hworld
      subst hworld
      exact h

/-- In every state of the pool, the ledger and the calls under way keep to their works. -/
structure KeepsIntents (owner : String → WorkIdentity) (cell : CellExecution) (s : ActionPool) :
    Prop where
  recorded : OwnIntents owner cell s.shared
  keeps : s.Each (fun _ call => call.Obeys (ownIntents owner cell) (fun _ _ => True) ())

theorem KeepsIntents.step {s s' : ActionPool} {label : ActionPoolStep}
    (h : KeepsIntents owner cell s) (hstep : (hostCalls owner cell).system.step s label s') :
    KeepsIntents owner cell s' := by
  constructor
  · cases label with
    | begin entry =>
        obtain ⟨-, rfl⟩ := hstep
        exact h.recorded
    | step index event =>
        obtain ⟨trace, next, hget, ⟨hworld, -⟩, -⟩ := hstep
        exact h.recorded.event hworld (h.keeps index _ hget).1
    | other =>
        obtain ⟨hsame, -⟩ := hstep
        have hdetails : s'.shared.intentDetails = s.shared.intentDetails := hsame
        unfold OwnIntents
        rw [hdetails]
        exact h.recorded
  · apply Pool.Each.step h.keeps hstep
    · rintro entry ⟨cfg, proof, action, hsends, rfl⟩
      exact Service.executeAction_intents hsends
    · rintro index event trace next - hcall ⟨-, htrust⟩
      exact hcall.step htrust

theorem keepsIntents_of_reachable {s : ActionPool}
    (h : (hostCalls owner cell).system.Reachable s) : KeepsIntents owner cell s := by
  apply TransitionSystem.Reachable.invariant (I := KeepsIntents owner cell) _ _ h
  · rintro s ⟨hcalls, hledger⟩
    constructor
    · rw [hledger]
      intro key intent hintent
      cases hintent
    · intro index call hget
      rw [hcalls] at hget
      cases hget
  · intro s label s' hs hstep
    exact hs.step hstep

end Recorded

/-! ## The listed records -/

/-- The index of the call a record is of. -/
def ActionLedger.CellRecord.callIndex (record : ActionLedger.CellRecord) : Nat :=
  record.intent.action.callIndex

section Listed

variable {owner : String → WorkIdentity} {cell : CellExecution} {ledger : ActionLedger}
  {workId cellId : String} {version : Option Nat}

/-- What `listCell` selects. -/
theorem mem_listCell {record : ActionLedger.CellRecord}
    (h : record ∈ ledger.listCell workId cellId version) :
    ∃ key, ledger.intentDetails.get? key = some record.intent ∧ record.intent.workId = workId
      ∧ record.intent.action.cellId = cellId := by
  unfold ActionLedger.listCell at h
  obtain ⟨entry, hentry, rfl⟩ := List.mem_map.1 h
  rw [List.mem_insertionSort] at hentry
  obtain ⟨hmem, hselected⟩ := List.mem_filter.1 hentry
  simp only [Bool.and_eq_true, beq_iff_eq] at hselected
  exact ⟨entry.1, JsMap.get?_eq_some_iff.2 hmem, hselected.1.1, hselected.1.2⟩

/-- The listed records are in call order, one for each call. -/
theorem listCell_increasing (h : OwnIntents owner cell ledger) :
    (ledger.listCell workId cellId version).Pairwise (fun a b => a.callIndex < b.callIndex) := by
  unfold ActionLedger.listCell
  dsimp only
  rw [List.pairwise_map]
  set found := ledger.intentDetails.entries.filter (fun entry =>
    entry.2.workId == workId && entry.2.action.cellId == cellId
      && entry.2.requestVersion == version) with hfound
  have hsorted := List.pairwise_insertionSort
    (fun a b : String × ActionIntent => a.2.action.callIndex ≤ b.2.action.callIndex) found
  -- Two calls of one cell with one index would have one key.
  have hdistinct : found.Pairwise
      (fun a b => a.2.action.callIndex ≠ b.2.action.callIndex) := by
    have hkeys : ledger.intentDetails.entries.Pairwise (fun a b => a.1 ≠ b.1) :=
      List.pairwise_map.1 ledger.intentDetails.nodup
    apply List.Pairwise.imp_of_mem _ (hkeys.filter _)
    intro a b ha hb hne hindex
    obtain ⟨hmema, hsela⟩ := List.mem_filter.1 ha
    obtain ⟨hmemb, hselb⟩ := List.mem_filter.1 hb
    simp only [Bool.and_eq_true, beq_iff_eq] at hsela hselb
    obtain ⟨hkeya, howna⟩ := h a.1 a.2 (JsMap.get?_eq_some_iff.2 hmema)
    obtain ⟨hkeyb, hownb⟩ := h b.1 b.2 (JsMap.get?_eq_some_iff.2 hmemb)
    apply hne
    rw [hkeya, hkeyb, howna.key, hownb.key, howna.run, hownb.run, hsela.1.1, hselb.1.1,
      hsela.1.2, hselb.1.2, hindex]
  have hperm := (List.perm_insertionSort
    (fun a b : String × ActionIntent => a.2.action.callIndex ≤ b.2.action.callIndex) found).symm
  have hdistinct' := hperm.pairwise hdistinct (fun hne => hne.symm)
  exact (hsorted.and hdistinct').imp fun hboth => lt_of_le_of_ne hboth.1 hboth.2

end Listed

/-! ## Recovering a cell -/

/-- The receipt of a recorded call. -/
def receiptOf (tools : List ToolDefinition) (execute : HostAction → Except Failure HostActionResult)
    (record : ActionLedger.CellRecord) : Except Failure Receipt := do
  let result ← recoverRecord tools execute record
  return ⟨record.intent.action.action, record.intent.action.idempotencyKey, result⟩

section Recover

variable {work : TurnWork} {tools : List ToolDefinition}
  {execute : HostAction → Except Failure HostActionResult} {index : Nat}
  {records : List ActionLedger.CellRecord}

/-- Consecutive records of the work are all given back. -/
theorem recoverRecords_eq (howned : ∀ record ∈ records, record.intent.ownedBy work = true)
    (h : Increasing.Consecutive ActionLedger.CellRecord.callIndex index records) :
    recoverRecords work tools execute index records = records.mapM (receiptOf tools execute) := by
  induction records generalizing index with
  | nil => rfl
  | cons record rest ih =>
      obtain ⟨hindex, hrest⟩ := h
      have hindex' : record.intent.action.callIndex = index := hindex
      have htail := ih (fun r hr => howned r (List.mem_cons_of_mem record hr)) hrest
      unfold recoverRecords
      rw [howned record List.mem_cons_self, List.mapM_cons]
      simp only [Bool.not_true, hindex', ne_eq, not_true_eq_false, decide_false, Bool.or_self,
        Bool.false_eq_true, if_false, htail, receiptOf]
      cases recoverRecord tools execute record with
      | error e => rfl
      | ok result => rfl

/-- What is given back was consecutive. -/
theorem consecutive_of_recoverRecords {receipts : List Receipt}
    (h : recoverRecords work tools execute index records = .ok receipts) :
    Increasing.Consecutive ActionLedger.CellRecord.callIndex index records := by
  induction records generalizing index receipts with
  | nil => trivial
  | cons record rest ih =>
      unfold recoverRecords at h
      split at h
      · cases h
      · rename_i hconsistent
        simp only [Bool.or_eq_true, decide_eq_true_eq, not_or, not_not] at hconsistent
        obtain ⟨_, -, hrest⟩ := Except.bind_ok h
        obtain ⟨receipts, hreceipts, -⟩ := Except.bind_ok hrest
        exact ⟨hconsistent.2, ih hreceipts⟩

/-- When every call that is run again answers, every record has its receipt. -/
theorem mapM_receiptOf_eq_ok (hanswers : ∀ action, ∃ result, execute action = .ok result)
    (records : List ActionLedger.CellRecord) :
    ∃ receipts, records.mapM (receiptOf tools execute) = .ok receipts := by
  induction records with
  | nil => exact ⟨[], rfl⟩
  | cons record rest ih =>
      obtain ⟨receipts, hreceipts⟩ := ih
      have hreceipt : ∃ receipt, receiptOf tools execute record = .ok receipt := by
        obtain ⟨rerun, hrerun⟩ := hanswers record.intent.action
        unfold receiptOf recoverRecord
        cases record.result with
        | some result => exact ⟨_, rfl⟩
        | none =>
            dsimp only
            split
            · rw [hrerun]
              exact ⟨_, rfl⟩
            · exact ⟨_, rfl⟩
      obtain ⟨receipt, hreceipt⟩ := hreceipt
      exact ⟨receipt :: receipts, by simp [List.mapM_cons, hreceipt, hreceipts]⟩

end Recover

/-- The recorded calls of a cell, in the order the cell made them. -/
def recordedCalls (ledger : ActionLedger) (cell : CellExecution) (version : Nat) :
    List ActionLedger.CellRecord :=
  cell.actions.filterMap (fun action =>
    (ledger.listCell cell.runId cell.cellId (some version)).find?
      (fun record => record.callIndex == action.callIndex))

/-- The receipts of the recorded calls, if there are any. -/
def recordedReceipts (tools : List ToolDefinition)
    (execute : HostAction → Except Failure HostActionResult)
    (records : List ActionLedger.CellRecord) : Except Failure (Option (List Receipt)) :=
  if records.isEmpty then .ok none else (records.mapM (receiptOf tools execute)).map some

/-- The recorded calls of the cell are given back in call order, whatever a call
    that is run again answers. -/
def RecoversCell (work : TurnWork) (tools : List ToolDefinition) (request : Option RequestSnapshot)
    (steer : Nat) (ledger : ActionLedger) (cell : CellExecution) : Prop :=
  ∀ execute, recoverCell work tools execute request steer ledger cell.cellId
    = recordedReceipts tools execute (recordedCalls ledger cell (cellVersion work request steer))

/-- Every call of the cell up to a recorded one is recorded. -/
def LeavesNoGap (ledger : ActionLedger) (cell : CellExecution) (version : Nat) : Prop :=
  Increasing.Gapless ActionLedger.CellRecord.callIndex 0
    (ledger.listCell cell.runId cell.cellId (some version))

section Main

variable {owner : String → WorkIdentity} {cell : CellExecution} {ledger : ActionLedger}

/-- The records that are listed are the recorded calls. -/
theorem recordedCalls_eq (h : OwnIntents owner cell ledger) (version : Nat) :
    recordedCalls ledger cell version = ledger.listCell cell.runId cell.cellId (some version) := by
  apply Increasing.filterMap_find? (listCell_increasing h) cell.actions_increasing
  intro record hrecord
  obtain ⟨key, hget, hwork, hcell⟩ := mem_listCell hrecord
  obtain ⟨-, hown⟩ := h key record.intent hget
  exact ⟨record.intent.action, hown.sent (hown.run.trans hwork) hcell, rfl⟩

/-- A cell records no more calls than it makes. -/
theorem length_listCell_le (h : OwnIntents owner cell ledger) (version : Nat) :
    (ledger.listCell cell.runId cell.cellId (some version)).length ≤ cell.callCount := by
  rw [← recordedCalls_eq h version]
  have hrecorded := List.length_filterMap_le (fun action : HostAction =>
    (ledger.listCell cell.runId cell.cellId (some version)).find?
      (fun record => record.callIndex == action.callIndex)) cell.actions
  have hmade := cell.length_actions_le
  unfold recordedCalls
  omega

/-- In every state that calls of `executeAction` lead to, `recoverCell` gives the
    recorded calls of a cell of at most 100 calls back, in call order, if and only
    if the id of the cell is one it takes and the recorded calls leave no gap. -/
theorem recoverCell_recovers_iff {s : ActionPool}
    (hreach : (hostCalls owner cell).system.Reachable s) (hcount : cell.callCount ≤ 100)
    {work : TurnWork} (hwork : work.id = cell.runId) (hidentity : work.identity = owner work.id)
    (tools : List ToolDefinition) (request : Option RequestSnapshot) (steer : Nat) :
    RecoversCell work tools request steer s.shared cell ↔ checkCellId cell.cellId = .ok () ∧
      LeavesNoGap s.shared cell (cellVersion work request steer) := by
  have hown := (keepsIntents_of_reachable hreach).recorded
  set version := cellVersion work request steer with hversion
  set records := s.shared.listCell cell.runId cell.cellId (some version) with hrecords
  have hrecorded : recordedCalls s.shared cell version = records := recordedCalls_eq hown version
  have hlength : records.length ≤ 100 := (length_listCell_le hown version).trans hcount
  have howned : ∀ record ∈ records, record.intent.ownedBy work = true := by
    intro record hrecord
    obtain ⟨key, hget, hrun, -⟩ := mem_listCell hrecord
    obtain ⟨-, hintent⟩ := hown key record.intent hget
    rw [ActionIntent.ownedBy_iff, hintent.identity, hrun, ← hwork, hidentity]
  -- Without a gap means consecutive, since the records are in call order.
  have hconsecutive : LeavesNoGap s.shared cell version
      ↔ Increasing.Consecutive ActionLedger.CellRecord.callIndex 0 records :=
    (Increasing.consecutive_iff_gapless (listCell_increasing hown)
      (fun _ _ => Nat.zero_le _)).symm
  have hrecover : ∀ execute, checkCellId cell.cellId = .ok () → records.isEmpty = false →
      recoverCell work tools execute request steer s.shared cell.cellId
        = (recoverRecords work tools execute 0 records).map some := by
    intro execute hcell hsome
    unfold recoverCell
    rw [hcell, hwork, ← hversion, ← hrecords]
    simp only [Except.ok_bind, hsome, Bool.false_or, hlength, decide_eq_true_eq, Nat.not_lt,
      if_neg]
    rfl
  constructor
  · intro hrecovers
    -- Let every call that is run again answer: then something is given back.
    have hreceipts : ∃ receipts,
        records.mapM (receiptOf tools fun _ => .ok unknownReceipt) = .ok receipts :=
      mapM_receiptOf_eq_ok (fun _ => ⟨_, rfl⟩) records
    obtain ⟨receipts, hreceipts⟩ := hreceipts
    have hanswered : ∃ recovered, recoverCell work tools (fun _ => .ok unknownReceipt) request steer
        s.shared cell.cellId = .ok recovered := by
      rw [hrecovers, hrecorded]
      unfold recordedReceipts
      rw [hreceipts]
      split
      · exact ⟨_, rfl⟩
      · exact ⟨_, rfl⟩
    obtain ⟨recovered, hanswered⟩ := hanswered
    have hcell : checkCellId cell.cellId = .ok () := by
      unfold recoverCell at hanswered
      obtain ⟨_, hcell, -⟩ := Except.bind_ok hanswered
      exact hcell
    refine ⟨hcell, hconsecutive.2 ?_⟩
    cases hempty : records.isEmpty with
    | true =>
        rw [List.isEmpty_iff.1 hempty]
        trivial
    | false =>
        rw [hrecover _ hcell hempty] at hanswered
        obtain ⟨receipts, hrecovered, -⟩ := Except.map_eq_ok_iff.1 hanswered
        exact consecutive_of_recoverRecords hrecovered
  · rintro ⟨hcell, hgap⟩ execute
    rw [hrecorded]
    unfold recordedReceipts
    cases hempty : records.isEmpty with
    | true =>
        unfold recoverCell
        rw [hcell, hwork, ← hversion, ← hrecords]
        simp [hempty]
    | false =>
        rw [hrecover execute hcell hempty, recoverRecords_eq howned (hconsecutive.1 hgap)]
        rfl

end Main

/-! ### A payment after a call that was denied -/

section Trial

/-- A cell that makes these calls. -/
private def trialCell (actions : List String) : CellExecution where
  executionId := "e"
  runId := "w"
  cellId := "c"
  attempts := actions.map (fun action => ⟨action, some [], none⟩)

/-- Every call of the cell, one after the other. -/
private def trialMoves (cell : CellExecution) : List PayMove :=
  cell.actions.zipIdx.flatMap (fun call =>
    .begin (Service.executeAction payConfig payProof call.1) :: List.replicate 10 (.step call.2))

private def trialPool (cell : CellExecution) : ActionPool :=
  (Pool.play payHandler ⟨.init, []⟩ (trialMoves cell)).2

private theorem trialPool_reachable (cell : CellExecution) :
    (hostCalls (fun _ => payWork.identity) cell).system.Reachable (trialPool cell) := by
  refine ⟨⟨.init, []⟩, _, ⟨rfl, rfl⟩, Pool.run_of_play ?_ ?_⟩
  · intro ledger op
    refine ⟨payHandler_world ledger op, ?_⟩
    cases op <;> first | rfl | trivial
  · intro entry hentry
    obtain ⟨call, hcall, hmem⟩ := List.mem_flatMap.1 hentry
    rcases List.mem_cons.1 hmem with heq | hmem
    · cases heq
      exact ⟨payConfig, payProof, call.1, fun _ _ => (List.mem_zipIdx hcall).2.2 ▸ List.getElem_mem _,
        rfl⟩
    · cases List.eq_of_mem_replicate hmem

/-- What recovering the cell fails with, when a call that is run again answers. -/
private def trialFailure (cell : CellExecution) : Option String :=
  match recoverCell payWork payConfig.tools (fun _ => .ok unknownReceipt) none 0
      (trialPool cell).shared cell.cellId with
  | .ok _ => none
  | .error failure => some failure.message

/-- A cell whose first call was denied, and whose second one was executed and
    recorded, cannot be recovered. -/
theorem denied_call_blocks_recovery : ∃ (cell : CellExecution) (s : ActionPool) (failure : Failure),
    (hostCalls (fun _ => payWork.identity) cell).system.Reachable s ∧ cell.callCount ≤ 100 ∧
      (recordedCalls s.shared cell 1).length = 1 ∧
      recoverCell payWork payConfig.tools (fun _ => .ok unknownReceipt) none 0 s.shared cell.cellId
        = .error failure ∧ failure.message = "cell action history is inconsistent" := by
  have hfailure : trialFailure (trialCell ["mail.send", "pay.send"])
      = some "cell action history is inconsistent" := by decide +kernel
  unfold trialFailure at hfailure
  split at hfailure
  · cases hfailure
  · rename_i failure hrecovered
    exact ⟨_, _, failure, trialPool_reachable _, by decide +kernel, by decide +kernel, hrecovered,
      Option.some.inj hfailure⟩

/-- The cell that only made its payment is recovered. -/
theorem recoverCell_recovers_iff_paid :
    (recordedCalls (trialPool (trialCell ["pay.send"])).shared (trialCell ["pay.send"]) 1).length = 1
      ∧ RecoversCell payWork payConfig.tools none 0 (trialPool (trialCell ["pay.send"])).shared
        (trialCell ["pay.send"]) := by
  refine ⟨by decide +kernel, ?_⟩
  apply (recoverCell_recovers_iff (trialPool_reachable _) (by decide +kernel) rfl rfl
    payConfig.tools none 0).2
  refine ⟨by rfl, Increasing.Consecutive.gapless ?_⟩
  decide +kernel

end Trial

end LingxiOS
