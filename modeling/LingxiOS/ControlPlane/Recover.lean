-- SUMMARY: What the control plane gives back of a call.
import LingxiOS.Context.Artifacts
import LingxiOS.ControlPlane.Failure
import LingxiOS.Ledger.Ledger
import LingxiOS.Ledger.Steps

/-! # Recovering a Call

A call without an output in the session history may have left a completed step,
or only receipts in the action ledger. `recoverStep` and `recoverCell` look them
up under the version of the request saved in the session. -/

namespace LingxiOS

/-- The identity of an intent is the one of the work. -/
def ActionIntent.ownedBy (intent : ActionIntent) (work : TurnWork) : Bool :=
  intent.tenantId == work.tenantId && intent.principalId == work.principalId
    && intent.agentId == work.agentId && intent.sessionId == work.sessionId
    && intent.threadId == work.threadId

/-- The saved request, if it is the one of the work. -/
def ownRequest (work : TurnWork) (request : Option RequestSnapshot) : Option RequestSnapshot :=
  request.filter (fun request => request.workId == work.id)

def checkCellId (cellId : String) : Except Failure Unit :=
  if cellId.isEmpty || 512 < Text.length cellId then .error (.controlPlane ⟨400, "invalid cellId", none⟩)
  else .ok ()

/-! ## Steps -/

/-- A completed step of an earlier attempt under the current version of the request. -/
def recoverStep (work : TurnWork) (fence : Nat) (request : Option RequestSnapshot)
    (steps : StepStore) (cellId : String) :
    Except Failure (Option (ToolOutput × List KernelArtifact)) := do
  checkCellId cellId
  match ownRequest work request with
  | none => return none
  | some request =>
      if fence ≤ 1 then return none
      match steps.get work.id cellId request.requestVersion with
      | none => return none
      | some step =>
          match step.output with
          | none => return none
          | some output =>
              let artifacts ← orError (snapshotArtifacts step.artifacts)
              return some (output, artifacts)

/-! ## Cells -/

/-- The version the actions of a cell are looked up under. -/
def cellVersion (work : TurnWork) (request : Option RequestSnapshot) (steer : Nat) : Nat :=
  match if work.meta_.text.isSome then ownRequest work request else none with
  | some request => request.requestVersion
  | none => steer + 1

/-- `tool.effect` is one of those that are safe to run again. -/
def ToolDefinition.isSafe (tool : ToolDefinition) : Bool :=
  match tool.effect with
  | .read | .transaction | .idempotent => true
  | .uncertain => false

def unknownReceipt : HostActionResult where
  ok := false
  executionState := some .unknown
  error := some "action intent has no receipt; reconciliation required"

/-- The result of a recorded action; one without a receipt is run again if it is safe. -/
def recoverRecord (tools : List ToolDefinition) (execute : HostAction → Except Failure HostActionResult)
    (record : ActionLedger.CellRecord) : Except Failure HostActionResult :=
  match record.result with
  | some result => .ok result
  | none =>
      if (tools.find? (fun tool => tool.action == record.intent.action.action)).any ToolDefinition.isSafe then
        execute record.intent.action
      else .ok unknownReceipt

/-- The receipts of a cell's records, which must be its calls from `index` on. -/
def recoverRecords (work : TurnWork) (tools : List ToolDefinition)
    (execute : HostAction → Except Failure HostActionResult) (index : Nat) :
    List ActionLedger.CellRecord → Except Failure (List Receipt)
  | [] => .ok []
  | record :: rest => do
      if !record.intent.ownedBy work || record.intent.action.callIndex ≠ index then
        throw (.controlPlane
          ⟨409, "cell action history is inconsistent", some "reconciliation_conflict"⟩)
      let result ← recoverRecord tools execute record
      let receipts ← recoverRecords work tools execute (index + 1) rest
      return ⟨record.intent.action.action, record.intent.action.idempotencyKey, result⟩ :: receipts

/-- The recorded actions of a cell, unless there are none or too many. -/
def recoverCell (work : TurnWork) (tools : List ToolDefinition)
    (execute : HostAction → Except Failure HostActionResult) (request : Option RequestSnapshot)
    (steer : Nat) (ledger : ActionLedger) (cellId : String) :
    Except Failure (Option (List Receipt)) := do
  checkCellId cellId
  let records := ledger.listCell work.id cellId (some (cellVersion work request steer))
  if records.isEmpty || 100 < records.length then return none
  let receipts ← recoverRecords work tools execute 0 records
  return some receipts

end LingxiOS
