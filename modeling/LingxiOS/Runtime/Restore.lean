-- SUMMARY: How restoreSession answers a call of the stored history that has no output.
import LingxiOS.ControlPlane.Recover
import LingxiOS.Runtime.Receipts

/-! # Restoring a Call

`restoreSession` looks for the calls of the stored history that have no output.
Each one is answered from its completed step, or from its recorded actions, or by
running a safe direct tool; a call it cannot answer is an error. -/

namespace LingxiOS

/-! ## Pending calls -/

/-- `pendingCalls.set(item.callId, item)`, `pendingCalls.delete(item.callId)`. -/
def trackCall (pending : JsMap String FunctionCall) : ModelItem → JsMap String FunctionCall
  | .message _ _ => pending
  | .functionCall call => pending.set call.callId call
  | .functionCallOutput callId _ => pending.delete callId

/-- The calls of a history that no later output answers. -/
def pendingCalls (history : List ModelItem) : JsMap String FunctionCall :=
  history.foldl trackCall .empty

/-! ## One call -/

/-- What one attempt sees while it restores a call: the durable state of its work,
    the tools of its context, and what running an action gives. -/
structure RestoreEnv where
  sha256 : String → String
  work : TurnWork
  fence : Nat
  steps : StepStore
  ledger : ActionLedger
  steer : Nat
  /-- The tools the service knows, and the ones of the turn context. -/
  serviceTools : List ToolDefinition
  contextTools : List ToolDefinition
  execute : HostAction → Except Failure HostActionResult

structure RestoredCall where
  request : Option RequestSnapshot
  output : ToolOutput
  artifacts : List KernelArtifact

/-- `call.stepId ?? callId`. -/
def FunctionCall.cellId (call : FunctionCall) : String := call.stepId.getD call.callId

/-- The action of a direct tool call; its arguments must be an object. -/
def directAction (work : TurnWork) (call : FunctionCall) (action : String) :
    Except Failure HostAction :=
  match call.arguments.parsed with
  | some (.obj args) =>
      .ok ⟨work.id, call.cellId, 0, action, args, actionKeyOf work.id call.cellId 0⟩
  | some _ => .error (.controlPlane ⟨400, "invalid host action envelope", none⟩)
  | none => .error (.error "invalid JSON")

/-- The receipts a call without a completed step is answered from. -/
def cellReceipts (env : RestoreEnv) (request : Option RequestSnapshot) (call : FunctionCall) :
    Except Failure (List Receipt) := do
  let recovered ← recoverCell env.work env.serviceTools env.execute request env.steer env.ledger
    call.cellId
  match recovered.getD [] with
  | [] =>
      match (env.contextTools.find? (fun tool => tool.name == call.name)).filter
          ToolDefinition.isSafe with
      | none => return []
      | some tool =>
          let action ← directAction env.work call tool.action
          let result ← env.execute action
          return [⟨tool.action, action.idempotencyKey, result⟩]
  | receipts => return receipts

/-- The artifacts of the successful receipts. -/
def receiptArtifacts (receipts : List Receipt) : List KernelArtifact :=
  receipts.flatMap (fun receipt => if receipt.result.ok then receipt.result.artifacts else [])

def recoveredBody (receipts : List Receipt) : ToolBody where
  fields := [("recovered", .bool true), ("localExecutionOutput", .str "not_recovered")]
  receipts := some receipts

/-- The answer from the receipts found. It folds none of them into the request. -/
def answerFrom (request : Option RequestSnapshot) (receipts : List Receipt) :
    Except Failure RestoredCall := do
  if receipts.isEmpty then
    throw (.error "unresolved tool execution checkpoint; reconcile before continuing")
  if receipts.any (fun receipt => receipt.result.isUnknown)
      && receipts.any (fun receipt => receipt.result.defers) then
    throw (.error ("cell continued after a terminal action with an unknown outcome; "
      ++ "reconcile before continuing"))
  return ⟨request, boundedToolOutput (recoveredBody receipts), receiptArtifacts receipts⟩

/-- The answer from recorded actions. -/
def restoreFromLedger (env : RestoreEnv) (request : Option RequestSnapshot) (call : FunctionCall) :
    Except Failure RestoredCall := do
  let receipts ← cellReceipts env request call
  answerFrom request receipts

/-- The answer from a completed step, whose stored output is replayed. -/
def restoreFromStep (env : RestoreEnv) (request : Option RequestSnapshot) (output : ToolOutput)
    (artifacts : List KernelArtifact) : Except Failure RestoredCall := do
  let request ← orError (output.receipts.foldlM (replayReceipt env.sha256) request)
  return ⟨request, output, artifacts⟩

/-- One pending call of `restoreSession`, of a session saved with `request`. -/
def restoreCall (env : RestoreEnv) (request : Option RequestSnapshot) (call : FunctionCall) :
    Except Failure RestoredCall := do
  match ← recoverStep env.work env.fence request env.steps call.cellId with
  | some (output, artifacts) => restoreFromStep env request output artifacts
  | none => restoreFromLedger env request call

end LingxiOS
