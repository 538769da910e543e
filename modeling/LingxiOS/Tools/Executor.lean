-- SUMMARY: toolExecutor.execute, statement by statement.
import LingxiOS.ControlPlane.ExecuteAction

/-! # The Tool Executor

A translation of `execute` in `toolExecutor`, and of `executeAction` with it in
place. A transactional tool writes its effects and its receipt in one serializable
transaction; every other tool runs outside of one, and is marked as in flight
first when a person had to approve it. Each statement is awaited for itself. -/

namespace LingxiOS

open Program

/-- A native tool: its definition, and the parser of its arguments. -/
structure NativeTool where
  definition : ToolDefinition
  parse : JsonObject → Except String JsonObject
  /-- `maxConcurrency` of the tool's execution contract, where it has one. -/
  maxConcurrency : Option Nat := none

structure ExecutorConfig where
  sha256 : String → String
  toolContractHash : ToolDefinition → String
  tools : List NativeTool

/-- A row of `agent_approvals`. -/
structure ApprovalRow where
  preview : JsonObject
  decision : Option Bool
  toolContractHash : String

/-- What a call of the executor awaits. A connection is given where a statement
    runs in a transaction. -/
inductive NativeOp where
  /-- What `executeAction` awaits itself. -/
  | service (op : ServiceOp)
  -- connections of the pool, and their transactions
  | connect
  | begin_ (conn : Nat) (serializable : Bool)
  | setTimeouts (conn : Nat)
  | commit (conn : Nat)
  | rollback (conn : Nat)
  -- the action ledger
  | lockAction (conn : Nat) (work : TurnWork) (action : HostAction)
  | selectReceipt (conn : Nat) (key : String)
  | insertReceipt (conn : Nat) (key : String) (result : HostActionResult)
  | markInFlight (conn : Nat) (key : String) (result : HostActionResult)
  | settleInFlight (key : String) (result : HostActionResult)
  | selectIntent (conn : Option Nat) (key : String)
  -- the approvals
  | insertApproval (conn : Nat) (id key : String) (preview : JsonObject) (toolContractHash : String)
  | selectApproval (conn : Nat) (id : String)
  -- the conversation of the work, and the observation a write depends on
  | authorizeConversation (conn : Option Nat) (work : TurnWork)
  | assertObservation (conn : Option Nat) (action : HostAction) (input : JsonObject)
  | throwIfAborted
  -- the tool
  | authorize (conn : Option Nat) (action : HostAction) (input : JsonObject)
  | preview (conn : Nat) (action : HostAction) (input : JsonObject)
  /-- A slot of the tool's `ResourceQuota(maxConcurrency, 16)`. -/
  | acquire (action : String) (maxConcurrency : Nat)
  | toolExecute (conn : Option Nat) (action : HostAction) (input : JsonObject)

@[reducible] def NativeOp.Value : NativeOp → Type
  | .service op => op.Value
  | .connect => Nat
  | .selectReceipt _ _ => Option HostActionResult
  | .selectIntent _ _ => Option ActionIntent
  | .selectApproval _ _ => ApprovalRow
  | .preview _ _ _ => JsonObject
  | .toolExecute _ _ _ => HostActionResult
  | .begin_ _ _ => Unit
  | .setTimeouts _ => Unit
  | .commit _ => Unit
  | .rollback _ => Unit
  | .lockAction _ _ _ => Unit
  | .insertReceipt _ _ _ => Unit
  | .markInFlight _ _ _ => Unit
  | .settleInFlight _ _ => Unit
  | .insertApproval _ _ _ _ _ => Unit
  | .authorizeConversation _ _ => Unit
  | .assertObservation _ _ _ => Unit
  | .throwIfAborted => Unit
  | .authorize _ _ _ => Unit
  | .acquire _ _ => Unit

abbrev Native (α : Type) := Program NativeOp NativeOp.Value Failure α

abbrev NativeEvent := Program.Event NativeOp NativeOp.Value Failure

namespace Native

def await (op : NativeOp) : Native op.Value := Program.perform op

/-- `throw new NoEffectError(message, code)`. -/
def noEffect {α : Type} (message : String) (code : String := "native_rejected") : Native α :=
  .done (.error (.noEffect message code))

/-! ## Checks -/

/-- The recorded intent is of this version of the tool. -/
def assertToolContract (cfg : ExecutorConfig) (tool : NativeTool) (conn : Option Nat)
    (action : HostAction) : Native Unit := do
  let intent ← await (.selectIntent conn action.idempotencyKey)
  if !intent.any (fun intent =>
      intent.toolContractHash == some (cfg.toolContractHash tool.definition)) then
    noEffect "Tool contract is missing or changed; settle the old intent before executing"
      "tool_contract_changed"
  else pure ()

def pendingApproval (id : String) (preview : JsonObject) : HostActionResult where
  ok := false
  executionState := some .awaitingApproval
  approval := some id
  value := some (.obj [("preview", .obj preview)])

def rejectedApproval : HostActionResult where
  ok := false
  executionState := some .noEffect
  code := some "approval_rejected"
  error := some "The original principal rejected this action"

/-- What the approval of an action answers instead of its execution. The preview
    must include all mutable resource versions. -/
def approvalGate (cfg : ExecutorConfig) (tool : NativeTool) (conn : Nat) (action : HostAction)
    (input : JsonObject) : Native (Option HostActionResult) :=
  if !tool.definition.approval then pure none
  else do
    let id := cfg.sha256 action.idempotencyKey
    let preview ← await (.preview conn action input)
    if 64000 < (Json.obj preview).stringify.utf8ByteSize then
      noEffect "approval preview exceeds 64 KB"
    else do
      let contractHash := cfg.toolContractHash tool.definition
      await (.insertApproval conn id action.idempotencyKey preview contractHash)
      let approval ← await (.selectApproval conn id)
      if approval.toolContractHash ≠ contractHash then
        noEffect "Tool semantics changed; request a new preview and approval" "tool_contract_changed"
      else match approval.decision with
        | none => pure (some (pendingApproval id preview))
        | some false => pure (some rejectedApproval)
        | some true =>
            if !Json.deepEqual (.obj approval.preview) (.obj preview) then
              noEffect "approved resource changed; request a new preview" "approval_stale"
            else pure none

/-! ## Transactional tools -/

/-- The tool itself, in the transaction `conn`. -/
def run (cfg : ExecutorConfig) (tool : NativeTool) (conn : Nat) (work : TurnWork)
    (action : HostAction) (input : JsonObject) : Native HostActionResult := do
  await (.authorizeConversation (some conn) work)
  assertToolContract cfg tool (some conn) action
  await (.authorize (some conn) action input)
  await (.assertObservation (some conn) action input)
  await .throwIfAborted
  match ← approvalGate cfg tool conn action input with
  | some pending => pure pending
  | none => await (.toolExecute (some conn) action input)

/-- The effects and the receipt, up to the `COMMIT`: a result that was rolled
    back, or one whose receipt is written. -/
def writeReceipt (cfg : ExecutorConfig) (tool : NativeTool) (conn : Nat) (work : TurnWork)
    (action : HostAction) (input : JsonObject) : Native (HostActionResult ⊕ HostActionResult) := do
  await (.begin_ conn true)
  await (.setTimeouts conn)
  await (.lockAction conn work action)
  let previous ← await (.selectReceipt conn action.idempotencyKey)
  let result ← match previous.filter (fun previous => previous.approval.isNone) with
    | some previous => pure previous
    | none => run cfg tool conn work action input
  await .throwIfAborted
  if result.isUnknown then noEffect "transactional tool must return a settled result"
  else if !result.ok && result.approval.isNone then do
    await (.rollback conn)
    pure (.inl { result with executionState := some .noEffect })
  else do
    await (.insertReceipt conn action.idempotencyKey result)
    pure (.inr result)

def executeTransaction (cfg : ExecutorConfig) (tool : NativeTool) (work : TurnWork)
    (action : HostAction) (input : JsonObject) : Native HostActionResult := do
  let conn ← await .connect
  match ← (writeReceipt cfg tool conn work action input).attempt with
  | .ok (.inl refused) => pure refused
  | .ok (.inr result) => do
      -- A lost acknowledgement cannot establish rollback.
      await (.commit conn)
      pure result
  | .error failure => do
      await (.rollback conn)
      match failure with
      | .noEffect message code => noEffect message code
      | failure => noEffect failure.message "transaction_rolled_back"

/-! ## Other tools -/

def inFlight : HostActionResult where
  ok := false
  executionState := some .unknown
  code := some "external_in_flight"
  error := some "Approved external operation is in flight; reconcile before retrying"

/-- `withTransaction`. -/
def withTransaction {α : Type} (body : Nat → Native α) : Native α := do
  let conn ← await .connect
  let committed : Native α := do
    await (.begin_ conn false)
    let result ← body conn
    await (.commit conn)
    pure result
  match ← committed.attempt with
  | .ok result => pure result
  | .error failure => do
      let _ ← Program.attempt (await (.rollback conn))
      .done (.error failure)

/-- Ask for the approval under the locks of the action, and mark it as in flight
    once it is given. -/
def approve (cfg : ExecutorConfig) (tool : NativeTool) (work : TurnWork) (action : HostAction)
    (input : JsonObject) : Native (Option HostActionResult) :=
  if !tool.definition.approval then pure none
  else withTransaction (fun conn => do
    await (.lockAction conn work action)
    await (.authorize (some conn) action input)
    match ← approvalGate cfg tool conn action input with
    | some pending => pure (some pending)
    | none => do
        await (.markInFlight conn action.idempotencyKey inFlight)
        pure none)

/-- The tool under its quota, which refuses the call while its queue is full. -/
def executeQuota (tool : NativeTool) (action : HostAction) (input : JsonObject) :
    Native HostActionResult :=
  match tool.maxConcurrency with
  | none => await (.toolExecute none action input)
  | some maxConcurrency => do
      await (.acquire action.action maxConcurrency)
      await (.toolExecute none action input)

/-- The external call, and what is known of it afterwards. -/
def executeExternal (tool : NativeTool) (action : HostAction) (input : JsonObject) :
    Native HostActionResult := do
  let outcome ← (executeQuota tool action input).attempt
  let settled : Except Failure HostActionResult := match outcome with
    | .ok result => .ok result
    | .error (.noEffect message code) => .ok
        { ok := false, executionState := some .noEffect, code := some code, error := some message }
    | .error failure => .error failure
  match settled with
  | .error failure => .done (.error failure)
  | .ok result => do
      if tool.definition.approval then await (.settleInFlight action.idempotencyKey result)
      pure result

def executeOther (cfg : ExecutorConfig) (tool : NativeTool) (work : TurnWork) (action : HostAction)
    (input : JsonObject) : Native HostActionResult := do
  await (.authorizeConversation none work)
  assertToolContract cfg tool none action
  await (.authorize none action input)
  await (.assertObservation none action input)
  match ← approve cfg tool work action input with
  | some pending => pure pending
  | none => executeExternal tool action input

/-! ## Actions -/

def execute (cfg : ExecutorConfig) (work : TurnWork) (action : HostAction) :
    Native HostActionResult :=
  match cfg.tools.find? (fun tool => tool.definition.action == action.action) with
  | none => noEffect "unknown native tool" "unknown_tool"
  | some tool =>
      match tool.parse action.args with
      | .error message => .done (.error (.error message))
      | .ok input =>
          if tool.definition.effect = .transaction then
            executeTransaction cfg tool work action input
          else executeOther cfg tool work action input

/-- The executor carries out what the service asks it to execute. -/
def serve (cfg : ExecutorConfig) : (op : ServiceOp) → Native op.Value
  | .execute work action _ => execute cfg work action
  | op => await (.service op)

/-- `executeAction` with its executor in place. -/
def executeAction (service : ServiceConfig) (cfg : ExecutorConfig) (proof : LeaseProof)
    (action : HostAction) : Native ActionAnswer :=
  (Service.executeAction service proof action).interpret (serve cfg)

end Native

end LingxiOS
