-- SUMMARY: executeAction: checks, reservation, execution, receipt.
import LingxiOS.ControlPlane.Awaits
import LingxiOS.Tools.Catalog

/-! # Executing a Host Action

`executeAction` checks who asks and for what, replays a recorded receipt, and
otherwise reserves the action under its key before it runs it. An action that may
have run already is read back from the product instead. -/

namespace LingxiOS

structure ServiceConfig where
  sha256 : String → String
  tools : List ToolDefinition
  toolContractHash : ToolDefinition → String

/-- What `executeAction` returns, and where it stopped: at the authorization, identity
    and argument checks, at the gate on other unsettled actions, or at the ledger. -/
inductive ActionAnswer where
  | refused (result : HostActionResult)
  | blocked (result : HostActionResult)
  | answered (result : HostActionResult)

/-! ## Pieces -/

/-- `[namespace, method] = action.split('.')`, both of them non-empty. -/
def splitAction (action : String) : Option (String × String) :=
  match action.toList.splitOn '.' with
  | [namespace_, method] =>
      if namespace_.isEmpty || method.isEmpty then none
      else some (String.ofList namespace_, String.ofList method)
  | _ => none

def CapabilityGrant.permits (grant : CapabilityGrant) (method : String) : Bool :=
  grant.methods.all (fun methods => methods.contains method)

/-- A captured request has the task tools even when no grant names them. -/
def taskGrant : CapabilityGrant where
  name := "task"
  methods := some (TASK_TOOLS.filterMap (fun tool => (splitAction tool.action).map Prod.snd))

def findGrant (work : TurnWork) (grants : List CapabilityGrant) (namespace_ : String) :
    Option CapabilityGrant :=
  let found := grants.find? (fun grant => grant.name == namespace_)
  if namespace_ == "task" && work.meta_.text.isSome then some (found.getD taskGrant) else found

/-- The action a check looks at is one the work is granted, and none of the task's own. -/
def grantsTarget (grants : List CapabilityGrant) (args : JsonObject) : Bool :=
  match (JsonObject.getString? args "action").bind splitAction with
  | none => false
  | some (namespace_, method) =>
      namespace_ != "task"
        && (grants.find? (fun grant => grant.name == namespace_)).any (fun grant => grant.permits method)

def HostAction.validEnvelope (action : HostAction) (work : TurnWork) : Bool :=
  !action.idempotencyKey.isEmpty && action.runId == work.id && !action.cellId.isEmpty
    && isSafeInteger action.callIndex
    && action.idempotencyKey == actionKeyOf action.runId action.cellId action.callIndex

/-- `isDeepStrictEqual` of two actions. -/
def HostAction.same (a b : HostAction) : Bool :=
  a.runId == b.runId && a.cellId == b.cellId && a.callIndex == b.callIndex && a.action == b.action
    && Json.deepEqual (.obj a.args) (.obj b.args) && a.idempotencyKey == b.idempotencyKey

/-- `permitsTool`: modes only narrow authorization. -/
def permitsTool (work : TurnWork) (mode : HarnessMode) (tool : ToolDefinition) : Bool :=
  !(work.meta_.executionClass == some "conversation" && tool.operation)
    && (mode == .execute || (mode == .read && tool.effect == .read))

def permitsAction (work : TurnWork) (mode : HarnessMode) (tool : Option ToolDefinition)
    (action : HostAction) : Bool :=
  action.action == "task.inspect" || match tool with
    | some tool => permitsTool work mode tool
    | none => mode == .execute

def actionFingerprint (sha256 : String → String) (work : TurnWork) (action : HostAction) : String :=
  sha256 (Json.obj [("tenantId", .str work.tenantId),
    ("principalId", work.principalId.elim .null .str), ("agentId", .str work.agentId),
    ("sessionId", .str work.sessionId), ("action", .str action.action),
    ("args", .obj action.args)]).canonical

/-- A receipt that neither waits for an approval nor leaves the outcome unknown. -/
def HostActionResult.isSettled (result : HostActionResult) : Bool :=
  result.approval.isNone && !result.isUnknown

/-! ## Results that nothing records -/

def deniedTarget : HostActionResult where
  ok := false
  error := some "capability denied: receipt action is not granted to this work item"

def staleRequest : HostActionResult where
  ok := false
  error := some
    "request snapshot is stale or missing; process the latest user revisions before acting"

def unknownArgument : HostActionResult where
  ok := false
  executionState := some .rejected
  code := some "invalid_arguments"
  error := some "unknown tool argument"

def contractChanged : HostActionResult where
  ok := false
  executionState := some .unknown
  code := some "tool_contract_changed"
  error := some "Tool semantics changed; settle the existing intent before continuing"

def priorActions : HostActionResult where
  ok := false
  executionState := some .unknown
  error := some "Prior actions require approval or reconciliation before starting another write"

def missingReceipt : HostActionResult where
  ok := false
  executionState := some .unknown
  error := some "action intent exists without a receipt; reconcile before retrying"

namespace Service

/-- A refusal settles a receipt that waits for an approval, and records nothing else. -/
def reject (action : HostAction) (code error : String) : Service ActionAnswer := do
  let prior ← await (.find action.idempotencyKey)
  if prior.any (fun prior => prior.approval.isSome) then do
    let recorded ← await (.record action.idempotencyKey
      { ok := false, executionState := some .noEffect, code := some code, error := some error })
    pure (.refused recorded)
  else
    pure (.refused
      { ok := false, executionState := some .rejected, code := some code, error := some error })

/-- The result of a native read-back, if it settles the action. -/
def settledReadback (result : Option HostActionResult) : Option HostActionResult :=
  match result with
  | none => none
  | some result =>
      if result.approval.isSome || result.isUnknown
          || (!result.ok && result.executionState != some .noEffect) then none
      else some { result with executionState := some (if result.ok then .succeeded else .noEffect) }

def nativeResolution (cfg : ServiceConfig) (action : HostAction) (result : HostActionResult) :
    ActionResolution where
  id := "native:" ++ cfg.sha256 (Json.arr [.str action.idempotencyKey, result.toJson]).stringify
  actionKey := action.idempotencyKey
  result := result
  resolvedBy := "native:" ++ action.action
  evidence := [("source", .str "native_reconciliation"), ("action", .str action.action)]

/-- Read an uncertain effect back from the product and record what it says. -/
def reconcileNative (cfg : ServiceConfig) (work : TurnWork) (action : HostAction)
    (requestVersion : Nat) : Service (Option HostActionResult) := do
  match ← Program.attempt (await (.reconcile work action requestVersion)) with
  | .error _ => pure none
  | .ok read =>
      match settledReadback read with
      | none => pure none
      | some result => do
          let _ ← await (.recordResolution (nativeResolution cfg action result))
          pure (some result)

/-! ## Checks -/

/-- An action that passed its checks. -/
structure Admitted where
  work : TurnWork
  requestVersion : Nat
  namespace_ : String
  tool : Option ToolDefinition
  existing : Option ActionIntent

/-- The version of the request the action belongs to, if the work still answers it. -/
def currentVersion (proof : LeaseProof) (work : TurnWork) (steer : List SteerInput) :
    Service (Option Nat) :=
  if work.meta_.text.isNone then pure (some (steer.length + 1))
  else do
    let session ← getSession proof work.sessionKey
    match session.bind SessionRecord.request with
    | none => pure none
    | some request =>
        if request.workId ≠ work.id ∨ request.revisions ≠ steer then pure none
        else pure (some request.requestVersion)

/-- The intent recorded under the key is this action's, of this work and version. -/
def sameIntent (work : TurnWork) (requestVersion : Nat) (action : HostAction)
    (existing : ActionIntent) : Bool :=
  existing.workId == work.id && existing.requestVersion == some requestVersion
    && existing.ownedBy work && existing.action.same action

/-- The argument checks: of the tool's parameters, of a task action, or the product's own. -/
def checkArguments (cfg : ServiceConfig) (admitted : Admitted) (action : HostAction) :
    Service (ActionAnswer ⊕ Admitted) :=
  if admitted.tool.any (fun tool => action.args.any (fun entry => !tool.properties.contains entry.1)) then
    pure (.inl (.refused unknownArgument))
  else if admitted.namespace_ = "task" then
    match parseTaskArgs cfg.sha256 action.action action.args with
    | .error error => do return .inl (← reject action "invalid_arguments" error)
    | .ok () => pure (.inr admitted)
  else do
    match ← Program.attempt (await (.prepare admitted.work action admitted.requestVersion)) with
    | .error (.noEffect text code) => do return .inl (← reject action code text)
    | .error failure => do return .inl (← reject action "invalid_arguments" failure.message)
    | .ok () => pure (.inr admitted)

/-- The checks that need the recorded intent and the execution mode. -/
def checkIdentity (cfg : ServiceConfig) (work : TurnWork) (namespace_ : String)
    (requestVersion : Nat) (action : HostAction) : Service (ActionAnswer ⊕ Admitted) := do
  let tool := cfg.tools.find? (fun tool => tool.action == action.action)
  let existing ← await (.findIntent action.idempotencyKey)
  if !existing.all (sameIntent work requestVersion action) then
    refuse 409 "action identity mismatch; reconcile before replay"
  else match executionMode work with
    | .error error => throw (.error error)
    | .ok mode =>
        if !permitsAction work mode tool action then do
          return .inl (← reject action "mode_forbidden"
            ("execution mode " ++ mode.name ++ " does not permit " ++ action.action))
        else checkArguments cfg ⟨work, requestVersion, namespace_, tool, existing⟩ action

/-- The lease and the request are still current. -/
def checkCurrent (cfg : ServiceConfig) (proof : LeaseProof) (work : TurnWork) (namespace_ : String)
    (action : HostAction) : Service (ActionAnswer ⊕ Admitted) := do
  match ← await (.heartbeat proof) with
  | none => refuse 409 "work lease lost before action" (some "lease_lost")
  | some current =>
      if current.cancelRequested then
        refuse 409 "work is cancelled; no further actions are permitted" (some "work_cancelled")
      else do
        match ← currentVersion proof work current.steer with
        | none => pure (.inl (.refused staleRequest))
        | some requestVersion => checkIdentity cfg work namespace_ requestVersion action

/-- The grants of the work cover the action, and the one a task check looks at. -/
def checkGrants (cfg : ServiceConfig) (proof : LeaseProof) (work : TurnWork)
    (namespace_ method : String) (action : HostAction) : Service (ActionAnswer ⊕ Admitted) := do
  let grants ← await (.resolveGrants work)
  if !(findGrant work grants namespace_).any (fun grant => grant.permits method) then do
    return .inl (← reject action "forbidden"
      ("capability denied: " ++ action.action ++ " is not granted to this work item"))
  else if ["task.check_receipt", "task.check_resource"].contains action.action
      && !grantsTarget grants action.args then
    pure (.inl (.refused deniedTarget))
  else checkCurrent cfg proof work namespace_ action

/-- The authorization, identity and argument checks of `executeAction`. -/
def checkAction (cfg : ServiceConfig) (proof : LeaseProof) (action : HostAction) :
    Service (ActionAnswer ⊕ Admitted) := do
  let leased ← requireLease proof true
  if !action.validEnvelope leased.work then refuse 400 "invalid host action envelope"
  else match splitAction action.action with
    | none => refuse 400 "host action must be <namespace>.<method>"
    | some (namespace_, method) => checkGrants cfg proof leased.work namespace_ method action

/-! ## The ledger -/

/-- The receipt of an execution that failed. -/
def failedReceipt (admitted : Admitted) (failure : Failure) : HostActionResult where
  ok := false
  executionState := some (match failure with
    | .noEffect _ _ => .noEffect
    | _ => if admitted.namespace_ = "task" ∨ admitted.tool.map ToolDefinition.effect = some .read
        then .noEffect else .unknown)
  code := match failure with
    | .noEffect _ code => some code
    | _ => none
  error := some failure.message

/-- A built-in task action, or an effect of the product. -/
def dispatch (admitted : Admitted) (action : HostAction) : Service HostActionResult :=
  if admitted.namespace_ = "task" then
    await (.taskAction admitted.work action admitted.requestVersion)
  else await (.execute admitted.work action admitted.requestVersion)

/-- Run the action and record its receipt. -/
def runAction (admitted : Admitted) (action : HostAction) : Service ActionAnswer := do
  let outcome ← Program.attempt (dispatch admitted action)
  let result := match outcome with
    | .ok result => result
    | .error failure => failedReceipt admitted failure
  let recorded ← await (.record action.idempotencyKey result)
  pure (.answered recorded)

/-- An intent without a usable receipt: read it back if it may have run. -/
def replayOrRun (cfg : ServiceConfig) (admitted : Admitted) (action : HostAction)
    (reservation : ActionLedger.Reservation) : Service ActionAnswer := do
  let replayed ← await (.find action.idempotencyKey)
  match replayed.filter (fun replayed => replayed.approval.isNone) with
  | some replayed =>
      if replayed.isUnknown then do
        let read ← reconcileNative cfg admitted.work action admitted.requestVersion
        pure (.answered (read.getD replayed))
      else pure (.answered replayed)
  | none =>
      if reservation = .existing ∧ admitted.tool.all (fun tool => tool.effect == .uncertain) then do
        let read ← reconcileNative cfg admitted.work action admitted.requestVersion
        pure (.answered (read.getD missingReceipt))
      else runAction admitted action

/-- The intent that is reserved for an action. -/
def newIntent (cfg : ServiceConfig) (admitted : Admitted) (action : HostAction) : ActionIntent where
  workId := admitted.work.id
  tenantId := admitted.work.tenantId
  principalId := admitted.work.principalId
  agentId := admitted.work.agentId
  sessionId := admitted.work.sessionId
  threadId := admitted.work.threadId
  requestVersion := some admitted.requestVersion
  toolContractHash := admitted.tool.map cfg.toolContractHash
  action := action

def reserveAndRun (cfg : ServiceConfig) (admitted : Admitted) (action : HostAction) :
    Service ActionAnswer := do
  let reservation ← await (.reserve action.idempotencyKey
    (actionFingerprint cfg.sha256 admitted.work action) (newIntent cfg admitted action))
  replayOrRun cfg admitted action reservation

/-- Another action of the work is unsettled: nothing but a read may start. -/
def gate (cfg : ServiceConfig) (admitted : Admitted) (action : HostAction) : Service ActionAnswer :=
  if admitted.tool.map ToolDefinition.effect ≠ some .read ∧ admitted.namespace_ ≠ "task" then do
    let pending ← await (.unsettled admitted.work.id)
    if pending.any (fun item => item.actionKey != action.idempotencyKey) then
      pure (.blocked priorActions)
    else reserveAndRun cfg admitted action
  else reserveAndRun cfg admitted action

/-- The recorded intent is of another version of the tool. -/
def changedContract (action : HostAction) : Service ActionAnswer := do
  let prior ← await (.find action.idempotencyKey)
  match prior with
  | none => pure (.refused contractChanged)
  | some prior =>
      if prior.isSettled then pure (.answered prior)
      else if prior.approval.isSome then
        reject action "tool_contract_changed"
          "Tool semantics changed; create a new preview and approval"
      else pure (.refused contractChanged)

/-- What an admitted action still has to go through. -/
def settleAdmitted (cfg : ServiceConfig) (admitted : Admitted) (action : HostAction) :
    Service ActionAnswer :=
  if admitted.existing.any (fun existing =>
      existing.toolContractHash != admitted.tool.map cfg.toolContractHash) then
    changedContract action
  else gate cfg admitted action

def executeAction (cfg : ServiceConfig) (proof : LeaseProof) (action : HostAction) :
    Service ActionAnswer := do
  match ← checkAction cfg proof action with
  | .inl answer => pure answer
  | .inr admitted => settleAdmitted cfg admitted action

end Service

end LingxiOS
