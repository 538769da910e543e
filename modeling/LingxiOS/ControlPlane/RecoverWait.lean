-- SUMMARY: recoverWait: settling a wait from recorded receipts.
import LingxiOS.Runtime.Events

/-! # Recovering a Wait

An attempt may have ended after its last call was answered with a wait and before
the work was parked. `recoverWait` finds the recorded actions of that call and
parks the work from them, without running Python or any action again. -/

namespace LingxiOS

/-! ## Outcomes as JSON -/

def Verification.name : Verification → String
  | .passed => "passed"
  | .notRun => "not_run"
  | .inconclusive => "inconclusive"

def GoalOutcome.toJson (outcome : GoalOutcome) : Json :=
  let status := match outcome.status with
    | .satisfied => [("status", Json.str "satisfied")]
    | .partial_ => [("status", .str "partial")]
    | .blocked => [("status", .str "blocked")]
    | .awaitingInput => [("status", .str "awaiting_input")]
    | .awaitingApproval id => [("status", .str "awaiting_approval"), ("approvalId", .str id)]
    | .delegated taskRef => [("status", .str "delegated"), ("taskRef", .str taskRef)]
  .obj (status ++ [("verification", .str outcome.verification.name),
      ("requestVersion", .num outcome.requestVersion)]
    ++ optionalField "gaps" outcome.gaps (fun gaps => .arr (gaps.map .str))
    ++ optionalField "question" outcome.question .str)

/-! ## What it awaits -/

/-- A row of the query: the action of an intent, and its effective result. -/
structure RecordedAction where
  action : HostAction
  result : Option HostActionResult

inductive RecoverOp where
  | service (op : ServiceOp)
  | throwIfAborted
  -- the steps of `recoverWork` before it
  | reconcilePending
  | executeDecidedApprovals
  -- the database
  | selectRecorded (cellId : String) (requestVersion : Nat)
  | selectChild (taskRef : String) (requestVersion : Nat)
  | selectActiveChild (taskRef : String) (requestVersion : Nat)
  -- the control plane
  | saveSession (session : SessionRecord)
  | recordEvent (event : RunEvent)
  | complete (completion : WorkCompletion)
  | waitWork (outcome : GoalOutcome)

@[reducible] def RecoverOp.Value : RecoverOp → Type
  | .service op => op.Value
  | .selectRecorded _ _ => List RecordedAction
  -- The status of the child, if there is one.
  | .selectChild _ _ => Option String
  | .selectActiveChild _ _ => Bool
  | _ => Unit

abbrev Recovery (α : Type) := Program RecoverOp RecoverOp.Value Failure α

abbrev RecoverEvent := Program.Event RecoverOp RecoverOp.Value Failure

namespace Recovery

def await (op : RecoverOp) : Recovery op.Value := Program.perform op

/-- A call of the control plane from within the recovery. -/
def serve (op : ServiceOp) : Recovery op.Value := Program.perform (RecoverOp.service op)

/-! ## The wait a call ended with -/

/-- The last call of a history, and the items after it. -/
def lastCall : List ModelItem → Option (FunctionCall × List ModelItem)
  | [] => none
  | item :: rest => match lastCall rest with
    | some found => some found
    | none => match item with
      | .functionCall call => some (call, rest)
      | _ => none

/-- An action ran after one that handed the run over. -/
def continuedAfterWait (rows : List RecordedAction) : Bool :=
  rows.dropLast.any (fun row => row.result.any HostActionResult.defers)

/-- The receipts of the rows, which must be those of the calls from `index` on. -/
def receiptsFrom (index : Nat) : List RecordedAction → Option (List (HostAction × HostActionResult))
  | [] => some []
  | row :: rest => do
      let result ← row.result
      if row.action.callIndex ≠ index then none
      else do
        let receipts ← receiptsFrom (index + 1) rest
        return (row.action, result) :: receipts

/-- What `last.directive.data[key]` is, of a directive that defers for a reason. -/
def deferred (result : HostActionResult) (reason key : String) : Option String :=
  match result.directive with
  | some directive =>
      if result.ok && directive.type == .defer && directive.reason == some reason then
        JsonObject.getString? directive.data key
      else none
  | none => none

/-- The question the last action asks, as its arguments and its directive have it. -/
def askedQuestion (action : HostAction) (result : HostActionResult) : Option String :=
  match JsonObject.getString? (some action.args) "question" with
  | some question =>
      if action.action == "task.ask" && !Text.isBlank question && Text.length question ≤ 4000
          && deferred result "user" "question" == some question then some question
      else none
  | none => none

/-- The wait the last action ended the call with, if it ended it with one. -/
def waitOf (requestVersion : Nat) (action : HostAction) (result : HostActionResult) :
    Option GoalOutcome :=
  let approval := if !result.ok && !result.isUnknown then result.approval else none
  match approval.filter (fun id => !Text.isBlank id), askedQuestion action result,
      deferred result "child" "taskRef" with
  | some id, _, _ => some ⟨.awaitingApproval id, .notRun, requestVersion, none, none⟩
  | none, some question, _ => some ⟨.awaitingInput, .notRun, requestVersion, none, some question⟩
  | none, none, some taskRef => some ⟨.delegated taskRef, .notRun, requestVersion, none, none⟩
  | none, none, none => none

/-- A child that is done no longer waits, unless another one of the wait is active. -/
def childSettled (outcome : GoalOutcome) (requestVersion : Nat) : Recovery Bool :=
  match outcome.status with
  | .delegated taskRef => do
      match ← await (.selectChild taskRef requestVersion) with
      | none => pure false
      | some status =>
          if ["queued", "leased", "waiting"].contains status then pure false
          else do
            let active ← await (.selectActiveChild taskRef requestVersion)
            pure (!active)
  | _ => pure false

/-! ## Settling -/

/-- The event of a recovered wait or of a blocked recovery, always the attempt's first. -/
def recoveredEvent (work : TurnWork) (fence : Nat) (kind : String) (outcome : GoalOutcome)
    (more : JsonObject) : RunEvent where
  runId := work.id
  seq := sequenceStart fence + 1
  kind := kind
  stage := .completed
  visibility := .user
  data := [("recovered", .bool true), ("goalOutcome", outcome.toJson)] ++ more

def blockedOutcome (requestVersion : Nat) (continued : Bool) : GoalOutcome where
  status := .blocked
  verification := .inconclusive
  requestVersion := requestVersion
  gaps := some [if continued then
      "Actions followed a terminal wait; reconcile before continuing"
    else "Action recovery exceeds the bounded receipt limit"]

/-- The event and the completion of a call that can not be recovered. -/
def block (work : TurnWork) (fence requestVersion : Nat) (continued : Bool) : Recovery Bool := do
  let outcome := blockedOutcome requestVersion continued
  await (.recordEvent (recoveredEvent work fence "run.completed" outcome []))
  await (.complete { status := .completed, goalOutcome := some outcome })
  pure true

/-- The output a recovered call is answered with. -/
def recoveredOutput (outcome : GoalOutcome) (receipts : List (HostAction × HostActionResult)) :
    ToolOutput :=
  boundedToolOutput {
    fields := [("recovered", .bool true), ("localExecutionOutput", .str "not_recovered")]
      ++ (match outcome.status with
        | .awaitingApproval id => [("approvalPending", .str id)]
        | _ => [])
    receipts := some (receipts.map (fun receipt =>
      ⟨receipt.1.action, receipt.1.idempotencyKey, receipt.2⟩)) }

/-- The event of a wait that is parked. -/
def waitEvent (work : TurnWork) (fence : Nat) (call : FunctionCall) (outcome : GoalOutcome) : RunEvent :=
  match outcome.status with
  | .awaitingApproval id => recoveredEvent work fence "approval.pending" outcome
      [("approvalId", .str id), ("cellId", .str call.callId)]
  | _ => recoveredEvent work fence "goal.waiting" outcome []

/-- One of the items after a call is its output. -/
def answeredIn (call : FunctionCall) (after : List ModelItem) : Bool :=
  after.any (fun item => match item with
    | .functionCallOutput callId _ => callId == call.callId
    | _ => false)

/-- The output is saved unless the call has one, then the event and the wait. -/
def park (work : TurnWork) (fence : Nat) (session : SessionRecord) (call : FunctionCall)
    (after : List ModelItem) (outcome : GoalOutcome)
    (receipts : List (HostAction × HostActionResult)) : Recovery Bool := do
  await .throwIfAborted
  if answeredIn call after then pure ()
  else await (.saveSession { session with
    history := session.history
      ++ [.functionCallOutput call.callId (recoveredOutput outcome receipts)] })
  await (.recordEvent (waitEvent work fence call outcome))
  await (.waitWork outcome)
  pure true

/-- What the recorded actions of the last call are good for. -/
def settle (work : TurnWork) (fence : Nat) (session : SessionRecord) (requestVersion : Nat)
    (call : FunctionCall) (after : List ModelItem) (rows : List RecordedAction) :
    Recovery Bool := do
  if rows.isEmpty then pure false
  else do
    await .throwIfAborted
    if 100 < rows.length || continuedAfterWait rows then
      block work fence requestVersion (continuedAfterWait rows)
    else
      match receiptsFrom 0 rows with
      | none => pure false
      | some receipts =>
          match receipts.getLast?.bind (fun last => waitOf requestVersion last.1 last.2) with
          | none => pure false
          | some outcome => do
              if ← childSettled outcome requestVersion then pure false
              else park work fence session call after outcome receipts

end Recovery

/-- Whether the wait was settled; without one the runtime goes on. -/
def recoverWait (proof : LeaseProof) (work : TurnWork) (fence : Nat) : Recovery Bool := do
  Recovery.await .throwIfAborted
  match ← (Service.getSession proof work.sessionKey).interpret Recovery.serve with
  | none => pure false
  | some session =>
      match ownRequest work session.request with
      | none => pure false
      | some request => do
          match ← Recovery.serve (.heartbeat proof) with
          | none => pure false
          | some current =>
              if current.cancelRequested || current.steer != request.revisions then pure false
              else match Recovery.lastCall session.history with
                | none => pure false
                | some (call, after) => do
                    let rows ← Recovery.await
                      (.selectRecorded (call.stepId.getD call.callId) request.requestVersion)
                    Recovery.settle work fence session request.requestVersion call after rows

/-- `recoverWork`: the recovery of an attempt, inside its lease. -/
def recoverWork (proof : LeaseProof) : Recovery Bool := do
  let leased ← (Service.requireLease proof true).interpret Recovery.serve
  Recovery.await .reconcilePending
  Recovery.await .throwIfAborted
  Recovery.await .executeDecidedApprovals
  Recovery.await .throwIfAborted
  recoverWait proof leased.work leased.fence

end LingxiOS
