-- SUMMARY: One attempt of the runtime, with its events numbered.
import LingxiOS.Runtime.Events

/-! # An Attempt of the Runtime

`runWork` first lets the control plane recover the work, then runs the turn, and
reports an error at the end of it. Whatever the turn does, its events are numbered
by the same counter as those of `runWork` itself. -/

namespace LingxiOS

/-! ## Calls of the host -/

/-- What the catch block of an attempt reads: the signals and the active session. -/
structure AttemptFlags where
  externallyAborted : Bool
  leaseLost : Bool
  preemptRequested : Bool
  lifecycleAborted : Bool
  session : Option SessionRecord

/-- What the runtime awaits besides its events; `H` is what a turn awaits. -/
inductive RuntimeCall (H : Type) where
  | recoverWork
  | now
  | flags
  | saveSession (session : SessionRecord)
  | yieldWork
  | completeWork (completion : WorkCompletion)
  | turn (op : H)

@[reducible] def RuntimeCall.Value {H : Type} (V : H → Type) : RuntimeCall H → Type
  | .recoverWork => Bool
  | .now => Int
  | .flags => AttemptFlags
  | .turn op => V op
  | .saveSession _ | .yieldWork | .completeWork _ => Unit

/-- `this.event(work, runId, body)`, or a call of the host. -/
inductive RunOp (H : Type) where
  | event (body : EventBody)
  | call (op : RuntimeCall H)

/-- An event is answered with its number. -/
@[reducible] def RunOp.Value {H : Type} (V : H → Type) : RunOp H → Type
  | .event _ => Nat
  | .call op => op.Value V

/-- A turn emits events and awaits what it awaits. -/
inductive TurnOp (H : Type) where
  | event (body : EventBody)
  | other (op : H)

@[reducible] def TurnOp.Value {H : Type} (V : H → Type) : TurnOp H → Type
  | .event _ => Nat
  | .other op => V op

section Work

variable {H : Type} {V : H → Type}

abbrev Turn (H : Type) (V : H → Type) := Program (TurnOp H) (TurnOp.Value V) Failure Unit

abbrev Attempt (H : Type) (V : H → Type) (α : Type) := Program (RunOp H) (RunOp.Value V) Failure α

namespace Attempt

def event (body : EventBody) : Attempt H V Nat := Program.perform (RunOp.event body)

def call (op : RuntimeCall H) : Attempt H V (op.Value V) := Program.perform (RunOp.call op)

def serveTurn : (op : TurnOp H) → Attempt H V (op.Value V)
  | .event body => event body
  | .other op => call (.turn op)

end Attempt

/-! ## Reporting an error -/

/-- `publicFailure`. -/
def publicFailure : Failure → String
  | .modelBudgetExceeded _ => "Model call, token, cost or execution-time budget exhausted"
  | .kernelExecution _ _ => "Tool execution failed after bounded correction"
  | .kernelTimeout _ _ => "Tool execution timed out"
  | .agentOS code message =>
      if code == "model_budget_exhausted" then
        "Model call, token, cost or execution-time budget exhausted"
      else if code == "content_acceptance_exhausted" then
        "Content acceptance correction budget exhausted"
      else if code == "response_protocol_exhausted" then
        "Final assessment protocol correction exhausted"
      else if code == "tool_protocol_exhausted" then "Tool protocol correction exhausted"
      else if code == "kernel_error_exhausted" || code == "kernel_execution_failed" then
        "Tool execution failed after bounded correction"
      else if code == "kernel_timeout" then "Tool execution timed out"
      else if code == "no_valid_response" then
        "No valid answer was produced for the current request"
      else message
  | failure => failure.message

def WorkLane.name : WorkLane → String
  | .interactive => "interactive"
  | .approval => "approval"
  | .collaboration => "collaboration"
  | .background => "background"

def Failure.isCancelled : Failure → Bool
  | .runCancelled _ | .kernelCancelled _ => true
  | _ => false

def preemptedEvent (lane : WorkLane) : EventBody where
  kind := "run.preempted"
  stage := .cancelled
  visibility := .internal
  data := [("lane", .str lane.name)]

def failedEvent (cancelled : Bool) (failure : Failure) : EventBody where
  kind := if cancelled then "run.cancelled" else "run.failed"
  stage := if cancelled then .cancelled else .failed
  visibility := .user
  data := [("error", .str (publicFailure failure))]

def failedCompletion (cancelled : Bool) (session : Option SessionRecord) (failure : Failure) :
    WorkCompletion where
  status := if cancelled then .cancelled else .failed
  error := some (publicFailure failure)
  goalOutcome := some {
    status := .blocked
    verification := .inconclusive
    requestVersion :=
      (((session.bind SessionRecord.request).map RequestSnapshot.requestVersion).getD 1 : Nat)
    gaps := some [if cancelled then "Execution was cancelled" else publicFailure failure] }

namespace Attempt

/-- `await promise.catch(() => {})`, of a session that may be missing. -/
def trySave (session : Option SessionRecord) : Attempt H V Unit :=
  match session with
  | none => pure ()
  | some session => do
      let _ ← (call (.saveSession session)).attempt
      pure ()

def finishWithError (lane : WorkLane) (flags : AttemptFlags) (failure : Failure) : Attempt H V Unit := do
  if flags.preemptRequested then
    trySave flags.session
    let _ ← (event (preemptedEvent lane)).attempt
    call .yieldWork
  else if flags.leaseLost then pure ()
  else
    let cancelled := flags.lifecycleAborted || failure.isCancelled
    let _ ← (event (failedEvent cancelled failure)).attempt
    let _ ← (call (.completeWork (failedCompletion cancelled flags.session failure))).attempt
    pure ()

/-- The catch block of an attempt; a worker that shuts down gives the work back. -/
def catchError (lane : WorkLane) (failure : Failure) : Attempt H V Unit := do
  let flags ← call .flags
  if flags.externallyAborted && !flags.leaseLost then
    trySave flags.session
    let _ ← (call .yieldWork).attempt
    pure ()
  else finishWithError lane flags failure

end Attempt

/-! ## The attempt -/

/-- What a work kind is run by. -/
inductive Processor (H : Type) (V : H → Type) where
  | conversation (turn : Turn H V)
  | custom (process : Turn H V)
  | missing

def startedEvent (work : WorkItem) (now : Int) : EventBody where
  kind := "run.started"
  stage := .started
  visibility := .user
  data := [("kind", .str work.kind), ("lane", .str work.lane.name), ("attempts", .num work.attempts),
      ("preemptions", .num work.preemptions), ("sourceRef", .str work.triggerRef)]
    ++ optionalField "queueWaitMs" work.availableAt (fun availableAt => .num (max 0 (now - availableAt)))

def completedEvent : EventBody where
  kind := "run.completed"
  stage := .completed
  visibility := .internal
  data := []

namespace Attempt

/-- The try block of an attempt. -/
def tryWork (work : WorkItem) (processor : Processor H V) : Attempt H V Unit := do
  if ← call .recoverWork then pure ()
  else do
    let now ← call .now
    let _ ← event (startedEvent work now)
    match processor with
    | .missing => throw (.error ("no processor registered for work kind '" ++ work.kind ++ "'"))
    | .conversation turn => turn.interpret serveTurn
    | .custom process => do
        process.interpret serveTurn
        let _ ← event completedEvent
        call (.completeWork { status := .completed })

end Attempt

def runWork (work : WorkItem) (processor : Processor H V) : Attempt H V Unit := do
  match ← (Attempt.tryWork work processor).attempt with
  | .ok () => pure ()
  | .error failure => Attempt.catchError work.lane failure

/-! ## Numbering -/

/-- An event with its number, or a call of the host. -/
inductive NumberedOp (H : Type) where
  | emitEvent (event : RunEvent)
  | call (op : RuntimeCall H)

@[reducible] def NumberedOp.Value (V : H → Type) : NumberedOp H → Type
  | .emitEvent _ => Unit
  | .call op => op.Value V

abbrev Numbered (H : Type) (V : H → Type) (α : Type) :=
  Program (NumberedOp H) (NumberedOp.Value V) Failure α

abbrev NumberedEvent (H : Type) (V : H → Type) :=
  Program.Event (NumberedOp H) (NumberedOp.Value V) Failure

/-- Each event takes the next number, whether it is emitted or not. -/
def numbered {α : Type} (runId : String) : Nat → Attempt H V α → Numbered H V α
  | _, .done outcome => .done outcome
  | seq, .await (.event body) next =>
      .await (.emitEvent { body with runId := runId, seq := seq + 1 }) (fun answer =>
        numbered runId (seq + 1) (next (answer.map (fun _ => seq + 1))))
  | seq, .await (.call op) next =>
      .await (.call op) (fun answer => numbered runId seq (next answer))

/-- An attempt as the host sees it. -/
def numberedWork (work : WorkItem) (processor : Processor H V) : Numbered H V Unit :=
  numbered work.id (sequenceStart work.fence) (runWork work processor)

end Work

end LingxiOS
