-- SUMMARY: One model call with its retries: reservation, provider access, recorded usage.
import LingxiOS.Base.Program
import LingxiOS.ControlPlane.Failure
import LingxiOS.Model.Budget

/-! # Model Execution

A translation of `invoke` in `modelExecution`, the boundary every provider call
goes through. An attempt reserves its budget, announces itself, calls the
provider and records what was used; a provider error that may pass is tried
again, at most three times and under a call id of its own. -/

namespace LingxiOS

open Program

/-! ## Data -/

/-- `RootModelBudgetOptions`, with every option set. -/
structure RootModelBudgetOptions where
  maxModelCalls : Nat := 128
  maxTokens : Nat := 1000000
  maxCostMicros : Nat := 10000000
  wallClockMs : Nat := 1800000
  inputCostMicrosPerMillion : Nat := 0
  outputCostMicrosPerMillion : Nat := 0

inductive ModelCallPurpose where
  | agentTurn | structured | compaction | embedding
  deriving DecidableEq

structure ModelUsage where
  available : Bool
  inputTokens : Nat
  outputTokens : Nat
  deriving DecidableEq

/-- What a provider answers with. -/
structure ModelResult where
  model : Option String
  usage : ModelUsage
  value : Json

/-- What a model call throws. -/
inductive ModelFailure where
  /-- A `ModelDriverError`, with the diagnostics a retry depends on. -/
  | driver (kind : String) (status : Option Nat) (message : String)
  | other (failure : Failure)

def ModelFailure.message : ModelFailure → String
  | .driver _ _ message => message
  | .other failure => failure.message

/-- `error instanceof ModelDriverError`. -/
def ModelFailure.isDriver : ModelFailure → Bool
  | .driver _ _ _ => true
  | .other _ => false

structure ModelCallObservation where
  callId : String
  logicalCallId : Option String
  purpose : ModelCallPurpose
  model : String
  usage : ModelUsage
  costMicros : Nat
  succeeded : Bool
  error : Option String

inductive ModelRunEvent where
  | started (callId logicalCallId : String) (purpose : ModelCallPurpose) (model : String)
  | finished (observation : ModelCallObservation)

/-- The counters the calls of one execution share. -/
structure ModelCounters where
  calls : Int
  tokens : Int
  cost : Int

inductive ModelOp where
  -- the clock and the counters of the execution
  | now
  | counters
  | addCounters (calls tokens cost : Int)
  -- the signal of the request, and the one of the attempt
  | throwIfAborted
  | requestAborted
  | signalAborted
  -- the host
  | reserveModelCall (callId : String) (limits : ModelBudgetLimits)
  | recordModelUsage (callId : String) (inputTokens outputTokens costMicros : Nat)
      (observation : ModelCallObservation)
  | emit (event : ModelRunEvent)
  -- the provider
  | operation (callId : String)
  | delay (ms : Nat)

@[reducible] def ModelOp.Value : ModelOp → Type
  | .now => Int
  | .counters => ModelCounters
  | .requestAborted => Bool
  | .signalAborted => Bool
  | .reserveModelCall _ _ => ModelBudgetReservation
  | .operation _ => ModelResult
  | .addCounters _ _ _ => Unit
  | .throwIfAborted => Unit
  | .recordModelUsage _ _ _ _ _ => Unit
  | .emit _ => Unit
  | .delay _ => Unit

abbrev ModelProgram (α : Type) := Program ModelOp ModelOp.Value ModelFailure α

abbrev ModelEvent := Program.Event ModelOp ModelOp.Value ModelFailure

/-- What one execution was set up with. -/
structure ModelExecution where
  workId : String
  fence : Nat
  namespace_ : String := "model"
  modelId : Option String
  limits : RootModelBudgetOptions
  /-- `Date.now()` when the execution was set up. -/
  started : Int
  /-- Whether there is anybody to emit events to. -/
  emits : Bool

/-- One call: its purpose, the hashes of its instructions, and the tokens it may
    take in and give out. -/
structure ModelRequest where
  purpose : ModelCallPurpose
  instructionsSha256 : Option String
  /-- `prompt.instructionsSha256`, when a prompt manifest is given. -/
  prompt : Option String
  input : Nat
  output : Nat
  /-- The number the call drew from the execution's sequence. -/
  sequence : Nat

structure ModelOutcome where
  result : ModelResult
  callId : String
  logicalCallId : String

namespace ModelExecution

/-- `Math.ceil((input * inputRate + output * outputRate) / 1_000_000)`. -/
def cost (limits : RootModelBudgetOptions) (input output : Nat) : Nat :=
  (input * limits.inputCostMicrosPerMillion + output * limits.outputCostMicrosPerMillion + 999999)
    / 1000000

def logicalCallId (env : ModelExecution) (request : ModelRequest) : String :=
  env.workId ++ ":" ++ toString env.fence ++ ":" ++ env.namespace_ ++ ":" ++ toString request.sequence

/-- A retry runs under an id of its own. -/
def callId (env : ModelExecution) (request : ModelRequest) (attempt : Nat) : String :=
  if attempt = 1 then env.logicalCallId request
  else env.logicalCallId request ++ ":retry:" ++ toString attempt

/-- What an attempt asks the host to reserve, at some reading of the clock. -/
def reservedLimits (env : ModelExecution) (request : ModelRequest) (now : Int) :
    ModelBudgetLimits where
  maxModelCalls := env.limits.maxModelCalls
  maxTokens := env.limits.maxTokens
  maxCostMicros := env.limits.maxCostMicros
  maxExecutionMs := some env.limits.wallClockMs
  deadlineAt := some (now + env.limits.wallClockMs)
  reservedTokens := some (request.input + request.output)
  reservedInputTokens := some request.input
  reservedOutputTokens := some request.output
  reservedCostMicros := some (cost env.limits request.input request.output)

def modelName (env : ModelExecution) : String := env.modelId.getD "unknown"

def await (op : ModelOp) : ModelProgram op.Value := perform op

/-- Throw `ModelBudgetExceededError`. -/
def exceeded {α : Type} (message : String) : ModelProgram α :=
  .done (.error (.other (.modelBudgetExceeded message)))

/-- `emit?.(event)`. -/
def emit (env : ModelExecution) (event : ModelRunEvent) : ModelProgram Unit :=
  if env.emits then await (.emit event) else pure ()

/-- Whether a call no longer fits the execution's own limits. -/
def overdrawn (env : ModelExecution) (request : ModelRequest) (counters : ModelCounters) : Bool :=
  decide ((env.limits.maxModelCalls : Int) ≤ counters.calls)
    || decide ((env.limits.maxTokens : Int) < counters.tokens + request.input + request.output)
    || decide ((env.limits.maxCostMicros : Int)
        < counters.cost + cost env.limits request.input request.output)

/-- The attempt up to its announcement: the execution's own limits, the
    reservation, the time that is left, and the `started` event. -/
def announce (env : ModelExecution) (request : ModelRequest) (attempt : Nat) :
    ModelProgram Unit := do
  await .throwIfAborted
  let counters ← await .counters
  if env.overdrawn request counters then exceeded "root work model budget exhausted"
  else do
    let now ← await .now
    if env.limits.wallClockMs ≤ now - env.started then exceeded "root work model budget exhausted"
    else do
      let now ← await .now
      let reservation ← await
        (.reserveModelCall (env.callId request attempt) (env.reservedLimits request now))
      if !reservation.allowed then exceeded "root work model budget exhausted"
      else do
        let now ← await .now
        if reservation.deadlineAt.any (fun deadline => decide (deadline - now ≤ 0)) then
          exceeded "root work execution time exhausted"
        else do
          await (.addCounters 1 (request.input + request.output)
            (cost env.limits request.input request.output))
          -- A deadline that is no number is no timeout either.
          if reservation.deadlineAt.isNone then
            .done (.error (.other (.error "The value of \"delay\" is out of range.")))
          else
            env.emit (.started (env.callId request attempt) (env.logicalCallId request)
              request.purpose env.modelName)

/-- The tokens a call is recorded with: what the provider says, else what was
    reserved. -/
def usedTokens (request : ModelRequest) (answer : Except ModelFailure ModelResult) : Nat × Nat :=
  match answer with
  | .ok result =>
      if result.usage.available then (result.usage.inputTokens, result.usage.outputTokens)
      else (request.input, request.output)
  | .error _ => (request.input, request.output)

/-- `usage?.available ? usage : { available: false, inputTokens, outputTokens }`. -/
def usageOf (answer : Except ModelFailure ModelResult) (used : Nat × Nat) : ModelUsage :=
  match answer with
  | .ok result => if result.usage.available then result.usage else ⟨false, used.1, used.2⟩
  | .error _ => ⟨false, used.1, used.2⟩

def observation (env : ModelExecution) (request : ModelRequest) (attempt : Nat)
    (answer : Except ModelFailure ModelResult) : ModelCallObservation :=
  let used := usedTokens request answer
  { callId := env.callId request attempt
    logicalCallId := if 1 < attempt then some (env.logicalCallId request) else none
    purpose := request.purpose
    model := (match answer with
      | .ok result => result.model
      | .error _ => none).getD env.modelName
    usage := usageOf answer used
    costMicros := cost env.limits used.1 used.2
    succeeded := answer.isOk
    error := match answer with
      | .ok _ => none
      | .error failure => some failure.message }

/-- The provider call and its settlement. A completed provider request must be
    settled even after cancellation or lease loss. -/
def settle (env : ModelExecution) (request : ModelRequest) (attempt : Nat) :
    ModelProgram (Except ModelFailure ModelResult) := do
  let answer ← (await (.operation (env.callId request attempt))).attempt
  let used := usedTokens request answer
  let costMicros := cost env.limits used.1 used.2
  await (.addCounters 0 (used.1 + used.2 - request.input - request.output)
    (costMicros - cost env.limits request.input request.output))
  await (.recordModelUsage (env.callId request attempt) used.1 used.2 costMicros
    (env.observation request attempt answer))
  let aborted ← await .requestAborted
  if aborted then pure answer
  else do
    env.emit (.finished (env.observation request attempt answer))
    pure answer

/-- Errors of a provider that another attempt may get over. -/
def retriable : ModelFailure → Bool
  | .driver kind status _ =>
      kind != "protocol" && status.all (fun status => status == 429 || decide (500 ≤ status))
  | .other _ => false

/-- An attempt, and those that may follow it; the last one is the third. -/
def attempts (env : ModelExecution) (request : ModelRequest) (left : Nat) :
    ModelProgram ModelOutcome := do
  let attempt := 3 - left
  env.announce request attempt
  match ← env.settle request attempt with
  | .ok result => pure ⟨result, env.callId request attempt, env.logicalCallId request⟩
  | .error failure =>
      if !failure.isDriver then .done (.error failure)
      else match left with
        | 0 => .done (.error failure)
        | left + 1 => do
            let aborted ← await .signalAborted
            if aborted || !retriable failure then .done (.error failure)
            else do
              await (.delay (min 2000 (250 * 2 ^ (attempt - 1))))
              env.attempts request left

def invoke (env : ModelExecution) (request : ModelRequest) : ModelProgram ModelOutcome :=
  if request.prompt.any (fun manifest => request.instructionsSha256 != some manifest) then
    .done (.error (.other (.error "prompt manifest does not match model instructions")))
  else env.attempts request 2

end ModelExecution

end LingxiOS
