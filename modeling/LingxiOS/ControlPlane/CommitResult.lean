-- SUMMARY: commitResult: the replay check and the transaction.
import LingxiOS.ControlPlane.RecoverWait
import LingxiOS.Delegation.Jobs

/-! # Committing a Result

`commitResult` and the delivery it ends with. The transaction may add trusted
presentation components to the message before it stores it; a repeated call is known by
the message that is stored. JSON values hold their keys in order, so that
`isDeepStrictEqual` is equality. -/

namespace LingxiOS

/-- The part of an envelope `createResponseEnvelope` fills; `rest` holds the citations, the
    evidence they quote, the contract, the checks and the assessment. -/
structure CandidateEnvelope where
  body : String
  artifacts : List KernelArtifact
  goalOutcome : GoalOutcome
  rest : JsonObject
  deriving DecidableEq

structure ResponseEnvelope where
  body : String
  requestVersion : Int
  artifacts : List KernelArtifact
  goalOutcome : GoalOutcome
  rest : JsonObject
  /-- Filled only by the server during the existing result/outbox transaction. -/
  presentations : Option (List Json) := none
  deriving DecidableEq

/-- `createResponseEnvelope` sets the version of the outcome, and no components. -/
def CandidateEnvelope.envelope (candidate : CandidateEnvelope) : ResponseEnvelope where
  body := candidate.body
  requestVersion := candidate.goalOutcome.requestVersion
  artifacts := candidate.artifacts
  goalOutcome := candidate.goalOutcome
  rest := candidate.rest

structure AssistantMessage where
  runId : String
  agentId : String
  sessionId : String
  threadId : Option String
  body : String
  envelope : ResponseEnvelope
  deriving DecidableEq

def ResponseEnvelope.toJson (envelope : ResponseEnvelope) : Json :=
  .obj ([("version", .num 1), ("body", .str envelope.body),
      ("requestVersion", .num envelope.requestVersion),
      ("artifacts", .arr (envelope.artifacts.map KernelArtifact.toJson)),
      ("goalOutcome", envelope.goalOutcome.toJson)]
    ++ envelope.rest ++ optionalField "presentations" envelope.presentations .arr)

def AssistantMessage.toJson (message : AssistantMessage) : Json :=
  .obj ([("version", .num 2), ("runId", .str message.runId), ("agentId", .str message.agentId),
      ("sessionId", .str message.sessionId)]
    ++ optionalField "threadId" message.threadId .str
    ++ [("body", .str message.body), ("envelope", message.envelope.toJson)])

namespace CommitResult

open Jobs (JobRow)

/-! ## Tables -/

/-- The columns of `agent_attempts` that identify a lease. -/
structure AttemptRow where
  workId : String
  fence : Nat
  leaseTokenHash : String
  deriving DecidableEq

/-- A row of `agent_results`. -/
structure ResultRow where
  workId : String
  requestVersion : Int
  fence : Nat
  message : AssistantMessage
  deriving DecidableEq

/-- An intent joined with its receipt. -/
structure ActionRow where
  idempotencyKey : String
  recordedAt : Int
  intent : ActionIntent
  result : HostActionResult

/-- A `response.committed` event of `agent_run_events`. -/
structure CommittedEvent where
  runId : String
  seq : Int
  resultId : String
  requestVersion : Int
  deriving DecidableEq

structure CommitTables where
  works : JsMap String JobRow
  attempts : List AttemptRow
  results : JsMap String ResultRow
  actions : List ActionRow
  /-- The results waiting to be learned from, and those to be delivered. -/
  memoryCapture : List String
  deliveryOutbox : List String
  runEvents : List CommittedEvent

/-- What the calls use besides the tables: the checks against records they do not write,
    and the configuration of the application. -/
structure CommitEnv where
  sha256 : String → String
  leaseTtlMs : Int
  /-- The session, its request and the recorded artifacts, up to the first heartbeat. -/
  checkRecords : JobRow → AssistantMessage → Except ControlPlaneError Unit
  /-- The envelope recomputed from the evidence, the steps and the ledger. -/
  recompute : JobRow → AssistantMessage → Except ControlPlaneError CandidateEnvelope
  persistArtifacts : JobRow → AssistantMessage → Except String Unit
  authorizeConversation : JobRow → Except String Unit
  /-- `presentations.length > 0`, and the contract of the tool they make. -/
  presents : Bool
  renderContract : String
  prepare : JobRow → HostAction → Except String Unit
  /-- The native checks, obligations and unresolved effects of a satisfied outcome. -/
  accept : JobRow → AssistantMessage → Except String Unit
  learns : Bool
  delivers : Bool

/-- Add an id that is not there: `ON CONFLICT DO NOTHING`. -/
def insertId (ids : List String) (id : String) : List String :=
  if ids.contains id then ids else ids ++ [id]

namespace CommitTables

/-! ## The lease -/

/-- The row a proof leases. -/
def getLeased (tables : CommitTables) (now : Int) (proof : LeaseProof) : Option JobRow :=
  (tables.works.get? proof.id).filter fun work =>
    work.fence = proof.fence ∧ work.leaseTokenHash = some proof.leaseTokenHash
      ∧ work.status = .leased ∧ work.leaseExpiresAt.any (now < ·)

/-- The work of an attempt, whatever has become of it. -/
def getAttempt (tables : CommitTables) (proof : LeaseProof) : Option JobRow :=
  if tables.attempts.contains ⟨proof.id, proof.fence, proof.leaseTokenHash⟩ then
    tables.works.get? proof.id
  else none

/-- The message of the result the run has now. -/
def getMessage (tables : CommitTables) (work : JobRow) : Option AssistantMessage :=
  ((tables.works.get? work.id).filter fun stored =>
      stored.tenantId = work.tenantId ∧ stored.agentId = work.agentId
        ∧ stored.sessionId = work.sessionId).bind fun stored =>
    (stored.resultId.bind tables.results.get?).map ResultRow.message

/-- Renew the lease, and return the row it is of. -/
def heartbeat (tables : CommitTables) (env : CommitEnv) (now : Int) (proof : LeaseProof) :
    Option JobRow × CommitTables :=
  match tables.getLeased now proof with
  | none => (none, tables)
  | some work =>
      let renewed : JobRow := { work with leaseExpiresAt := some (now + env.leaseTtlMs) }
      (some work, { tables with works := tables.works.set proof.id renewed })

/-! ## Delivery -/

/-- The row the transaction locks: still leased, not cancelled, at this version. -/
def current (tables : CommitTables) (now : Int) (work : JobRow) (requestVersion : Int) :
    Option JobRow :=
  (tables.works.get? work.id).filter fun stored =>
    stored.fence = work.fence ∧ stored.status = .leased ∧ stored.leaseExpiresAt.any (now < ·)
      ∧ stored.cancelRequestedAt = none
      ∧ (stored.steerInputs.length + 1 : Int) = requestVersion

/-- The successful renderings of this version, at most 17 of them. -/
def rendered (tables : CommitTables) (workId : String) (requestVersion : Int) : List ActionRow :=
  ((tables.actions.filter fun row =>
      row.intent.workId = workId ∧ row.intent.requestVersion.map Int.ofNat = some requestVersion
        ∧ row.intent.action.action = "presentation.render" ∧ row.result.ok = true).insertionSort
    fun a b => a.recordedAt < b.recordedAt
      ∨ a.recordedAt = b.recordedAt ∧ a.idempotencyKey ≤ b.idempotencyKey).take 17

/-- The component a rendering returned, once its action is authorized again. -/
def component (env : CommitEnv) (work : JobRow) (row : ActionRow) : Except String Json := do
  if row.intent.toolContractHash ≠ some env.renderContract then
    throw "presentation contract changed before commit"
  env.prepare work row.intent.action
  match row.result.value with
  | none => throw "Cannot read properties of undefined (reading 'presentation')"
  | some value => return (value.field "presentation").getD .null

/-- The message as it is stored: with the components rendered for it, if there are any. -/
def present (tables : CommitTables) (env : CommitEnv) (work : JobRow) (message : AssistantMessage) :
    Except String AssistantMessage :=
  if env.presents then do
    let rows := tables.rendered work.id message.envelope.requestVersion
    if 16 < rows.length then throw "at most 16 presentation components may be committed"
    let components ← rows.mapM (component env work)
    if components.isEmpty then return message
    else return { message with
      envelope := { message.envelope with presentations := some components } }
  else .ok message

end CommitTables

/-- `'result:' + sha256(JSON.stringify([work.id, message]))`. -/
def resultIdOf (env : CommitEnv) (workId : String) (message : AssistantMessage) : String :=
  "result:" ++ env.sha256 (Json.arr [.str workId, message.toJson]).stringify

/-- The row of a work that has committed a result. -/
def committed (now : Int) (resultId : String) (outcome : GoalOutcome) (work : JobRow) : JobRow :=
  let status := workStatusOf ⟨.completed, some outcome, none⟩
  { work with
    status := status
    resultId := some resultId
    goalOutcome := some outcome
    leaseTokenHash := none
    leaseExpiresAt := none
    finishedAt := if status = .waiting then none else some now }

/-- `(fence - 1) * RUN_SEQUENCE_SPAN`, or the last event of the run. -/
def lastSeq (events : List CommittedEvent) (work : JobRow) : Int :=
  (events.filter (·.runId = work.id)).foldl (fun last event => max last event.seq)
    (((work.fence : Int) - 1) * 100000)

namespace CommitTables

/-- A result that is there may only be followed by another one while the goal is open. -/
def checkPrior (tables : CommitTables) (stored : JobRow) (resultId : String) : Except String Unit :=
  match stored.resultId with
  | none => .ok ()
  | some priorId => match tables.results.get? priorId with
    | none => .ok ()
    | some prior =>
        if priorId ≠ resultId ∧ prior.message.envelope.goalOutcome.status = .satisfied then
          .error "a different response is already committed for this run"
        else .ok ()

/-- `conversation.internal`, or a kind of work that is about memory. -/
def isInternal (work : JobRow) : Bool := Jsonb.get work.conversation "internal" = some (.bool true)

def recordsMemory (env : CommitEnv) (work : JobRow) (outcome : GoalOutcome) : Bool :=
  env.learns && !isInternal work
    && !(["memory_synthesis", "memory_index", "memory_evaluation"].contains work.kind)
    && !outcome.isWaiting

/-- The writes of the delivery, once the message is accepted. -/
def store (tables : CommitTables) (env : CommitEnv) (now : Int) (work stored : JobRow)
    (resultId : String) (message : AssistantMessage) : CommitTables :=
  let outcome := message.envelope.goalOutcome
  let version := message.envelope.requestVersion
  let works := tables.works.set work.id (committed now resultId outcome stored)
  { works := if workStatusOf ⟨.completed, some outcome, none⟩ = .waiting then works
      else Jobs.cancelDescendants now works work.id
    attempts := tables.attempts
    results := if tables.results.has resultId then tables.results
      else tables.results.set resultId ⟨work.id, version, work.fence, message⟩
    actions := tables.actions
    memoryCapture := if recordsMemory env work outcome then insertId tables.memoryCapture resultId
      else tables.memoryCapture
    deliveryOutbox := if env.delivers && !isInternal work then
        insertId tables.deliveryOutbox resultId
      else tables.deliveryOutbox
    runEvents := tables.runEvents
      ++ [⟨work.id, lastSeq tables.runEvents work + 1, resultId, version⟩] }

/-- `deliverMessage`: what the transaction leaves, or the error it is rolled back with. -/
def deliverMessage (tables : CommitTables) (env : CommitEnv) (now : Int) (work : JobRow)
    (message : AssistantMessage) : Except String CommitTables := do
  env.persistArtifacts work message
  match tables.current now work message.envelope.requestVersion with
  | none => throw "request changed or lease expired before message persistence"
  | some stored =>
      env.authorizeConversation work
      let message ← tables.present env work message
      let resultId := resultIdOf env work.id message
      tables.checkPrior stored resultId
      if message.envelope.goalOutcome.status = .satisfied then env.accept work message
      return tables.store env now work stored resultId message

/-! ## The call -/

/-- The message of an attempt without a lease is the one that is stored. -/
def replays (tables : CommitTables) (now : Int) (proof : LeaseProof) (message : AssistantMessage) :
    Bool :=
  (tables.getLeased now proof).isNone
    && ((tables.getAttempt proof).bind tables.getMessage).any (· == message)

def requireLease (tables : CommitTables) (now : Int) (proof : LeaseProof) :
    Except ControlPlaneError JobRow :=
  if proof.id = "" ∨ isSafeInteger proof.fence = false then
    rejectWith 400 "work lease proof required"
  else match tables.getLeased now proof with
    | none => .error ⟨409, "work lease lost or expired", some "lease_lost"⟩
    | some work =>
        if work.cancelRequestedAt.isSome then
          rejectWith 409 "work is cancelled; no further actions are permitted"
        else .ok work

/-- The message is one of this run. -/
def checkIdentity (work : JobRow) (message : AssistantMessage) : Except ControlPlaneError Unit :=
  if message.runId ≠ work.id ∨ message.agentId ≠ work.agentId ∨ message.sessionId ≠ work.sessionId
      ∨ message.threadId ≠ work.threadId ∨ Text.isBlank message.body then
    rejectWith 409 "assistant message is missing its stream identity or body"
  else if message.envelope.goalOutcome.verification = .passed then
    rejectWith 409 "goal verification requires authoritative acceptance evidence"
  else .ok ()

/-- The version of the request as it is steered now. -/
def checkVersion (steered : Option JobRow) (message : AssistantMessage) :
    Except ControlPlaneError Unit :=
  let steers := steered.elim 0 fun row => row.steerInputs.length
  if message.envelope.requestVersion ≠ (steers + 1 : Nat) then
    rejectWith 409 "response request version is stale"
  else .ok ()

def checkLast (tables : CommitTables) (now : Int) (proof : LeaseProof) (current : Option JobRow)
    (message : AssistantMessage) : Except ControlPlaneError Unit := do
  match current with
  | none =>
      let _ ← tables.requireLease now proof
      throw ⟨409, "work lease lost before delivery", some "lease_lost"⟩
  | some row =>
      if row.cancelRequestedAt.isSome then
        throw ⟨409, "work is cancelled; response cannot be delivered", some "work_cancelled"⟩
      checkVersion current message

/-- The envelope is the one its records make. -/
def checkEnvelope (env : CommitEnv) (work : JobRow) (message : AssistantMessage) :
    Except ControlPlaneError Unit := do
  let expected ← env.recompute work message
  if expected.envelope ≠ message.envelope then
    throw ⟨409, "response envelope is inconsistent with its durable records", none⟩

/-- `commitResult`: the answer, and the tables it leaves. -/
def commitResult (tables : CommitTables) (env : CommitEnv) (now : Int) (proof : LeaseProof)
    (message : AssistantMessage) : Except Failure Unit × CommitTables :=
  if tables.replays now proof message then (.ok (), tables)
  else match tables.requireLease now proof with
    | .error e => (.error (.controlPlane e), tables)
    | .ok work => match checkIdentity work message, env.checkRecords work message with
      | .error e, _ => (.error (.controlPlane e), tables)
      | .ok (), .error e => (.error (.controlPlane e), tables)
      | .ok (), .ok () =>
          let (latest, tables) := tables.heartbeat env now proof
          match checkVersion latest message, checkEnvelope env work message with
          | .error e, _ => (.error (.controlPlane e), tables)
          | .ok (), .error e => (.error (.controlPlane e), tables)
          | .ok (), .ok () =>
              let (current, tables) := tables.heartbeat env now proof
              match tables.checkLast now proof current message with
              | .error e => (.error (.controlPlane e), tables)
              | .ok () => match tables.deliverMessage env now work message with
                | .error e => (.error (.error e), tables)
                | .ok tables => (.ok (), tables)

end CommitTables

end CommitResult

end LingxiOS
