-- SUMMARY: saveSession: its checks, its compare-and-set, its answer.
import LingxiOS.ControlPlane.ExecuteAction
import LingxiOS.Request.SessionStore

/-! # Saving a Session, One Await at a Time

`saveSession` reads the steering inputs, the request saved before and the recorded
reads one after the other, and saves the record last. Other calls may run between
any two of these operations. -/

namespace LingxiOS

/-- An awaited operation of `saveSession`. -/
inductive SaveOp where
  | service (op : ServiceOp)
  | save (session : SessionRecord) (lease : LeaseProof)

/-- A save answers with the new revision, or with nothing on a conflict. -/
@[reducible] def SaveOp.Value : SaveOp → Type
  | .service op => op.Value
  | .save _ _ => Option Nat

abbrev SaveCall (α : Type) := Program SaveOp SaveOp.Value Failure α

abbrev SaveEvent := Program.Event SaveOp SaveOp.Value Failure

/-! ## Comparison -/

/-- `isDeepStrictEqual` on requests. -/
def RequestSnapshot.same (a b : RequestSnapshot) : Bool :=
  a.version == b.version && a.workId == b.workId && a.tenantId == b.tenantId
    && a.sessionId == b.sessionId && a.authorId == b.authorId && a.sourceRef == b.sourceRef
    && a.originalText == b.originalText && a.revisions == b.revisions
    && a.codeExecution == b.codeExecution && a.deliveryMode == b.deliveryMode && a.mode == b.mode
    && (match a.obligations, b.obligations with
      | none, none => true
      | some a, some b => sameObligations a b
      | _, _ => false)
    && a.inheritedRevisions == b.inheritedRevisions && a.attachments == b.attachments
    && a.evidence == b.evidence && a.contract == b.contract
    && (match a.resourceChecks, b.resourceChecks with
      | none, none => true
      | some a, some b => sameChecks a b
      | _, _ => false)
    && a.parentWorkId == b.parentWorkId && a.rootWorkId == b.rootWorkId
    && a.parentRequestVersion == b.parentRequestVersion
    && a.instructionAuthor == b.instructionAuthor
    && a.delegatedAssignment == b.delegatedAssignment && a.conversation == b.conversation

/-- Two items are equal where their texts are: an output is the text of its JSON. -/
def ModelItem.same : ModelItem → ModelItem → Bool
  | .message role content, .message role' content' => role == role' && content == content'
  | .functionCall call, .functionCall call' => call == call'
  | .functionCallOutput callId output, .functionCallOutput callId' output' =>
      callId == callId' && output.toJson.stringify == output'.toJson.stringify
  | _, _ => false

def sameItems (a b : List ModelItem) : Bool :=
  a.length == b.length && (a.zip b).all (fun items => items.1.same items.2)

/-- `isDeepStrictEqual(current, { ...session, revision: current.revision })`. -/
def SessionRecord.sameBut (current session : SessionRecord) : Bool :=
  current.key == session.key && current.tenantId == session.tenantId
    && current.agentId == session.agentId && current.sessionId == session.sessionId
    && current.threadId == session.threadId
    && (match current.request, session.request with
      | none, none => true
      | some a, some b => a.same b
      | _, _ => false)
    && current.summary == session.summary && sameItems current.history session.history
    && current.appliedWorkIds == session.appliedWorkIds
    && current.compactionEpoch == session.compactionEpoch

namespace Service

/-! ## The awaited checks -/

/-- A check that awaits nothing. -/
def checked {α : Type} (outcome : Except ControlPlaneError α) : Service α :=
  .done (outcome.mapError .controlPlane)

/-- The hash and the tools; the ledger is awaited instead. -/
def saveEnv (service : ServiceConfig) : SaveEnv where
  sha256 := service.sha256
  findIntent _ := none
  find _ := none
  tools := service.tools

def checkSteering (proof : LeaseProof) (request : Option RequestSnapshot) : Service Unit :=
  if ((request.map RequestSnapshot.revisions).getD []).isEmpty then pure ()
  else do
    let current ← await (.heartbeat proof)
    checked (checkRevisions (current.map HeartbeatRow.steer) request)

/-- The recorded result of a read of this version of the request, with its action. -/
def recordedRead (work : TurnWork) (requestVersion : Nat) (permits : String → Bool)
    (noIntent noResult key : String) : Service (String × HostActionResult) := do
  match ← await (.findIntent key) with
  | none => refuse 409 noIntent
  | some intent =>
      if !currentIntent work requestVersion intent || !permits intent.action.action then
        refuse 409 noIntent
      else
        match ← await (.find key) with
        | none => refuse 409 noResult
        | some result => pure (intent.action.action, result)

def replayChecks (work : TurnWork) (requestVersion : Nat) (expected : List ResourceCheckRecord) :
    List ResourceCheckRecord → Service (List ResourceCheckRecord)
  | [] => pure expected
  | record :: rest => do
      let read ← recordedRead work requestVersion (· == "task.check_resource")
        "resource observation lacks a current scoped read intent"
        "resource observation lacks a recorded result" record.actionKey
      match appendResourceCheck expected record.actionKey read.2 requestVersion with
      | .ok expected => replayChecks work requestVersion expected rest
      | .error _ => refuse 409 "invalid resource observation"

def checkResources (work : TurnWork) (previous next : Option RequestSnapshot) : Service Unit :=
  let own := ownPrevious work previous
  let previousChecks := (own.bind RequestSnapshot.resourceChecks).getD []
  let nextChecks := (next.bind RequestSnapshot.resourceChecks).getD []
  if 64 < nextChecks.length
      || !sameChecks (nextChecks.take previousChecks.length) previousChecks then
    refuse 409 "resource observations cannot be rewritten"
  else if nextChecks.length ≤ previousChecks.length then pure ()
  else match own, next with
    | some _, some request => do
        let expected ← replayChecks work request.requestVersion previousChecks
          (nextChecks.drop previousChecks.length)
        if sameChecks expected nextChecks then pure ()
        else refuse 409 "resource observations do not match recorded reads"
    | _, _ => refuse 409 "resource observations require a saved request"

def replayEvidence (service : ServiceConfig) (work : TurnWork) (requestVersion : Nat)
    (expected : EvidenceSnapshot) : List EvidenceItem → Service EvidenceSnapshot
  | [] => pure expected
  | item :: rest =>
      match item.actionKey.filter (· != "") with
      | none => refuse 409 "evidence lacks a current authorized read intent"
      | some key => do
          let read ← recordedRead work requestVersion (readsEvidence (saveEnv service))
            "evidence lacks a current authorized read intent"
            "evidence lacks a recorded research read" key
          match appendReadEvidence service.sha256 expected key read.2 read.1 with
          | .ok expected => replayEvidence service work requestVersion expected rest
          | .error message => .done (.error (.error message))

def checkEvidenceGrowth (service : ServiceConfig) (work : TurnWork)
    (previous next : Option RequestSnapshot) : Service Unit :=
  match ownPrevious work previous, next with
  | none, none => pure ()
  | none, some next =>
      if next.evidence.items.any (fun item => item.actionKey.isSome) then
        refuse 409 "research evidence requires a saved initial snapshot"
      else pure ()
  | some _, none => refuse 409 "acquired evidence cannot be rewritten"
  | some previous, some next =>
      let before := previous.evidence.items
      if previous.evidence = next.evidence then pure ()
      else if next.evidence.items.length ≤ before.length
          || next.evidence.items.take before.length != before then
        refuse 409 "acquired evidence cannot be rewritten"
      else do
        let expected ← replayEvidence service work next.requestVersion previous.evidence
          (next.evidence.items.drop before.length)
        if expected = next.evidence then pure ()
        else refuse 409 "evidence does not match recorded research reads"

/-- The checks against the request saved before. -/
def checkPrevious (service : ServiceConfig) (work : TurnWork)
    (previous next : Option RequestSnapshot) : Service Unit := do
  checkResources work previous next
  checked (checkRewrite work previous next)
  checkEvidenceGrowth service work previous next

/-- Every check of a record before it is saved, and the work that saves it. -/
def checkSession (service : ServiceConfig) (proof : LeaseProof) (session : SessionRecord) :
    Service TurnWork := do
  let leased ← requireLease proof false
  await (.authorizeWork leased.work)
  checked (checkRequest (saveEnv service) leased.work session)
  checkSteering proof session.request
  let previous ← await (.getSession leased.work.sessionKey leased.work.id)
  checkPrevious service leased.work (previous.bind SessionRecord.request) session.request
  pure leased.work

/-- After a conflict: the record may be stored already, by a save whose answer was lost. -/
def readBack (proof : LeaseProof) (work : TurnWork) (session : SessionRecord) : Service Nat := do
  let _ ← requireLease proof false
  match ← await (.getSession session.key work.id) with
  | some current =>
      if current.revision = session.revision + 1 ∧ current.sameBut session = true then
        pure current.revision
      else refuse 409 "session revision conflict" (some "session_conflict")
  | none => refuse 409 "session revision conflict" (some "session_conflict")

end Service

/-- Await an operation of the control plane. -/
def SaveCall.serve (op : ServiceOp) : SaveCall op.Value :=
  Program.perform (SaveOp.service op)

def SaveCall.save (session : SessionRecord) (lease : LeaseProof) : SaveCall (Option Nat) :=
  Program.perform (SaveOp.save session lease)

def saveSession (service : ServiceConfig) (proof : LeaseProof) (session : SessionRecord) :
    SaveCall Nat := do
  let work ← (Service.checkSession service proof session).interpret SaveCall.serve
  match ← SaveCall.save session ⟨work.id, proof.fence, proof.leaseTokenHash⟩ with
  | some revision => pure revision
  | none => (Service.readBack proof work session).interpret SaveCall.serve

end LingxiOS
