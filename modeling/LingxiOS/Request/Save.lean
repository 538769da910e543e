-- SUMMARY: The checks saveSession makes of a session and of the request it carries.
import LingxiOS.Request.Session

/-! # Saving a Session

`saveSession` accepts a session in stages. The first look only at the record
and at the work's metadata; the later ones compare it with the steering inputs,
with the request saved before, and with the action ledger. -/

namespace LingxiOS

structure ControlPlaneError where
  status : Nat
  message : String
  code : Option String := none
  deriving DecidableEq

/-- What the request checks read besides the session: the ledger and the tools. -/
structure SaveEnv where
  sha256 : String → String
  findIntent : String → Option ActionIntent
  find : String → Option HostActionResult
  tools : List ToolDefinition := []

/-- Throw an error without a code of its own. -/
def rejectWith {α : Type} (status : Nat) (message : String) : Except ControlPlaneError α :=
  .error ⟨status, message, none⟩

@[simp] theorem rejectWith_ne_ok {α : Type} (status : Nat) (message : String) (a : α) :
    rejectWith status message ≠ .ok a := nofun

/-! ## The record -/

/-- The request of a session belongs to the work that saves it. -/
def validRequest (work : TurnWork) (request : RequestSnapshot) : Bool :=
  request.version == 1 && request.workId == work.id && request.tenantId == work.tenantId
    && request.sessionId == work.sessionId && request.conversation == work.conversation
    && request.sourceRef == work.triggerRef
    && (work.principalId.isNone || work.principalId == some request.authorId)
    && (match work.meta_.text with
      | none => true
      | some text =>
          if work.meta_.delegation.isSome then request.delegatedAssignment == some text
          else request.originalText == text)

/-- The record is the one of this work's session. -/
def validIdentity (work : TurnWork) (session : SessionRecord) : Bool :=
  session.key == work.sessionKey && session.tenantId == work.tenantId
    && session.agentId == work.agentId && session.sessionId == work.sessionId
    && session.threadId == work.threadId && isSafeInteger session.revision
    && isSafeInteger session.compactionEpoch

def checkRecord (work : TurnWork) (session : SessionRecord) : Except ControlPlaneError Unit :=
  let requestOk := match session.request with
    | none => work.meta_.text.isNone
    | some request => validRequest work request
  if validIdentity work session && requestOk then .ok ()
  else rejectWith 400 "invalid session record for this work lease"

/-- A saved contract is the one its own fields would create again. -/
def checkContract (env : SaveEnv) (request : RequestSnapshot) : Except ControlPlaneError Unit :=
  match request.contract with
  | none => .ok ()
  | some contract =>
      match createTaskContract env.sha256 request.originalText request.requestVersion
          contract.draft with
      | .ok expected =>
          if contract = expected then .ok () else rejectWith 400 "invalid request task contract"
      | .error _ => rejectWith 400 "invalid request task contract"

/-- `isDeepStrictEqual` on obligations. -/
def sameObligations (a b : List DeliveryObligation) : Bool :=
  Json.deepEqual (.arr (a.map DeliveryObligation.toJson)) (.arr (b.map DeliveryObligation.toJson))

/-- The code policy trusted metadata gives a request. -/
def expectedCode (work : TurnWork) : Option CodeExecutionMode :=
  let parent := work.parentRequest.bind RequestSnapshot.codeExecution
  let configured := work.meta_.codeExecution
  if parent = some .disabled ∨ configured = some "disabled" then some .disabled
  else if configured = some "enabled" ∨ parent = some .enabled then some .enabled
  else none

/-- The name of the mode trusted metadata gives a request. The work's own mode
    is only read (and checked) when the parent's is `read`. -/
def expectedMode (work : TurnWork) : Except String (Option String) :=
  match work.parentRequest.bind RequestSnapshot.mode with
  | some .chat => .ok (some HarnessMode.chat.name)
  | some .read => do
      let mode ← executionMode work
      return if mode = .execute then some HarnessMode.read.name else work.meta_.mode
  | _ => .ok work.meta_.mode

/-- What a request inherits from its parent is what the delegation carries. -/
def inheritsFromParent (work : TurnWork) (request : RequestSnapshot) : Bool :=
  match work.parentRequest with
  | some parent => request.originalText == parent.originalText
      && request.inheritedRevisions.getD [] == parent.lineage
  | none => (request.inheritedRevisions.getD []).isEmpty

def checkDelegation (work : TurnWork) (request : RequestSnapshot) :
    Except ControlPlaneError Unit :=
  if !inheritsFromParent work request then
    rejectWith 400 "inherited human requirements differ from the durable delegation"
  else if request.codeExecution ≠ expectedCode work
      ∨ request.deliveryMode.map DeliveryMode.name ≠ work.meta_.deliveryMode then
    rejectWith 400 "request execution or delivery policy differs from trusted work metadata"
  else match expectedMode work with
    | .error message => rejectWith 500 message
    | .ok mode =>
        if request.mode.map HarnessMode.name ≠ mode then
          rejectWith 400 "request mode differs from trusted work metadata"
        else match snapshotObligations (request.obligations.getD []),
            snapshotObligations (work.meta_.obligations.getD []) with
          | .ok saved, .ok trusted =>
              if sameObligations saved trusted then .ok ()
              else rejectWith 400 "delivery obligations differ from trusted work metadata"
          | .error message, _ => rejectWith 500 message
          | _, .error message => rejectWith 500 message

/-- The attachments of the revisions, each list checked on its own. -/
def revisionAttachments : List SteerInput → Except String Nat
  | [] => .ok 0
  | revision :: rest => do
      let attachments ← snapshotAttachments (revision.attachments.getD [])
      let count ← revisionAttachments rest
      return attachments.length + count

def checkAttached (work : TurnWork) (request : RequestSnapshot) : Except String Unit := do
  let saved ← snapshotAttachments request.attachments
  let trusted ← snapshotAttachments (work.meta_.attachments.getD [])
  if saved ≠ trusted then throw "attachment mismatch"
  let count ← revisionAttachments request.revisions
  if 20 < request.attachments.length + count then throw "request attachment limit reached"

def checkRequestAttachments (work : TurnWork) (request : RequestSnapshot) :
    Except ControlPlaneError Unit :=
  match checkAttached work request with
  | .ok () => .ok ()
  | .error _ => rejectWith 400 "invalid request attachments or mismatch with the original input"

def checkEvidence (request : RequestSnapshot) : Except ControlPlaneError Unit :=
  if request.evidence.version ≠ 1 then rejectWith 400 "invalid request evidence snapshot"
  else match snapshotEvidence request.evidence.id request.evidence.items with
    | .ok _ => .ok ()
    | .error _ => rejectWith 400 "invalid request evidence snapshot"

/-- The checks that read the session and the work's metadata alone. -/
def checkRequest (env : SaveEnv) (work : TurnWork) (session : SessionRecord) :
    Except ControlPlaneError Unit := do
  checkRecord work session
  match session.request with
  | none => return ()
  | some request =>
      checkContract env request
      checkDelegation work request
      checkRequestAttachments work request
      checkEvidence request

/-! ## Steering -/

/-- The saved revisions are the first of the persisted steering inputs. -/
def checkRevisions (steer : Option (List SteerInput)) (request : Option RequestSnapshot) :
    Except ControlPlaneError Unit :=
  match request with
  | none => .ok ()
  | some request =>
      if request.revisions.isEmpty then .ok ()
      else match steer with
        | none => rejectWith 409 "work lease lost before saving revisions"
        | some steer =>
            if request.revisions.isPrefixOf steer then .ok ()
            else rejectWith 400 "request revisions do not match persisted human steering"

/-! ## The request saved before -/

/-- The intent of a recorded action of this work and this version of its request. -/
def currentIntent (work : TurnWork) (requestVersion : Nat) (intent : ActionIntent) : Bool :=
  intent.workId == work.id && intent.tenantId == work.tenantId
    && intent.principalId == work.principalId && intent.agentId == work.agentId
    && intent.sessionId == work.sessionId && intent.threadId == work.threadId
    && intent.requestVersion == some requestVersion

/-- `isDeepStrictEqual` on resource checks. -/
def sameChecks (a b : List ResourceCheckRecord) : Bool :=
  let toJson (checks : List ResourceCheckRecord) : Json := .arr (checks.map (fun record =>
    .obj [("actionKey", .str record.actionKey), ("result", record.result.toJson)]))
  Json.deepEqual (toJson a) (toJson b)

/-- The request saved before, if it is one of this work. -/
def ownPrevious (work : TurnWork) (previous : Option RequestSnapshot) : Option RequestSnapshot :=
  previous.filter (fun request => request.workId == work.id)

/-- The checks the records say were added, one recorded read at a time. -/
def replayChecks (env : SaveEnv) (work : TurnWork) (requestVersion : Nat)
    (expected : List ResourceCheckRecord) :
    List ResourceCheckRecord → Except ControlPlaneError (List ResourceCheckRecord)
  | [] => .ok expected
  | record :: rest =>
      match env.findIntent record.actionKey with
      | none => rejectWith 409 "resource observation lacks a current scoped read intent"
      | some intent =>
          if !currentIntent work requestVersion intent
              || intent.action.action != "task.check_resource" then
            rejectWith 409 "resource observation lacks a current scoped read intent"
          else match env.find record.actionKey with
            | none => rejectWith 409 "resource observation lacks a recorded result"
            | some result =>
                match appendResourceCheck expected record.actionKey result requestVersion with
                | .ok expected => replayChecks env work requestVersion expected rest
                | .error _ => rejectWith 409 "invalid resource observation"

def checkResources (env : SaveEnv) (work : TurnWork) (previous next : Option RequestSnapshot) :
    Except ControlPlaneError Unit :=
  let own := ownPrevious work previous
  let previousChecks := (own.bind RequestSnapshot.resourceChecks).getD []
  let nextChecks := (next.bind RequestSnapshot.resourceChecks).getD []
  if 64 < nextChecks.length
      || !sameChecks (nextChecks.take previousChecks.length) previousChecks then
    rejectWith 409 "resource observations cannot be rewritten"
  else if nextChecks.length ≤ previousChecks.length then .ok ()
  else match own, next with
    | some _, some request => do
        let expected ← replayChecks env work request.requestVersion previousChecks
          (nextChecks.drop previousChecks.length)
        if sameChecks expected nextChecks then return ()
        else rejectWith 409 "resource observations do not match recorded reads"
    | _, _ => rejectWith 409 "resource observations require a saved request"

/-- What a later save of the same request may not change. -/
def keepsRequest (previous next : RequestSnapshot) : Bool :=
  next.originalText == previous.originalText && next.authorId == previous.authorId
    && next.sourceRef == previous.sourceRef && next.codeExecution == previous.codeExecution
    && next.deliveryMode == previous.deliveryMode && next.mode == previous.mode
    && sameObligations (next.obligations.getD []) (previous.obligations.getD [])
    && previous.revisions.isPrefixOf next.revisions

def checkRewrite (work : TurnWork) (previous next : Option RequestSnapshot) :
    Except ControlPlaneError Unit :=
  match ownPrevious work previous with
  | none => .ok ()
  | some previous =>
      if next.any (fun next => keepsRequest previous next) then .ok ()
      else rejectWith 409 "acquired request and evidence snapshots cannot be rewritten"

/-- An action whose recorded result may extend the evidence. -/
def readsEvidence (env : SaveEnv) (action : String) : Bool :=
  ["research.read", "task.read_attachment"].contains action
    || env.tools.any (fun tool => tool.action == action && tool.effect == .read)

/-- The evidence the items say was added, one recorded read at a time. -/
def replayEvidence (env : SaveEnv) (work : TurnWork) (requestVersion : Nat)
    (expected : EvidenceSnapshot) :
    List EvidenceItem → Except ControlPlaneError EvidenceSnapshot
  | [] => .ok expected
  | item :: rest =>
      match item.actionKey.filter (· != "") with
      | none => rejectWith 409 "evidence lacks a current authorized read intent"
      | some key =>
          match env.findIntent key with
          | none => rejectWith 409 "evidence lacks a current authorized read intent"
          | some intent =>
              if !currentIntent work requestVersion intent
                  || !readsEvidence env intent.action.action then
                rejectWith 409 "evidence lacks a current authorized read intent"
              else match env.find key with
                | none => rejectWith 409 "evidence lacks a recorded research read"
                | some result =>
                    match appendReadEvidence env.sha256 expected key result
                        intent.action.action with
                    | .ok expected => replayEvidence env work requestVersion expected rest
                    | .error message => rejectWith 500 message

def checkEvidenceGrowth (env : SaveEnv) (work : TurnWork)
    (previous next : Option RequestSnapshot) : Except ControlPlaneError Unit :=
  match ownPrevious work previous, next with
  | none, none => .ok ()
  | none, some next =>
      if next.evidence.items.any (fun item => item.actionKey.isSome) then
        rejectWith 409 "research evidence requires a saved initial snapshot"
      else .ok ()
  | some _, none => rejectWith 409 "acquired evidence cannot be rewritten"
  | some previous, some next =>
      let before := previous.evidence.items
      if previous.evidence = next.evidence then .ok ()
      else if next.evidence.items.length ≤ before.length
          || next.evidence.items.take before.length != before then
        rejectWith 409 "acquired evidence cannot be rewritten"
      else do
        let expected ← replayEvidence env work next.requestVersion previous.evidence
          (next.evidence.items.drop before.length)
        if expected = next.evidence then return ()
        else rejectWith 409 "evidence does not match recorded research reads"

/-- The checks against the request saved before. -/
def checkPrevious (env : SaveEnv) (work : TurnWork) (previous next : Option RequestSnapshot) :
    Except ControlPlaneError Unit := do
  checkResources env work previous next
  checkRewrite work previous next
  checkEvidenceGrowth env work previous next

/-- Every check `saveSession` makes of the session it is given, with the
    steering inputs and the saved request it reads on the way. -/
def saveChecks (env : SaveEnv) (work : TurnWork) (session : SessionRecord)
    (steer : Option (List SteerInput)) (previous : Option RequestSnapshot) :
    Except ControlPlaneError Unit := do
  checkRequest env work session
  checkRevisions steer session.request
  checkPrevious env work previous session.request

end LingxiOS
