-- SUMMARY: Request snapshots: how a turn captures one and how a child task inherits it.
import LingxiOS.Context.Evidence
import LingxiOS.Context.Facts

/-! # Request Snapshots

A run answers one request. `snapshotRequest` captures it from the turn context,
either from the trigger message or, for a delegated task, from the snapshot of
the parent that `enqueueChild` put into its metadata. -/

namespace LingxiOS

/-! ## Policies -/

inductive HarnessMode where
  | chat | read | execute
  deriving DecidableEq

def HarnessMode.name : HarnessMode → String
  | .chat => "chat"
  | .read => "read"
  | .execute => "execute"

def HarnessMode.ofName? : String → Option HarnessMode
  | "chat" => some .chat
  | "read" => some .read
  | "execute" => some .execute
  | _ => none

inductive CodeExecutionMode where
  | enabled | disabled
  deriving DecidableEq

def CodeExecutionMode.ofName? : String → Option CodeExecutionMode
  | "enabled" => some .enabled
  | "disabled" => some .disabled
  | _ => none

inductive DeliveryMode where
  | auto | text | action
  deriving DecidableEq

def DeliveryMode.name : DeliveryMode → String
  | .auto => "auto"
  | .text => "text"
  | .action => "action"

def DeliveryMode.ofName? : String → Option DeliveryMode
  | "auto" => some .auto
  | "text" => some .text
  | "action" => some .action
  | _ => none

theorem HarnessMode.name_of_ofName? {s : String} {mode : HarnessMode}
    (h : HarnessMode.ofName? s = some mode) : mode.name = s := by
  unfold HarnessMode.ofName? at h
  split at h <;> simp_all [HarnessMode.name] <;> (subst h; rfl)

theorem DeliveryMode.name_of_ofName? {s : String} {mode : DeliveryMode}
    (h : DeliveryMode.ofName? s = some mode) : mode.name = s := by
  unfold DeliveryMode.ofName? at h
  split at h <;> simp_all [DeliveryMode.name] <;> (subst h; rfl)

/-! ## Data -/

structure MessageReference where
  messageId : String
  version : Nat
  deriving DecidableEq

inductive Visibility where
  | conversation | participants | internal
  deriving DecidableEq

structure Audience where
  visibility : Visibility
  participantIds : List String
  deriving DecidableEq

structure WorkConversation where
  conversationId : String
  policyVersion : Nat
  source : MessageReference
  audience : Audience
  /-- Internal delegates retain their parent's audience without acquiring a reply slot. -/
  internal : Bool
  deriving DecidableEq

structure InstructionAuthor where
  id : String
  kind : String
  deriving DecidableEq

structure RequestSnapshot where
  version : Nat
  workId : String
  tenantId : String
  sessionId : String
  authorId : String
  sourceRef : String
  originalText : String
  revisions : List SteerInput
  codeExecution : Option CodeExecutionMode := none
  deliveryMode : Option DeliveryMode := none
  mode : Option HarnessMode := none
  obligations : Option (List DeliveryObligation) := none
  inheritedRevisions : Option (List SteerInput) := none
  attachments : List RequestAttachment
  evidence : EvidenceSnapshot
  contract : Option TaskContract := none
  resourceChecks : Option (List ResourceCheckRecord) := none
  parentWorkId : Option String := none
  rootWorkId : Option String := none
  parentRequestVersion : Option Nat := none
  instructionAuthor : Option InstructionAuthor := none
  delegatedAssignment : Option String := none
  conversation : Option WorkConversation := none

/-- The revisions a child inherits from a request: its own and those it inherited. -/
def RequestSnapshot.lineage (request : RequestSnapshot) : List SteerInput :=
  request.inheritedRevisions.getD [] ++ request.revisions

/-- The version a request has reached: one more than its revisions. -/
def RequestSnapshot.requestVersion (request : RequestSnapshot) : Nat := request.revisions.length + 1

/-- What `enqueueChild` tells a child about its parent. -/
structure Delegation where
  parentWorkId : String
  rootWorkId : Option String
  parentRequestVersion : Nat
  instructionAuthorId : String
  parentRequest : Option RequestSnapshot
  assignment : String

/-- The fields of `meta` the capture, the save and the delegation read. The
    policy fields are unchecked names. -/
structure TurnMeta where
  text : Option String := none
  mode : Option String := none
  codeExecution : Option String := none
  deliveryMode : Option String := none
  obligations : Option (List DeliveryObligation) := none
  attachments : Option (List RequestAttachment) := none
  executionClass : Option String := none
  rootWorkId : Option String := none
  parentWorkId : Option String := none
  parentRequestVersion : Option Nat := none
  delegation : Option Delegation := none

/-- A leased work as the control plane and the runtime see it. -/
structure TurnWork where
  id : String
  tenantId : String
  agentId : String
  sessionId : String
  threadId : Option String
  kind : String
  lane : WorkLane
  triggerRef : String
  principalId : Option String
  conversation : Option WorkConversation := none
  meta_ : TurnMeta

/-- The parent snapshot a delegated work carries. -/
def TurnWork.parentRequest (work : TurnWork) : Option RequestSnapshot :=
  work.meta_.delegation.bind Delegation.parentRequest

structure ContextMessage where
  ref : String
  authorId : String
  body : String
  deriving DecidableEq

/-- The part of a turn context a request is captured from. -/
structure RequestContext where
  work : TurnWork
  messages : List ContextMessage
  evidence : Option (List EvidenceItem) := none

/-! ## Capture -/

def executionMode (work : TurnWork) : Except String HarnessMode :=
  match HarnessMode.ofName? (work.meta_.mode.getD "execute") with
  | some mode => .ok mode
  | none => .error "invalid execution mode"

/-- The checked value of a policy field that may be absent. -/
def configured {α : Type} (ofName? : String → Option α) (error : String) :
    Option String → Except String (Option α)
  | none => .ok none
  | some name => match ofName? name with
    | some value => .ok (some value)
    | none => .error error

def configuredCode (work : TurnWork) : Except String (Option CodeExecutionMode) :=
  configured CodeExecutionMode.ofName? "invalid code execution policy" work.meta_.codeExecution

def configuredDelivery (work : TurnWork) : Except String (Option DeliveryMode) :=
  configured DeliveryMode.ofName? "invalid delivery mode" work.meta_.deliveryMode

/-- The single message that triggered the work. -/
def triggerMessage (context : RequestContext) : Except String ContextMessage :=
  match context.messages.filter (fun item => item.ref == context.work.triggerRef) with
  | [message] => .ok message
  | _ => .error "exactly one trigger message is required to capture the original request"

/-- An obligation list is only written when there is something in it. -/
def nonEmpty {α : Type} (items : List α) : Option (List α) :=
  if items.isEmpty then none else some items

/-- A delegated request must be the one its delegation names. -/
def validDelegation (work : TurnWork) (delegation : Delegation) (parent : RequestSnapshot) : Bool :=
  parent.version == 1 && parent.workId == delegation.parentWorkId
    && work.principalId == some parent.authorId
    && isSafeInteger delegation.parentRequestVersion
    && delegation.parentRequestVersion == parent.requestVersion

/-- The narrower of the parent's and the child's code policies. -/
def delegatedCode (parent child : Option CodeExecutionMode) : Option CodeExecutionMode :=
  if parent = some .disabled ∨ child = some .disabled then some .disabled else child.or parent

/-- The mode of a delegated request: a parent's narrower mode wins. -/
def delegatedMode (meta_ : TurnMeta) (parent : Option HarnessMode) (mode : HarnessMode) :
    Option HarnessMode :=
  if meta_.mode.isSome || parent.isSome then
    if parent = some .chat ∨ (parent = some .read ∧ mode = .execute) then parent else some mode
  else none

/-- The request of a delegated work: the parent's, without what the parent
    derived or was allowed for itself. -/
def delegatedRequest (work : TurnWork) (message : ContextMessage) (mode : HarnessMode)
    (obligations : List DeliveryObligation) (code : Option CodeExecutionMode)
    (delivery : Option DeliveryMode) (delegation : Delegation) (parent : RequestSnapshot) :
    RequestSnapshot :=
  { parent with
    conversation := work.conversation.or parent.conversation
    workId := work.id
    sessionId := work.sessionId
    sourceRef := message.ref
    revisions := []
    inheritedRevisions := some parent.lineage
    codeExecution := delegatedCode parent.codeExecution code
    obligations := nonEmpty obligations
    mode := delegatedMode work.meta_ parent.mode mode
    deliveryMode := delivery
    contract := none
    resourceChecks := none
    parentWorkId := some parent.workId
    rootWorkId := some (delegation.rootWorkId.getD (parent.rootWorkId.getD parent.workId))
    parentRequestVersion := some delegation.parentRequestVersion
    instructionAuthor := some ⟨delegation.instructionAuthorId, "agent"⟩
    delegatedAssignment := some delegation.assignment }

/-- The request of a work nobody delegated. -/
def rootRequest (work : TurnWork) (message : ContextMessage) (mode : HarnessMode)
    (obligations : List DeliveryObligation) (code : Option CodeExecutionMode)
    (delivery : Option DeliveryMode) (attachments : List RequestAttachment)
    (evidence : EvidenceSnapshot) : RequestSnapshot where
  version := 1
  workId := work.id
  tenantId := work.tenantId
  sessionId := work.sessionId
  authorId := message.authorId
  conversation := work.conversation
  sourceRef := message.ref
  originalText := message.body
  revisions := []
  obligations := nonEmpty obligations
  mode := if work.meta_.mode.isSome then some mode else none
  codeExecution := code
  deliveryMode := delivery
  attachments := attachments
  evidence := evidence

def snapshotRequest (context : RequestContext) : Except String RequestSnapshot := do
  let work := context.work
  let message ← triggerMessage context
  let mode ← executionMode work
  let obligations ← snapshotObligations (work.meta_.obligations.getD [])
  let code ← configuredCode work
  let delivery ← configuredDelivery work
  match work.meta_.delegation, work.parentRequest with
  | some delegation, some parent =>
      if !validDelegation work delegation parent then throw "invalid delegated request snapshot"
      return delegatedRequest work message mode obligations code delivery delegation parent
  | _, _ =>
      let attachments ← snapshotAttachments (work.meta_.attachments.getD [])
      let evidence ← snapshotEvidence (work.id ++ ":evidence:1") (context.evidence.getD [])
      return rootRequest work message mode obligations code delivery attachments evidence

/-! ## Delegation -/

/-- What the model asks a child task to do, and the metadata a host may add. -/
structure ChildInput where
  id : String
  agentId : String
  text : String
  kind : Option String := none
  executionClass : Option String := none
  sessionId : Option String := none
  threadId : Option String := none
  dependsOn : Option (List String) := none
  codeExecution : Option String := none

/-- What the database says about a delegation: the answer of the conversation
    policy, whether the parent's ancestors are active, how many children it has
    besides this one, and whether the dependencies are its siblings. -/
structure DelegationState where
  participants : Except String Unit
  ancestorsActive : Bool
  children : Nat
  dependenciesAreSiblings : Bool

def executionClassName : ExecutionClass → String
  | .conversation => "conversation"
  | .operation => "operation"

/-- The code policy a child's metadata carries. -/
def childCode (inherited requested : Option String) : Option String :=
  if inherited = some "disabled" ∨ requested = some "disabled" then some "disabled"
  else if inherited = some "enabled" ∨ requested = some "enabled" then some "enabled"
  else none

/-- The mode a child's metadata carries: the parent's, once it was checked. -/
def childMode (parent : TurnWork) : Except String (Option String) :=
  match parent.meta_.mode with
  | none => .ok none
  | some _ => (executionMode parent).map (fun mode => some mode.name)

/-- The class a child runs in: the one asked for, else the parent's. -/
def ChildInput.resolvedClass (input : ChildInput) (parent : TurnWork) : String :=
  input.executionClass.getD
    (executionClassName (executionClassOf parent.lane parent.meta_.executionClass))

/-- The checks of `enqueueChild` before it builds the child's metadata. -/
def checkChild (state : DelegationState) (parent : TurnWork) (request : RequestSnapshot)
    (version : Nat) (input : ChildInput) : Except String Unit := do
  if request.workId ≠ parent.id ∨ request.requestVersion ≠ version then
    throw "current original request snapshot is required"
  state.participants
  if parent.conversation.isSome && input.threadId.isSome && input.threadId != parent.threadId then
    throw "delegation cannot change its conversation thread"
  if !state.ancestorsActive then throw "an ancestor task is no longer active"
  let dependsOn := input.dependsOn.getD []
  if (parent.principalId.getD "").isEmpty || Text.isBlank input.id || Text.isBlank input.agentId
      || Text.isBlank input.text || 100000 < Text.length input.text || 64 < dependsOn.length
      || dependsOn.any (fun id => Text.isBlank id || id == input.id) then
    throw "invalid child request"
  if 64 ≤ state.children then throw "a parent may create at most 64 child tasks"
  let executionClass := input.resolvedClass parent
  if !(["conversation", "operation"].contains executionClass)
      || (executionClass == "conversation"
        && executionClassOf parent.lane parent.meta_.executionClass != .conversation) then
    throw "invalid child execution class"
  if executionClass == "operation" && input.sessionId == some parent.sessionId
      && input.agentId == parent.agentId && input.threadId.or parent.threadId == parent.threadId then
    throw "long child work requires an isolated session"

/-- The session of a child that was not given one of its own. -/
def delegateSession (sha256 : String → String) (parent : TurnWork) (version : Nat)
    (input : ChildInput) : String :=
  "delegate-session:" ++ sha256 (Json.arr [.str parent.id, .num version, .str input.id]).canonical

/-- The metadata of a child: its lineage and budget root are never the model's. -/
def childMeta (parent : TurnWork) (request : RequestSnapshot) (version : Nat)
    (input : ChildInput) (mode : Option String) : TurnMeta where
  text := some input.text
  mode := mode
  codeExecution := childCode parent.meta_.codeExecution input.codeExecution
  attachments := some request.attachments
  executionClass := some (input.resolvedClass parent)
  rootWorkId := some (parent.meta_.rootWorkId.getD parent.id)
  parentWorkId := some parent.id
  parentRequestVersion := some version
  delegation := some
    { parentWorkId := parent.id
      rootWorkId := some (parent.meta_.rootWorkId.getD parent.id)
      parentRequestVersion := version
      instructionAuthorId := parent.agentId
      parentRequest := some request
      assignment := input.text }

/-- The work of a child. -/
def childWork (sha256 : String → String) (parent : TurnWork) (request : RequestSnapshot)
    (version : Nat) (input : ChildInput) (mode : Option String) : TurnWork where
  id := input.id
  tenantId := parent.tenantId
  agentId := input.agentId
  sessionId :=
    if parent.conversation.isSome then delegateSession sha256 parent version input
    else input.sessionId.getD (delegateSession sha256 parent version input)
  threadId := (input.threadId.or parent.threadId).filter (· != "")
  kind := input.kind.getD "turn"
  lane := .collaboration
  triggerRef := parent.triggerRef
  principalId := parent.principalId
  conversation := parent.conversation.map (fun conversation => { conversation with internal := true })
  meta_ := childMeta parent request version input mode

/-- The work enqueued for a child of `parent` under the parent's saved request. -/
def enqueueChild (sha256 : String → String) (state : DelegationState) (parent : TurnWork)
    (request : RequestSnapshot) (version : Nat) (input : ChildInput) : Except String TurnWork := do
  checkChild state parent request version input
  let mode ← childMode parent
  if !state.dependenciesAreSiblings then
    throw "dependencies must be existing siblings of this graph and request"
  return childWork sha256 parent request version input mode

end LingxiOS
