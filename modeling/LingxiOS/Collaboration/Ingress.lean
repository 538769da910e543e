-- SUMMARY: ingestMessage: its checks, the runs it creates and cancels.
import LingxiOS.Base.Transition
import LingxiOS.Collaboration.Access
import LingxiOS.Context.Facts
import LingxiOS.Delegation.Jobs

/-! # Message Ingress

`ingestMessage` of `conversations.ts` as one transaction over the tables it reads and
writes; the lock on the conversation's row makes calls take turns. What a call throws
leaves the tables as they were. The stored rows hold well-formed strings, so identifiers
are `String`s here; `access.ts` reads them as the units they consist of. -/

namespace LingxiOS

namespace Conversations

open Collaboration (forbidden require ConversationCapability ParticipantKind)
open Jobs (JobRow EnqueueWorkInput StoredRunIdentity)

/-! ## Policies and audiences -/

structure Member where
  id : String
  kind : ParticipantKind
  capabilities : List ConversationCapability
  deriving DecidableEq

structure Policy where
  version : Int
  participants : List Member
  defaultAgentId : Option String
  deriving DecidableEq

def Policy.access (policy : Policy) : Collaboration.ConversationPolicy :=
  ⟨policy.participants.map fun item => ⟨Stringify.literal item.id, item.kind, item.capabilities⟩⟩

structure Audience where
  visibility : Collaboration.Visibility
  participantIds : List String
  deriving DecidableEq

def Audience.access (audience : Audience) : Collaboration.Audience :=
  ⟨audience.visibility, audience.participantIds.map Stringify.literal⟩

inductive AudienceInput where
  | conversation
  | participants (ids : List String)
  deriving DecidableEq

def participant (policy : Policy) (id : String) (capability : ConversationCapability)
    (kind : Option ParticipantKind) : Except Collaboration.Failure Unit :=
  Collaboration.participant policy.access (Stringify.literal id) capability kind

def requireAudience (policy : Policy) (audience : Audience) (ids : List String) :
    Except Collaboration.Failure Unit :=
  Collaboration.requireAudience policy.access audience.access (ids.map Stringify.literal)

def containsAudience (resource output : Audience) : Bool :=
  Collaboration.containsAudience resource.access output.access

/-! ## Messages -/

inductive AuthorKind where
  | human | agent | system
  deriving DecidableEq

def AuthorKind.name : AuthorKind → String
  | .human => "human"
  | .agent => "agent"
  | .system => "system"

structure Author where
  id : String
  kind : AuthorKind
  deriving DecidableEq

structure MessageReference where
  messageId : String
  version : Int
  deriving DecidableEq

structure IMMessageInput where
  tenantId : String
  conversationId : String
  threadId : Option String := none
  messageId : String
  version : Int
  policyVersion : Int
  author : Author
  text : String
  mentions : Option (List String) := none
  audience : Option AudienceInput := none
  replyTo : Option MessageReference := none
  /-- `causedBy.resultId`. -/
  causedBy : Option String := none
  attachments : Option (List RequestAttachment) := none
  deriving DecidableEq

/-! ## As JSON -/

def visibilityName : Collaboration.Visibility → String
  | .conversation => "conversation"
  | .participants => "participants"
  | .internal => "internal"

def texts (ids : List String) : Json := .arr (ids.map .str)

def Audience.toJson (audience : Audience) : Json :=
  .obj [("visibility", .str (visibilityName audience.visibility)),
    ("participantIds", texts audience.participantIds)]

def AudienceInput.toJson : AudienceInput → Json
  | .conversation => .obj [("visibility", .str "conversation")]
  | .participants ids => .obj [("visibility", .str "participants"), ("participantIds", texts ids)]

def MessageReference.toJson (reference : MessageReference) : Json :=
  .obj [("messageId", .str reference.messageId), ("version", .num reference.version)]

def contentStatusName : ContentStatus → String
  | .unsupported => "unsupported"
  | .empty => "empty"
  | .failed => "failed"
  | .tooLarge => "too_large"
  | .unavailable => "unavailable"

def attachmentJson (item : RequestAttachment) : Json :=
  .obj ([("id", .str item.id), ("sourceVersion", .str item.sourceVersion), ("name", .str item.name),
      ("mimeType", .str item.mimeType), ("size", .num item.size)]
    ++ optionalField "text" item.text .str
    ++ optionalField "contentStatus" item.contentStatus fun status => .str (contentStatusName status))

def attachmentsJson (items : List RequestAttachment) : Json := .arr (items.map attachmentJson)

def IMMessageInput.toJson (message : IMMessageInput) : Json :=
  .obj ([("tenantId", .str message.tenantId), ("conversationId", .str message.conversationId),
      ("messageId", .str message.messageId), ("version", .num message.version),
      ("policyVersion", .num message.policyVersion),
      ("author", .obj [("id", .str message.author.id), ("kind", .str message.author.kind.name)]),
      ("text", .str message.text)]
    ++ optionalField "threadId" message.threadId .str
    ++ optionalField "mentions" message.mentions texts
    ++ optionalField "audience" message.audience AudienceInput.toJson
    ++ optionalField "replyTo" message.replyTo MessageReference.toJson
    ++ optionalField "causedBy" message.causedBy (fun id => .obj [("resultId", .str id)])
    ++ optionalField "attachments" message.attachments attachmentsJson)

/-- `digest`. -/
def digest (sha256 : String → String) (value : Json) : String := sha256 value.canonical

/-! ## Tables -/

inductive IngressReason where
  | agentMessage | systemMessage | outboxEcho | noSpeaker
  deriving DecidableEq

structure IMIngressResult where
  runs : List StoredRunIdentity
  deduplicated : Bool
  reason : Option IngressReason
  deriving DecidableEq

/-- The primary key of `agent_im_messages`. -/
structure MessageKey where
  tenantId : String
  conversationId : String
  messageId : String
  version : Int
  deriving DecidableEq

def IMMessageInput.key (input : IMMessageInput) : MessageKey :=
  ⟨input.tenantId, input.conversationId, input.messageId, input.version⟩

structure MessageRow where
  threadId : Option String
  fingerprint : String
  input : IMMessageInput
  audience : Audience
  outcome : IMIngressResult

/-- The primary key of `agent_reply_slots`. -/
structure SlotKey where
  message : MessageKey
  agentId : String
  deriving DecidableEq

structure IngressTables where
  /-- The policies of the conversations, by tenant and id. -/
  conversations : JsMap (String × String) Policy
  threads : List (String × String × String)
  messages : JsMap MessageKey MessageRow
  /-- The work of a slot. -/
  slots : JsMap SlotKey String
  works : JsMap String JobRow
  /-- The work of a result. -/
  results : JsMap String String

/-! ## Checks -/

def identifier (value : String) : Except Collaboration.Failure Unit :=
  require (!Text.isBlank value && Text.length value ≤ 1000)
    (.error "invalid collaboration identifier")

def identity (tenantId conversationId : String) (threadId : Option String) :
    Except Collaboration.Failure Unit := do
  identifier tenantId
  identifier conversationId
  threadId.forM identifier

def positiveVersion (value : Int) : Except Collaboration.Failure Unit :=
  require (isSafeInteger value && 1 ≤ value) (.error "invalid collaboration version")

def MessageReference.check (reference : MessageReference) : Except Collaboration.Failure Unit := do
  identifier reference.messageId
  positiveVersion reference.version

/-- The checks of the input, before the tables are read. -/
def checkInput (input : IMMessageInput) : Except Collaboration.Failure Unit := do
  identity input.tenantId input.conversationId input.threadId
  identifier input.messageId
  identifier input.author.id
  positiveVersion input.version
  positiveVersion input.policyVersion
  require (!Text.isBlank input.text && Text.length input.text ≤ 100000
    && (input.mentions.getD []).length ≤ 64) (.error "invalid IM message")
  (input.mentions.getD []).forM identifier
  input.replyTo.forM MessageReference.check
  input.causedBy.forM identifier

/-- What is stored and digested: each mention once and in order, the attachments checked. -/
def messageOf (input : IMMessageInput) : Except Collaboration.Failure IMMessageInput := do
  let attachments ← (snapshotAttachments (input.attachments.getD [])).mapError .error
  return { input with
    mentions := some ((input.mentions.getD []).dedup.insertionSort (· ≤ ·))
    attachments := some attachments }

instance lawfulThreadKey : LawfulBEq (String × String × String) := inferInstance

def conversationPolicy (tables : IngressTables) (input : IMMessageInput) :
    Except Collaboration.Failure Policy := do
  identity input.tenantId input.conversationId input.threadId
  match tables.conversations.get? (input.tenantId, input.conversationId) with
  | none => throw (forbidden "conversation is unavailable")
  | some policy =>
      require (input.threadId.all fun id => (input.tenantId, input.conversationId, id) ∈ tables.threads)
        (forbidden "thread is outside this conversation")
      return policy

/-- Everyone who may read, or those who are named. -/
def recipients (policy : Policy) : AudienceInput → Collaboration.Visibility × List String
  | .conversation => (.conversation,
      (policy.participants.filter fun item => item.capabilities.contains .read).map Member.id)
  | .participants ids => (.participants, ids)

def audienceOf (policy : Policy) (input : Option AudienceInput) :
    Except Collaboration.Failure Audience := do
  let (visibility, ids) := recipients policy (input.getD .conversation)
  require (!ids.isEmpty && ids.length ≤ 256 && decide ids.Nodup)
    (.error "invalid audience participants")
  ids.forM fun id => do
    identifier id
    participant policy id .read none
  return ⟨visibility, ids.insertionSort (· ≤ ·)⟩

/-- The author may read the conversation. -/
def checkReader (policy : Policy) (author : Author) : Except Collaboration.Failure Unit :=
  match author.kind with
  | .system => pure ()
  | .human => participant policy author.id .read (some .human)
  | .agent => participant policy author.id .read (some .agent)

/-- The stored versions of a message. -/
def versionsOf (tables : IngressTables) (input : IMMessageInput) : List (MessageKey × MessageRow) :=
  tables.messages.entries.filter fun row =>
    row.1.tenantId = input.tenantId ∧ row.1.conversationId = input.conversationId
      ∧ row.1.messageId = input.messageId

/-- `ORDER BY version DESC LIMIT 1`. -/
def previousVersion (tables : IngressTables) (input : IMMessageInput) :
    Option (MessageKey × MessageRow) :=
  (versionsOf tables input).maxOn? fun row => row.1.version

/-- An edit is of a later version, by the same author, in the same thread. -/
def checkEdit (tables : IngressTables) (input : IMMessageInput) : Except Collaboration.Failure Unit :=
  require ((previousVersion tables input).all fun previous =>
      previous.1.version < input.version ∧ previous.2.input.author = input.author
        ∧ previous.2.threadId = input.threadId)
    (.error "message edit is stale or changes its author or thread")

def checkReply (tables : IngressTables) (input : IMMessageInput) (audience : Audience) :
    Except Collaboration.Failure Unit :=
  match input.replyTo with
  | none => pure ()
  | some reply =>
      let key : MessageKey := ⟨input.tenantId, input.conversationId, reply.messageId, reply.version⟩
      require (((tables.messages.get? key).filter (·.threadId = input.threadId)).any fun row =>
          containsAudience row.audience audience)
        (.error "reply cause is unavailable to this audience")

/-- `audience.participantIds` of a work's conversation. -/
def audienceIds (conversation : Option Json) : List String :=
  match Jsonb.get (Jsonb.get conversation "audience") "participantIds" with
  | some (.arr ids) => ids.filterMap fun
      | .str id => some id
      | _ => none
  | _ => []

def checkCause (tables : IngressTables) (input : IMMessageInput) (audience : Audience) :
    Except Collaboration.Failure Unit :=
  match input.causedBy with
  | none => pure ()
  | some resultId =>
      let work := ((tables.results.get? resultId).bind tables.works.get?).filter fun work =>
        work.tenantId = input.tenantId
          ∧ Jsonb.getText work.conversation "conversationId" = some input.conversationId
          ∧ work.threadId = input.threadId
      require (work.any fun work =>
          containsAudience ⟨.conversation, audienceIds work.conversation⟩ audience)
        (.error "result cause is outside this conversation audience")

/-- A participant writes to an audience it belongs to; the system is in none. -/
def checkAuthor (policy : Policy) (audience : Audience) (author : Author) :
    Except Collaboration.Failure Unit :=
  match author.kind with
  | .system => pure ()
  | .human | .agent => requireAudience policy audience [author.id]

/-- The checks of a message that is not stored yet. -/
def admitMessage (tables : IngressTables) (policy : Policy) (input : IMMessageInput) :
    Except Collaboration.Failure Audience := do
  require (policy.version = input.policyVersion) (.error "conversation policy version changed")
  let audience ← audienceOf policy input.audience
  checkAuthor policy audience input.author
  checkEdit tables input
  checkReply tables input audience
  checkCause tables input audience
  return audience

/-! ## Who answers -/

def silence (input : IMMessageInput) : Option IngressReason :=
  if input.causedBy.isSome then some .outboxEcho
  else match input.author.kind with
    | .human => none
    | .agent => some .agentMessage
    | .system => some .systemMessage

/-- An agent that may read, execute and speak. -/
def mayAnswer (policy : Policy) (audience : Audience) (id : String) : Bool :=
  audience.participantIds.contains id && policy.participants.any fun item =>
    item.id == id && item.kind == .agent
      && [.read, .execute, .speak].all item.capabilities.contains

def targets (policy : Policy) (audience : Audience) (message : IMMessageInput) : List String :=
  if (silence message).isSome then []
  else
    let mentions := message.mentions.getD []
    (if mentions.isEmpty then (policy.defaultAgentId.filter (· ≠ "")).toList else mentions).filter
      (mayAnswer policy audience)

/-- Only a human who may execute is answered. -/
def checkTargets (policy : Policy) (message : IMMessageInput) (targets : List String) :
    Except Collaboration.Failure Unit :=
  if targets.isEmpty then pure () else participant policy message.author.id .execute (some .human)

def outcomeOf (message : IMMessageInput) (runs : List StoredRunIdentity) (targets : List String) :
    IMIngressResult where
  runs := runs
  deduplicated := false
  reason := if (silence message).isNone ∧ targets.isEmpty then some .noSpeaker else silence message

/-! ## Runs -/

/-- The slots of older versions of a message. -/
def olderSlots (tables : IngressTables) (input : IMMessageInput) : List String :=
  (tables.slots.entries.filter fun slot =>
    slot.1.message.tenantId = input.tenantId ∧ slot.1.message.conversationId = input.conversationId
      ∧ slot.1.message.messageId = input.messageId ∧ slot.1.message.version < input.version).map
    Prod.snd

/-- Cancel a run, and mark it cancelled where it has already finished. -/
def supersede (now : Int) (works : JsMap String JobRow) (workId : String) : JsMap String JobRow :=
  match works.get? workId with
  | some work =>
      (Jobs.cancelRun now works work.identity).1.modify workId fun work =>
        { work with cancelRequestedAt := work.cancelRequestedAt.or (some now) }
  | none => works

def cancelOlder (now : Int) (tables : IngressTables) (input : IMMessageInput) : IngressTables :=
  if (previousVersion tables input).isSome then
    { tables with works := (olderSlots tables input).foldl (supersede now) tables.works }
  else tables

/-- The run of an addressed agent. -/
def runOf (sha256 : String → String) (policy : Policy) (audience : Audience)
    (message : IMMessageInput) (agentId : String) : StoredRunIdentity where
  runId := "im:" ++ digest sha256 (.arr [.str message.tenantId, .str message.conversationId,
    .str message.messageId, .num message.version, .str agentId])
  tenantId := message.tenantId
  agentId := agentId
  sessionId := "im-session:" ++ digest sha256 (.arr [.str message.conversationId,
    (message.threadId.map Json.str).getD .null, .str message.author.id, audience.toJson,
    .num policy.version])
  principalId := some message.author.id
  threadId := message.threadId

def workOf (policyMeta : JsonObject) (policy : Policy) (audience : Audience)
    (message : IMMessageInput) (run : StoredRunIdentity) : EnqueueWorkInput where
  id := run.runId
  tenantId := run.tenantId
  agentId := run.agentId
  sessionId := run.sessionId
  threadId := run.threadId
  kind := "turn"
  lane := .interactive
  triggerRef := message.messageId
  principalId := run.principalId
  meta_ := some (.obj (JsonObject.assignAll policyMeta [("text", some (.str message.text)),
    ("authorName", some (.str message.author.id)),
    ("attachments", some (attachmentsJson (message.attachments.getD [])))]))
  conversation := some (.obj [("conversationId", .str message.conversationId),
    ("policyVersion", .num policy.version),
    ("source", MessageReference.toJson ⟨message.messageId, message.version⟩),
    ("audience", audience.toJson), ("internal", .bool false)])

/-- Insert a run and take its slot. -/
def createRun (now : Int) (policyMeta : JsonObject) (policy : Policy) (audience : Audience)
    (message : IMMessageInput) (tables : IngressTables) (run : StoredRunIdentity) :
    Except Collaboration.Failure IngressTables := do
  let works ← (Jobs.enqueueWork now tables.works (workOf policyMeta policy audience message run)).mapError
    .error
  let slot : SlotKey := ⟨message.key, run.agentId⟩
  require (!tables.slots.has slot && !tables.slots.values.contains run.runId)
    (.error "duplicate key value violates unique constraint")
  return { tables with works := works, slots := tables.slots.set slot run.runId }

/-! ## The call -/

def storeMessage (tables : IngressTables) (fingerprint : String) (message : IMMessageInput)
    (audience : Audience) (outcome : IMIngressResult) : IngressTables :=
  { tables with
    messages := tables.messages.set message.key
      ⟨message.threadId, fingerprint, message, audience, outcome⟩ }

/-- Store a new version, end the runs of older ones, and start its own. -/
def ingestNew (sha256 : String → String) (now : Int) (policyMeta : JsonObject) (policy : Policy)
    (audience : Audience) (message : IMMessageInput) (tables : IngressTables) :
    Except Collaboration.Failure (IMIngressResult × IngressTables) := do
  let targets := targets policy audience message
  checkTargets policy message targets
  let fingerprint := digest sha256 message.toJson
  let tables := cancelOlder now tables message
  let runs := targets.map (runOf sha256 policy audience message)
  let tables ← runs.foldlM (createRun now policyMeta policy audience message) tables
  let outcome := outcomeOf message runs targets
  return (outcome, storeMessage tables fingerprint message audience outcome)

def ingestMessage (sha256 : String → String) (now : Int) (policyMeta : JsonObject)
    (tables : IngressTables) (input : IMMessageInput) :
    Except Collaboration.Failure (IMIngressResult × IngressTables) := do
  checkInput input
  let message ← messageOf input
  let policy ← conversationPolicy tables input
  checkReader policy input.author
  match tables.messages.get? input.key with
  | some prior =>
      require (prior.fingerprint = digest sha256 message.toJson)
        (.error "message identity reused with different content")
      return ({ prior.outcome with deduplicated := true }, tables)
  | none =>
      let audience ← admitMessage tables policy input
      ingestNew sha256 now policyMeta policy audience message tables

end Conversations

end LingxiOS
