-- SUMMARY: Who may act in a conversation: participants and audiences.
import LingxiOS.Base.Checks
import LingxiOS.Protocol.Stringify

/-! # Conversation Access

The checks of `access.ts`, over what the conversation tables hold. Row locks have
no part in them. -/

namespace LingxiOS.Collaboration

open JsonText Stringify

/-- What a call throws. -/
inductive Failure where
  | error (message : String)
  | typeError (message : String)
  | noEffect (message code : String)
  deriving DecidableEq

/-- `new NoEffectError(message, 'forbidden')`. -/
def forbidden (message : String) : Failure := .noEffect message "forbidden"

/-- A check that throws unless it holds. -/
def require (holds : Bool) (failure : Failure) : Except Failure Unit :=
  if holds then .ok () else .error failure

theorem require_eq_ok_iff {holds : Bool} {failure : Failure} {u : Unit} :
    require holds failure = .ok u ↔ holds = true := by
  cases holds <;> simp [require]

/-! ## Conversations -/

inductive ConversationCapability where
  | read | execute | speak | control
  deriving DecidableEq

namespace ConversationCapability

def name : ConversationCapability → String
  | .read => "read"
  | .execute => "execute"
  | .speak => "speak"
  | .control => "control"

end ConversationCapability

inductive ParticipantKind where
  | human | agent
  deriving DecidableEq

structure Participant where
  id : Units
  kind : ParticipantKind
  capabilities : List ConversationCapability
  deriving DecidableEq

structure ConversationPolicy where
  participants : List Participant
  deriving DecidableEq

inductive Visibility where
  | conversation | participants | internal
  deriving DecidableEq

structure Audience where
  visibility : Visibility
  participantIds : List Units
  deriving DecidableEq

structure MessageReference where
  messageId : JsString
  version : Int
  deriving DecidableEq

structure WorkConversation where
  conversationId : Units
  source : MessageReference
  audience : Audience
  internal : Bool
  deriving DecidableEq

structure ConversationIdentity where
  tenantId : Units
  conversationId : Units
  threadId : Option Units
  deriving DecidableEq

/-- A work item as collaboration reads it; `graphId` is `meta?.['graphId'] ?? null`. -/
structure ConversationWork where
  id : JsString
  tenantId : Units
  agentId : JsString
  principalId : Option Units
  threadId : Option Units
  conversation : Option WorkConversation
  graphId : JsValue

/-- What the conversation tables hold when a call runs. -/
structure Tables where
  policy : (tenantId conversationId : Units) → Option ConversationPolicy
  hasThread : (tenantId conversationId threadId : Units) → Bool
  /-- A message of an author's, in a thread or in none. -/
  hasMessage : ConversationIdentity → MessageReference → (author : Units) → Bool
  hasReplySlot : (workId : JsString) → (tenantId conversationId : Units) → MessageReference →
    (agentId : JsString) → Bool

/-! ## Checks -/

/-- `identifier` of a string. -/
def identifier (value : Units) : Except Failure Unit :=
  require (!isBlank value && value.length ≤ 1000) (.error "invalid collaboration identifier")

def identity (input : ConversationIdentity) : Except Failure Unit := do
  identifier input.tenantId
  identifier input.conversationId
  match input.threadId with
  | none => pure ()
  | some threadId => identifier threadId

def conversationPolicy (tables : Tables) (scope : ConversationIdentity) :
    Except Failure ConversationPolicy := do
  identity scope
  match tables.policy scope.tenantId scope.conversationId with
  | none => throw (forbidden "conversation is unavailable")
  | some policy =>
      require (scope.threadId.all (tables.hasThread scope.tenantId scope.conversationId))
        (forbidden "thread is outside this conversation")
      pure policy

def participant (policy : ConversationPolicy) (id : Units) (capability : ConversationCapability)
    (kind : Option ParticipantKind) : Except Failure Unit :=
  let entry := policy.participants.find? fun item => item.id == id && kind.all (item.kind == ·)
  require (entry.any (·.capabilities.contains capability))
    (forbidden ("conversation " ++ capability.name ++ " capability is unavailable"))

def requireAudience (policy : ConversationPolicy) (audience : Audience) :
    List Units → Except Failure Unit
  | [] => pure ()
  | id :: ids => do
      participant policy id .read none
      require (audience.participantIds.contains id) (forbidden "participant is outside the audience")
      requireAudience policy audience ids

/-- A resource may feed a result only when all result recipients may see that resource. -/
def containsAudience (resource output : Audience) : Bool :=
  output.participantIds.all resource.participantIds.contains

/-- What a work asks for. -/
inductive WorkOperation where
  | read | execute | speak
  deriving DecidableEq

def WorkOperation.capability : WorkOperation → ConversationCapability
  | .read => .read
  | .execute | .speak => .execute

/-- A work without a principal is no participant. -/
def authorizeConversationWork (tables : Tables) (work : ConversationWork)
    (operation : WorkOperation) : Except Failure Unit :=
  match work.conversation with
  | none => pure ()
  | some scope => do
      let policy ← conversationPolicy tables ⟨work.tenantId, scope.conversationId, work.threadId⟩
      match work.principalId with
      | none => throw (forbidden "conversation read capability is unavailable")
      | some principalId =>
          requireAudience policy scope.audience [principalId, work.agentId.val]
          participant policy principalId operation.capability (some .human)
          participant policy work.agentId.val operation.capability (some .agent)
          -- Revoked recipients invalidate old outputs.
          scope.audience.participantIds.forM fun id => participant policy id .read none
          if operation = .speak then
            require (!scope.internal && scope.audience.visibility != .internal)
              (.error "internal work cannot speak")
            participant policy work.agentId.val .speak (some .agent)
            require (tables.hasReplySlot work.id work.tenantId scope.conversationId scope.source
              work.agentId) (.error "work has no reply slot")

end LingxiOS.Collaboration
