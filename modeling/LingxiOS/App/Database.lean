-- SUMMARY: The tables the application's transactions share.
import LingxiOS.Collaboration.Ingress
import LingxiOS.Delegation.FanIn
import LingxiOS.Ledger.PgLedger
import LingxiOS.Request.Session

/-! # The Database

The rows that several transactions of the application read and write, with the
transactions that only prepare the ground: claims, saves, settlements and revisions.
Each transaction is one function; what it throws leaves the tables as they were. -/

namespace LingxiOS

namespace App

open Collaboration (require forbidden)
open Conversations (IngressTables)
open Jobs (JobRow StoredRunIdentity)

/-- A row of `agent_os_session_leases`. -/
structure SessionLease where
  workId : String
  fence : Nat
  expiresAt : Int

/-- A row of `agent_request_snapshots`. -/
structure RequestRow where
  sessionKey : SessionKey
  request : RequestSnapshot

structure Database where
  /-- `agent_work_items`, with the tables of the conversations. -/
  tables : IngressTables
  leases : JsMap SessionKey SessionLease
  sessions : JsMap SessionKey SessionRecord
  requests : JsMap String RequestRow
  ledger : PgActionLedger

namespace Database

def works (db : Database) : JsMap String JobRow := db.tables.works

def withWorks (db : Database) (works : JsMap String JobRow) : Database :=
  { db with tables := { db.tables with works := works } }

@[simp] theorem works_withWorks (db : Database) (works : JsMap String JobRow) :
    (db.withWorks works).works = works := rfl

end Database

def sessionKey (work : JobRow) : SessionKey :=
  ⟨work.tenantId, work.agentId, work.sessionId, work.threadId⟩

/-! ## Authorization -/

/-- `work.conversation`. -/
def conversationOf (work : JobRow) : Option Json := work.conversation.filter (· ≠ .null)

def policyOf (tables : IngressTables) (work : JobRow) (conversation : Json) :
    Except Collaboration.Failure Conversations.Policy := do
  let conversationId := (Jsonb.getText (some conversation) "conversationId").getD ""
  Conversations.identity work.tenantId conversationId work.threadId
  match tables.conversations.get? (work.tenantId, conversationId) with
  | none => throw (forbidden "conversation is unavailable")
  | some policy =>
      require (work.threadId.all fun id => (work.tenantId, conversationId, id) ∈ tables.threads)
        (forbidden "thread is outside this conversation")
      return policy

/-- The audience of a work's conversation; its visibility is read by a speaker only. -/
def audienceOf (conversation : Json) : Conversations.Audience :=
  ⟨.conversation, Conversations.audienceIds (some conversation)⟩

/-- `authorizeConversationWork` for an execution. -/
def authorizeExecution (policy : Conversations.Policy) (work : JobRow) (conversation : Json) :
    Except Collaboration.Failure Unit :=
  match work.principalId with
  | none => throw (forbidden "conversation read capability is unavailable")
  | some principalId => do
      Conversations.requireAudience policy (audienceOf conversation) [principalId, work.agentId]
      Conversations.participant policy principalId .execute (some .human)
      Conversations.participant policy work.agentId .execute (some .agent)
      (audienceOf conversation).participantIds.forM fun id =>
        Conversations.participant policy id .read none

/-- `authorizeRunRead` of a work that belongs to a conversation. -/
def authorizeReader (tables : IngressTables) (identity : StoredRunIdentity) (work : JobRow)
    (conversation : Json) : Except Collaboration.Failure Unit := do
  let principalId := (identity.principalId.filter (· ≠ "")).getD ""
  require (principalId ≠ "" ∧ identity.threadId = work.threadId)
    (.error "IM content requires an authenticated reader and exact thread")
  let policy ← policyOf tables work conversation
  Conversations.requireAudience policy (audienceOf conversation) [principalId]
  require (Jsonb.get (some conversation) "internal" ≠ some (.bool true)
      ∨ some principalId = work.principalId)
    (.error "internal results belong to their original principal")
  require (some principalId = work.principalId)
    (.error "only the original principal may resume or revise a run")
  authorizeExecution policy work conversation

/-- `authorizeRunRead` for an execution. A run of no conversation needs no reader. -/
def authorizeRun (tables : IngressTables) (identity : StoredRunIdentity) :
    Except Collaboration.Failure Unit :=
  match (tables.works.get? identity.runId).filter fun work =>
      work.tenantId = identity.tenantId ∧ work.agentId = identity.agentId
        ∧ work.sessionId = identity.sessionId with
  | none => pure ()
  | some work =>
      match conversationOf work with
      | none => pure ()
      | some conversation => authorizeReader tables identity work conversation

/-! ## Leases -/

/-- What a claim asks of the row and of its session, beside what it filters and sorts by. -/
def claimable (now : Int) (leases : JsMap SessionKey SessionLease) (work : JobRow) : Bool :=
  (work.status = .queued ∨ work.status = .leased ∧ work.leaseExpiresAt.any (· ≤ now))
    ∧ work.cancelRequestedAt = none ∧ work.availableAt ≤ now
    ∧ (leases.get? (sessionKey work)).all (·.expiresAt ≤ now)

def leased (now ttl : Int) (workerId tokenHash : String) (work : JobRow) : JobRow :=
  { work with
    status := .leased
    fence := work.fence + 1
    leaseTokenHash := some tokenHash
    leasedBy := some workerId
    leaseExpiresAt := some (now + ttl)
    attempts := work.attempts + 1 }

/-- The claim of a work, if it may be claimed. -/
def claim (now ttl : Int) (workId workerId tokenHash : String) (db : Database) : Database :=
  let leases := db.leases.filter fun _ lease => now < lease.expiresAt
  match db.works.get? workId with
  | some work =>
      if claimable now db.leases work then
        { db.withWorks (db.works.set workId (leased now ttl workerId tokenHash work)) with
          leases := leases.set (sessionKey work) ⟨workId, work.fence + 1, now + ttl⟩ }
      else { db with leases := leases }
  | none => { db with leases := leases }

/-- The work a proof holds a lease of. -/
def leasedWork (now : Int) (proof : LeaseProof) (db : Database) : Option JobRow :=
  (db.works.get? proof.id).filter fun work =>
    work.fence = proof.fence ∧ work.leaseTokenHash = some proof.leaseTokenHash
      ∧ work.status = .leased ∧ work.leaseExpiresAt.any (now < ·)

/-- `settle`: the work leaves its lease, and one that ends takes its descendants with it. -/
def settle (now : Int) (proof : LeaseProof) (status : WorkStatus) (error : Option String)
    (outcome : Option GoalOutcome) (db : Database) : Database :=
  match db.works.get? proof.id with
  | some work =>
      if FanIn.maySettle now proof.fence proof.leaseTokenHash status outcome work then
        let works := db.works.set proof.id (FanIn.settled now status error outcome work)
        { db.withWorks (if status = .waiting then works
            else Jobs.cancelDescendants now works proof.id) with
          leases := db.leases.filter fun _ lease =>
            !decide (lease.workId = proof.id ∧ lease.fence = proof.fence) }
      else db
  | none => db

/-! ## Sessions -/

/-- The trigger on `agent_os_sessions`: a request stays with the session that saved it first. -/
def syncRequest (requests : JsMap String RequestRow) (key : SessionKey)
    (request : Option RequestSnapshot) : JsMap String RequestRow :=
  match request with
  | none => requests
  | some request =>
      match requests.get? request.workId with
      | none => requests.set request.workId ⟨key, request⟩
      | some row =>
          if row.sessionKey = key then requests.set request.workId { row with request := request }
          else requests

/-- The record is one of this lease's session, and its request one of this work. -/
def ownRecord (work : JobRow) (session : SessionRecord) : Bool :=
  session.key = sessionKey work ∧ session.tenantId = work.tenantId ∧ session.agentId = work.agentId
    ∧ session.sessionId = work.sessionId ∧ session.threadId = work.threadId
    ∧ session.request.all fun request => request.workId = work.id ∧ request.tenantId = work.tenantId
      ∧ request.sessionId = work.sessionId

/-- The columns a save writes over a stored record. -/
def saved (stored session : SessionRecord) : SessionRecord :=
  { stored with
    summary := session.summary
    history := session.history
    appliedWorkIds := session.appliedWorkIds
    compactionEpoch := session.compactionEpoch
    request := session.request
    revision := stored.revision + 1 }

/-- What a save stores: the record at its own revision, or a new one. -/
def savedRecord (stored : Option SessionRecord) (session : SessionRecord) : Option SessionRecord :=
  match stored with
  | some stored =>
      if 0 < session.revision ∧ stored.revision = session.revision then some (saved stored session)
      else none
  | none => if session.revision = 0 then some { session with revision := 1 } else none

/-- `PgSessionStore.save` under a lease, after the checks of `saveSession` on the record's
    identity. The new revision, or nothing on a conflict. -/
def save (now : Int) (proof : LeaseProof) (session : SessionRecord) (db : Database) :
    Option Nat × Database :=
  match (leasedWork now proof db).filter (ownRecord · session) with
  | none => (none, db)
  | some _ =>
      match savedRecord (db.sessions.get? session.key) session with
      | none => (none, db)
      | some record => (some record.revision, { db with
          sessions := db.sessions.set session.key record
          requests := syncRequest db.requests session.key session.request })

/-! ## Revisions -/

def revised (now : Int) (revision : SteerInput) (work : JobRow) : JobRow :=
  { work with
    steerInputs := work.steerInputs ++ [revision]
    status := if work.status = .waiting then .queued else work.status
    availableAt := now
    goalOutcome := none }

/-- The author of a revision: its principal, or an agent. -/
def validAuthor (identity : StoredRunIdentity) (author : SteerAuthor) : Bool :=
  !Text.isBlank author.id && (author.kind = .agent || identity.principalId = some author.id)

/-- `reviseRun`, and whether there was a run to revise. -/
def reviseRun (now : Int) (randomUUID : String) (identity : StoredRunIdentity) (text : String)
    (author : SteerAuthor) (db : Database) : Except Collaboration.Failure (Bool × Database) := do
  authorizeRun db.tables identity
  require (!Text.isBlank text && Text.length text ≤ 8000)
    (.error "revision must contain 1 to 8000 characters")
  require (validAuthor identity author)
    (.error "revision author is outside the original principal")
  match db.works.get? identity.runId with
  | some work =>
      if work.identity = identity ∧ work.status.isOpen ∧ work.cancelRequestedAt = none then
        let revision : SteerInput := ⟨randomUUID, text, now, some author, none⟩
        return (true, db.withWorks (Jobs.cancelDescendants now
          (db.works.set identity.runId (revised now revision work)) identity.runId))
      else return (false, db)
  | none => return (false, db)

end App

end LingxiOS
