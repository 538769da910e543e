-- SUMMARY: continueInput: the answer to a question.
import LingxiOS.App.Database

/-! # Continuing a Run

A translation of `continueInput`. The replay test comes before the test of the run's
state, so a repeated answer is recognised wherever the run has got to. -/

namespace LingxiOS

namespace App

open Collaboration (require)
open Jobs (JobRow StoredRunIdentity)

/-- An optional key of an object: its value may be `undefined`. -/
inductive OwnKey (α : Type) where
  | absent
  | undefined
  | given (value : α)
  deriving DecidableEq

def OwnKey.ofOption {α : Type} : Option α → OwnKey α
  | none => .absent
  | some value => .given value

def OwnKey.toOption {α : Type} : OwnKey α → Option α
  | .given value => some value
  | _ => none

/-- An attachment as it is given. No size says -0. -/
structure GivenAttachment where
  id : String
  sourceVersion : String
  name : String
  mimeType : String
  size : Option Int
  text : OwnKey String := .absent
  contentStatus : OwnKey ContentStatus := .absent
  deriving DecidableEq

namespace GivenAttachment

/-- What JSON keeps of it: no `undefined`, and no sign of a zero. -/
def stored (item : GivenAttachment) : RequestAttachment :=
  ⟨item.id, item.sourceVersion, item.name, item.mimeType, item.size.getD 0, item.text.toOption,
    item.contentStatus.toOption⟩

/-- What is read back of a stored attachment. -/
def readBack (item : RequestAttachment) : GivenAttachment :=
  ⟨item.id, item.sourceVersion, item.name, item.mimeType, some item.size, .ofOption item.text,
    .ofOption item.contentStatus⟩

theorem stored_comp_readBack : stored ∘ readBack = fun item => item := by
  funext ⟨id, sourceVersion, name, mimeType, size, text, contentStatus⟩
  cases text <;> cases contentStatus <;> rfl

/-- JSON keeps all of it. -/
def Kept (item : GivenAttachment) : Prop :=
  item.text ≠ .undefined ∧ item.contentStatus ≠ .undefined ∧ item.size ≠ none

theorem readBack_stored_iff {item : GivenAttachment} : readBack item.stored = item ↔ item.Kept := by
  obtain ⟨id, sourceVersion, name, mimeType, size, text, contentStatus⟩ := item
  cases text <;> cases contentStatus <;> cases size <;>
    simp [stored, readBack, Kept, OwnKey.toOption, OwnKey.ofOption]

theorem map_readBack_stored_iff {items : List GivenAttachment} :
    (items.map stored).map readBack = items ↔ ∀ item ∈ items, item.Kept := by
  induction items with
  | nil => simp
  | cons item items ih => simp only [List.map_cons, List.cons.injEq, readBack_stored_iff, ih,
      List.forall_mem_cons]

end GivenAttachment

structure InputContinuation where
  runId : String
  tenantId : String
  agentId : String
  sessionId : String
  threadId : Option String := none
  principalId : String
  inputId : String
  requestVersion : Int
  text : String
  attachments : Option (List GivenAttachment) := none
  deriving DecidableEq

namespace InputContinuation

def identity (input : InputContinuation) : StoredRunIdentity :=
  ⟨input.runId, input.tenantId, input.agentId, input.sessionId, some input.principalId, input.threadId⟩

def sessionKey (input : InputContinuation) : SessionKey :=
  ⟨input.tenantId, input.agentId, input.sessionId, input.threadId⟩

/-- What is stored of the attachments. -/
def stored (input : InputContinuation) : List RequestAttachment :=
  (input.attachments.getD []).map GivenAttachment.stored

/-- Everything but what the answer says. -/
structure Same (a b : InputContinuation) : Prop where
  identity : a.identity = b.identity
  inputId : a.inputId = b.inputId
  requestVersion : a.requestVersion = b.requestVersion

end InputContinuation

inductive Continued where
  | resumed | alreadyResumed
  deriving DecidableEq

/-- `JSON.stringify(['input', requestVersion, inputId])`. -/
def revisionId (requestVersion : Int) (inputId : String) : String :=
  Json.stringify (.arr [.str "input", .num requestVersion, .str inputId])

def InputContinuation.revisionId (input : InputContinuation) : String :=
  App.revisionId input.requestVersion input.inputId

def checkContinuation (input : InputContinuation) : Except Collaboration.Failure Unit :=
  let field (value : String) (limit : Nat) := !Text.isBlank value && Text.length value ≤ limit
  require (field input.runId 1000 && field input.tenantId 1000 && field input.agentId 1000
      && field input.sessionId 1000 && field input.principalId 1000 && field input.inputId 1000
      && field input.text 32000 && isSafeInteger input.requestVersion && 1 ≤ input.requestVersion)
    (.error "invalid input continuation")

/-- The work, its session and its saved request, as the query joins them. -/
structure ContinuationRow where
  work : JobRow
  session : SessionRecord
  request : RequestSnapshot

def continuationRow (db : Database) (input : InputContinuation) : Option ContinuationRow := do
  let work ← (db.works.get? input.runId).filter fun work =>
    work.tenantId = input.tenantId ∧ work.agentId = input.agentId ∧ work.sessionId = input.sessionId
      ∧ work.principalId = some input.principalId ∧ work.threadId = input.threadId
  let session ← (db.sessions.get? input.sessionKey).filter fun session =>
    session.tenantId = work.tenantId ∧ session.agentId = work.agentId
      ∧ session.sessionId = work.sessionId ∧ session.threadId = work.threadId
  let request ← (db.requests.get? input.runId).filter (·.sessionKey = input.sessionKey)
  some ⟨work, session, request.request⟩

def attachmentsOf (revision : SteerInput) : List RequestAttachment := revision.attachments.getD []

/-- The revision an accepted answer becomes. -/
def revisionOf (now : Int) (input : InputContinuation) (attachments : List RequestAttachment) :
    SteerInput where
  id := input.revisionId
  text := input.text
  createdAt := now
  attachments := if attachments.isEmpty then none else some attachments

/-- The run waits for input of this version. -/
def awaitsInput (input : InputContinuation) (work : JobRow) : Bool :=
  work.status = .waiting ∧ work.cancelRequestedAt = none
    ∧ (work.goalOutcome.any fun outcome =>
      outcome.status = .awaitingInput ∧ outcome.requestVersion = input.requestVersion)
    ∧ (work.steerInputs.length + 1 : Int) = input.requestVersion

/-- The checks of an answer that is new. -/
def admitInput (now : Int) (db : Database) (input : InputContinuation)
    (attachments : List RequestAttachment) (row : ContinuationRow) :
    Except Collaboration.Failure Unit := do
  let revisions := row.work.steerInputs
  require (awaitsInput input row.work) (.error "work is not waiting for this input version")
  require ((db.leases.get? input.sessionKey).all (·.expiresAt ≤ now))
    (.error "session is active; retry after it pauses")
  require (revisions.length < 200) (.error "request revision limit reached")
  require (row.request.attachments.length
      + (revisions.map fun revision => (attachmentsOf revision).length).sum
      + attachments.length ≤ 20) (.error "request attachment limit reached")
  require (row.request.revisions = revisions)
    (.error "request revisions changed before continuation")

def resumedWork (now : Int) (revision : SteerInput) (work : JobRow) : JobRow :=
  { work with
    steerInputs := work.steerInputs ++ [revision]
    status := .queued
    availableAt := now
    goalOutcome := none
    finishedAt := none
    error := none }

/-- The saved request with one more revision; its contract was made for fewer. -/
def resumedRequest (revision : SteerInput) (request : RequestSnapshot) : RequestSnapshot :=
  { request with revisions := request.revisions ++ [revision], contract := none }

/-- The session, if the run's request is its active one. -/
def resumedSession (runId : String) (request : RequestSnapshot) (session : SessionRecord) :
    SessionRecord :=
  if session.request.any (·.workId = runId) then
    { session with request := some request, revision := session.revision + 1 }
  else session

/-- The three updates of an accepted answer. -/
def applyInput (now : Int) (db : Database) (input : InputContinuation) (revision : SteerInput)
    (row : ContinuationRow) : Database :=
  let request := resumedRequest revision row.request
  { db.withWorks (db.works.set input.runId (resumedWork now revision row.work)) with
    requests := db.requests.set input.runId ⟨input.sessionKey, request⟩
    sessions := db.sessions.set input.sessionKey (resumedSession input.runId request row.session) }

def continueInput (now : Int) (db : Database) (input : InputContinuation) :
    Except Collaboration.Failure (Continued × Database) := do
  checkContinuation input
  -- the checks tell neither `undefined` from an absent key nor one zero from the other
  let attachments ← (snapshotAttachments input.stored).mapError .error
  authorizeRun db.tables input.identity
  match continuationRow db input with
  | none => throw (.error "input continuation does not match the original request identity")
  | some row =>
      match row.work.steerInputs.find? (·.id = input.revisionId) with
      | some existing =>
          require (existing.text = input.text
              ∧ (attachmentsOf existing).map GivenAttachment.readBack = input.attachments.getD [])
            (.error "input identity was reused with different text or attachments")
          return (.alreadyResumed, db)
      | none =>
          admitInput now db input attachments row
          return (.resumed, applyInput now db input (revisionOf now input attachments) row)

end App

end LingxiOS
