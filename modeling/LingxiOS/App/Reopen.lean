-- SUMMARY: reconcileAction and resolveAction.
import LingxiOS.App.Database

/-! # Reopening a Run

A translation of `reconcileAction`, which queues a run so that its action is read
back, and of `resolveAction`, which records the outcome somebody found and then
queues a failed run. The second is two calls of the database, one after the other. -/

namespace LingxiOS

namespace App

open Collaboration (require)
open Jobs (JobRow StoredRunIdentity)

/-! ## Stored actions -/

def intentOf (db : Database) (actionKey : String) : Option Json :=
  (db.ledger.intents.find? fun row => row.idempotencyKey == actionKey).map IntentRow.intent

/-- `intent->>'workId'`. -/
def intentWork (intent : Json) : Option String := Jsonb.getText (some intent) "workId"

/-- `(intent->>'requestVersion')::integer`. -/
def intentVersion (intent : Json) : Option Int :=
  match Jsonb.get (some intent) "requestVersion" with
  | some (.num version) => some version
  | _ => none

/-- `intent->'action'->>'action'`. -/
def intentAction (intent : Json) : Option String :=
  Jsonb.getText (Jsonb.get (some intent) "action") "action"

def requestVersion (work : JobRow) : Int := work.steerInputs.length + 1

/-- The row of the run an action belongs to, under the principal who asks. -/
def ownRun (db : Database) (identity : StoredRunIdentity) : Option JobRow :=
  (db.works.get? identity.runId).filter fun work =>
    work.tenantId = identity.tenantId ∧ work.principalId.isSome
      ∧ work.principalId = identity.principalId ∧ work.agentId = identity.agentId
      ∧ work.sessionId = identity.sessionId ∧ work.threadId = identity.threadId

/-! ## Reconciliation -/

inductive Reconciled where
  | settled (result : Json)
  | unavailable
  | busy
  | queued
  deriving DecidableEq

/-- A configured tool, as reconciliation reads it. -/
structure ReconcilableTool where
  action : String
  reconciles : Bool

/-- A receipt that says how the action ended. -/
def settledReceipt (result : Option Json) : Option Json :=
  result.filter fun receipt =>
    receipt ≠ .null ∧ Jsonb.get (some receipt) "executionState" ≠ some (.str "unknown")

def reopened (now : Int) (work : JobRow) : JobRow :=
  { work with
    status := .queued
    availableAt := now
    goalOutcome := none
    error := none
    finishedAt := none }

def reconcileAction (tools : List ReconcilableTool) (now : Int) (db : Database)
    (identity : StoredRunIdentity) (actionKey : String) :
    Except Collaboration.Failure (Reconciled × Database) := do
  require (!Text.isBlank (identity.principalId.getD ""))
    (.error "authenticated principal is required")
  match intentOf db actionKey, ownRun db identity with
  | some intent, some work =>
      require (intentWork intent = some identity.runId)
        (.error "action is outside this principal and run")
      match settledReceipt (db.ledger.effective actionKey) with
      | some receipt => return (.settled receipt, db)
      | none =>
          require (work.cancelRequestedAt = none ∧ some (requestVersion work) = intentVersion intent)
            (.error "action belongs to a cancelled or revised request")
          if !tools.any (fun tool => some tool.action = intentAction intent ∧ tool.reconciles) then
            return (.unavailable, db)
          else if work.status = .leased then return (.busy, db)
          else
            require (work.status ∈ [.queued, .waiting, .blocked, .partial_, .failed])
              (.error "run is not eligible for reconciliation")
            return (.queued, db.withWorks (db.works.set identity.runId (reopened now work)))
  | _, _ => throw (.error "action is outside this principal and run")

/-! ## Resolution -/

/-- What a resolution has to be: its id is `/^[A-Za-z0-9._:-]\x7b1,160\x7d$/`. -/
def validResolution (resolution : ActionResolution) : Bool :=
  (1 ≤ resolution.id.length && resolution.id.length ≤ 160)
    && resolution.id.toList.all (fun c => c.isAlphanum || c ∈ ['.', '_', ':', '-'])
    && resolution.actionKey ≠ "" && !Text.isBlank resolution.resolvedBy
    && !resolution.result.isUnknown
    && Text.length (Json.obj resolution.evidence).stringify ≤ 65536

/-- The intent belongs to this scope. -/
def inScope (identity : StoredRunIdentity) (intent : Json) : Bool :=
  let text (key : String) := Jsonb.getText (some intent) key
  text "tenantId" = some identity.tenantId ∧ text "agentId" = some identity.agentId
    ∧ text "sessionId" = some identity.sessionId ∧ text "principalId" = identity.principalId
    ∧ text "threadId" = identity.threadId

/-- The first call of `resolveAction`: the resolution is recorded. -/
def recordResolution (db : Database) (identity : StoredRunIdentity) (resolution : ActionResolution) :
    Except Collaboration.Failure Database := do
  require (validResolution resolution) (.error "invalid action reconciliation resolution")
  match intentOf db resolution.actionKey with
  | none => throw (.error "action intent not found")
  | some intent =>
      require (!Text.isBlank (identity.principalId.getD "") && inScope identity intent)
        (.error "action intent not found")
      let _ ← (db.ledger.recordResolution resolution).1.mapError .error
      return { db with ledger := (db.ledger.recordResolution resolution).2 }

/-- An action of the run without a final result. -/
def unsettledAction (db : Database) (workId : String) : Bool :=
  db.ledger.intents.any fun row =>
    let result := db.ledger.effective row.idempotencyKey
    Sql.holds (Sql.and (PgActionLedger.ofWork row workId) (Sql.or (Sql.isNull result)
      (Sql.or (Sql.eq (Jsonb.getText result "executionState") (some "unknown"))
        (Sql.eq (Jsonb.getText (Jsonb.get result "approval") "status") (some "PENDING")))))

/-- The run the second call updates. -/
def resolvable (now : Int) (db : Database) (identity : StoredRunIdentity) (actionKey : String) :
    Option JobRow := do
  let intent ← intentOf db actionKey
  let workId ← intentWork intent
  (ownRun db { identity with runId := workId }).filter fun work =>
    work.status = .failed
      ∧ (work.goalOutcome.any fun outcome => some outcome.requestVersion = intentVersion intent)
      ∧ unsettledAction db workId = false
      ∧ (db.leases.get? (sessionKey work)).all (·.expiresAt ≤ now)

/-- The second call of `resolveAction`: a failed run with nothing left unsettled is queued. -/
def reopenResolved (now : Int) (db : Database) (identity : StoredRunIdentity) (actionKey : String) :
    Database :=
  match (intentOf db actionKey).bind intentWork, resolvable now db identity actionKey with
  | some workId, some work => db.withWorks (db.works.set workId (reopened now work))
  | _, _ => db

end App

end LingxiOS
