-- SUMMARY: The action ledger in PostgreSQL: tables, writes and queries.
import LingxiOS.Ledger.Ledger
import LingxiOS.Protocol.Jsonb

/-! # The Action Ledger in PostgreSQL

A translation of `PgActionLedger`. Intents, receipts and resolutions are stored as
JSONB; each query joins them again, mostly by `COALESCE(rr.result, r.result)`, the
last resolution or else the receipt. The database reads the intents in an order of
its own and sorts keys by its collation. It takes no text with U+0000: the writes
refuse it, and the queries are asked with none. -/

namespace LingxiOS

/-! ## The rows -/

def HostAction.toJson (action : HostAction) : Json :=
  .obj [("runId", .str action.runId), ("cellId", .str action.cellId),
    ("callIndex", .num action.callIndex), ("action", .str action.action),
    ("args", .obj action.args), ("idempotencyKey", .str action.idempotencyKey)]

/-- A string, or the JSON `null`. -/
def Json.ofNullable (value : Option String) : Json := (value.map Json.str).getD .null

def ActionIntent.toJson (intent : ActionIntent) : Json :=
  .obj ([("workId", .str intent.workId), ("tenantId", .str intent.tenantId),
      ("principalId", .ofNullable intent.principalId), ("agentId", .str intent.agentId),
      ("sessionId", .str intent.sessionId), ("threadId", .ofNullable intent.threadId),
      ("requestVersion", (intent.requestVersion.map fun v => Json.num v).getD .null),
      ("action", intent.action.toJson)]
    ++ optionalField "toolContractHash" intent.toolContractHash .str)

structure IntentRow where
  idempotencyKey : String
  fingerprint : String
  intent : Json

structure ReceiptRow where
  idempotencyKey : String
  result : Json
  recordedAt : Int

structure ResolutionRow where
  resolutionId : String
  idempotencyKey : String
  resolution : Json

/-- The tables, the resolutions in the order of `resolution_seq`. -/
structure PgActionLedger where
  intents : List IntentRow
  receipts : List ReceiptRow
  resolutions : List ResolutionRow

/-- What a query leaves to the database. -/
structure Planner where
  scan : List IntentRow → List IntentRow
  scan_perm : ∀ rows, (scan rows).Perm rows
  /-- `ORDER BY` of text. -/
  collate : String → String → Bool

namespace PgActionLedger

def init : PgActionLedger := ⟨[], [], []⟩

/-- `rr.result`: the last resolution of a key. -/
def resolved (l : PgActionLedger) (key : String) : Option Json :=
  ((l.resolutions.filter fun row => row.idempotencyKey == key).getLast?).bind fun row =>
    Jsonb.get (some row.resolution) "result"

def receiptRow (l : PgActionLedger) (key : String) : Option ReceiptRow :=
  l.receipts.find? fun row => row.idempotencyKey == key

/-- `r.result`. -/
def receipt (l : PgActionLedger) (key : String) : Option Json :=
  (l.receiptRow key).map ReceiptRow.result

/-- `COALESCE(rr.result, r.result)`. -/
def effective (l : PgActionLedger) (key : String) : Option Json :=
  (l.resolved key).or (l.receipt key)

def find (l : PgActionLedger) (key : String) : Option Json := l.effective key

def hasIntent (l : PgActionLedger) (key : String) : Bool :=
  l.intents.any fun row => row.idempotencyKey == key

/-! ## Writing -/

/-- Whether the database takes the texts and the value of a statement. -/
def sendable (texts : List String) (value : Json) : Bool :=
  texts.all Jsonb.storableText && Jsonb.storable value

def reserve (l : PgActionLedger) (key fingerprint : String) (intent : ActionIntent) :
    Except String ActionLedger.Reservation × PgActionLedger :=
  if intent.action.idempotencyKey ≠ key then
    (.error "action intent is required and must match its key", l)
  else if !sendable [key, fingerprint] intent.toJson then
    (.error "unsupported Unicode escape sequence", l)
  else match l.intents.find? fun row => row.idempotencyKey == key with
    | some existing =>
        if existing.fingerprint ≠ fingerprint then
          (.error "action identity mismatch; reconcile before replay", l)
        else (.ok .existing, l)
    | none => (.ok .started, { l with intents := l.intents ++ [⟨key, fingerprint, intent.toJson⟩] })

/-- The receipt waits for an approval. -/
def waits (result : Json) : Bool :=
  Sql.holds (Sql.eq (Jsonb.getText (Jsonb.get (some result) "approval") "status") (some "PENDING"))

/-- Insert a receipt, or replace one that waits for an approval; else answer with
    the effective result. The receipt refers to its intent. -/
def record (l : PgActionLedger) (key : String) (result : HostActionResult) (now : Int) :
    Except String Json × PgActionLedger :=
  if !sendable [key] result.toJson then (.error "unsupported Unicode escape sequence", l)
  else if !l.hasIntent key then
    (.error "violates foreign key constraint on agent_action_ledger", l)
  else match l.receiptRow key with
    | none => (.ok result.toJson, { l with receipts := l.receipts ++ [⟨key, result.toJson, now⟩] })
    | some row =>
        if waits row.result then
          (.ok result.toJson, { l with receipts := l.receipts.map fun row =>
            if row.idempotencyKey = key then ⟨key, result.toJson, now⟩ else row })
        else (.ok ((l.find key).getD result.toJson), l)

def recordResolution (l : PgActionLedger) (resolution : ActionResolution) :
    Except String ActionLedger.Recorded × PgActionLedger :=
  if !sendable [resolution.id, resolution.actionKey] resolution.toJson then
    (.error "unsupported Unicode escape sequence", l)
  else match l.resolutions.find? fun row => row.resolutionId == resolution.id with
  | some prior =>
      if Json.deepEqual prior.resolution resolution.toJson then (.ok .existing, l)
      else (.error "resolution identity reused with different evidence", l)
  | none =>
      if !l.hasIntent resolution.actionKey then
        (.error "violates foreign key constraint on agent_action_resolutions", l)
      else (.ok .recorded, { l with resolutions :=
        l.resolutions ++ [⟨resolution.id, resolution.actionKey, resolution.toJson⟩] })

/-! ## Reading -/

variable (planner : Planner)

/-- `i.intent->>'workId' = $1`. -/
def ofWork (row : IntentRow) (workId : String) : Sql.Truth :=
  Sql.eq (Jsonb.getText (some row.intent) "workId") (some workId)

/-- `i.intent->'requestVersion' = $2::jsonb`. -/
def ofVersion (row : IntentRow) (requestVersion : Nat) : Sql.Truth :=
  Sql.eq (Jsonb.get (some row.intent) "requestVersion") (some (.num requestVersion))

/-- `i.intent->'action'->>'action'`. -/
def actionName (row : IntentRow) : Option String :=
  Jsonb.getText (Jsonb.get (some row.intent) "action") "action"

/-- `COALESCE(result->>'executionState','') <> 'unknown'`. -/
def notUnknown (result : Option Json) : Sql.Truth :=
  Sql.ne ((Jsonb.getText result "executionState").or (some "")) (some "unknown")

def waitCondition (wait : ActionLedger.Wait) (row : IntentRow) (result : Option Json) : Sql.Truth :=
  match wait with
  | .approvalId id =>
      Sql.and (Sql.eq (Jsonb.getText (Jsonb.get result "approval") "status") (some "PENDING"))
        (Sql.eq (Jsonb.getText (Jsonb.get result "approval") "id") (some id))
  | .question text =>
      Sql.and (Sql.eq (actionName row) (some "task.ask"))
        (Sql.and (Sql.eq (Jsonb.getText result "ok") (some "true"))
          (Sql.and (Sql.eq (Jsonb.getText (Jsonb.get result "directive") "type") (some "defer"))
            (Sql.and (Sql.eq (Jsonb.getText (Jsonb.get result "directive") "reason") (some "user"))
              (Sql.eq (Jsonb.getText (Jsonb.get (Jsonb.get result "directive") "data") "question")
                (some text)))))

def hasWait (l : PgActionLedger) (workId : String) (requestVersion : Nat) (wait : ActionLedger.Wait) :
    Bool :=
  (planner.scan l.intents).any fun row =>
    let result := l.effective row.idempotencyKey
    Sql.holds (Sql.and (ofWork row workId) (Sql.and (ofVersion row requestVersion)
      (Sql.and (Sql.isNotNull result) (Sql.and (notUnknown result) (waitCondition wait row result)))))

def hasSuccessfulAction (l : PgActionLedger) (workId : String) (requestVersion : Nat)
    (actions : List String) : Bool :=
  !actions.isEmpty && (planner.scan l.intents).any fun row =>
    let result := l.effective row.idempotencyKey
    Sql.holds (Sql.and (ofWork row workId) (Sql.and (ofVersion row requestVersion)
      (Sql.and (Sql.eqAny (actionName row) actions)
        (Sql.and (Sql.eq (Jsonb.getText result "ok") (some "true"))
          (Sql.and (notUnknown result) (Sql.isNull (Jsonb.get result "approval")))))))

/-- `NOT LIKE 'task.%'`. -/
def notTask (action : Option String) : Sql.Truth := action.map fun action => !Text.hasPrefix "task." action

/-- The pending actions of a work, before the limit. -/
def pending (l : PgActionLedger) (workId : String) : List ActionLedger.PendingAction :=
  (planner.scan l.intents).filterMap fun row =>
    let result := l.effective row.idempotencyKey
    let waiting := Sql.eq (Jsonb.getText (Jsonb.get result "approval") "status") (some "PENDING")
    if Sql.holds (Sql.and (ofWork row workId) (Sql.and (notTask (actionName row))
        (Sql.or (Sql.isNull result)
          (Sql.or (Sql.eq (Jsonb.getText result "executionState") (some "unknown")) waiting)))) then
      some ⟨row.idempotencyKey, (actionName row).getD "null",
        if Sql.holds waiting then .awaitingApproval else .unknown⟩
    else none

/-- `ORDER BY idempotency_key LIMIT 65`. -/
def unsettled (l : PgActionLedger) (workId : String) : List ActionLedger.PendingAction :=
  ((l.pending planner workId).insertionSort
    fun a b => planner.collate a.actionKey b.actionKey).take 65

structure CellRow where
  intent : Json
  result : Option Json

/-- `(i.intent->'action'->>'callIndex')::integer`. -/
def callIndex (row : IntentRow) : Except String Int :=
  match Jsonb.get (Jsonb.get (some row.intent) "action") "callIndex" with
  | some (.num n) =>
      if -2147483648 ≤ n ∧ n ≤ 2147483647 then .ok n else .error "integer out of range"
  | _ => .error "invalid input syntax for type integer"

def listCell (l : PgActionLedger) (workId cellId : String) (requestVersion : Option Nat) :
    Except String (List CellRow) := do
  let found := (planner.scan l.intents).filter fun row =>
    Sql.holds (Sql.and (ofWork row workId)
      (Sql.and (Sql.eq (Jsonb.getText (Jsonb.get (some row.intent) "action") "cellId") (some cellId))
        (Sql.isNotDistinctFrom (Jsonb.get (some row.intent) "requestVersion")
          (requestVersion.map fun v => Json.num v))))
  let indexed ← found.mapM fun row => do
    let index ← callIndex row
    pure (index, row)
  let ordered := indexed.insertionSort fun a b => a.1 ≤ b.1
  pure (ordered.map fun entry => ⟨entry.2.intent, l.effective entry.2.idempotencyKey⟩)

/-- Each row of a work's receipts with an artifact: what it is ordered by, and the artifact. -/
def inventory (l : PgActionLedger) (workId : String) : Except String (List ((Int × String) × Json)) := do
  let lists ← (planner.scan l.intents).mapM fun row =>
    match l.receiptRow row.idempotencyKey with
    | none => pure []
    | some receipt => do
        if Sql.holds (Sql.and (ofWork row workId)
            (Sql.eq (Jsonb.getText (some receipt.result) "ok") (some "true"))) then
          let artifacts ← Jsonb.elements ((Jsonb.get (some receipt.result) "artifacts").getD (.arr []))
          pure (artifacts.map fun artifact => ((receipt.recordedAt, row.idempotencyKey), artifact))
        else pure []
  pure lists.flatten

/-- The artifacts of the successful receipts of a work, the oldest receipt first. -/
def artifacts (l : PgActionLedger) (workId : String) : Except String (List Json) := do
  let rows ← l.inventory planner workId
  let ordered := rows.insertionSort fun a b =>
    a.1.1 < b.1.1 || (a.1.1 == b.1.1 && planner.collate a.1.2 b.1.2)
  let found := ordered.take 513
  if 512 < found.length then throw "native artifact inventory exceeds 512 records"
  pure (found.map Prod.snd)

end PgActionLedger

end LingxiOS
