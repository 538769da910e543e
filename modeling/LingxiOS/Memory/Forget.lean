-- SUMMARY: The epochs of memory scopes, forgetMemoryScope, and the capture of evidence.
import LingxiOS.Base.Checks
import LingxiOS.Base.JsMap
import LingxiOS.Memory.Documents

/-! # Forgetting

`forget.ts` and `captureMemoryEvidence` over the tables they read and write. A call is one
transaction; the lock on a scope's row makes the calls on the scope take turns. -/

namespace LingxiOS

namespace Memories

/-! ## Tables -/

/-- A row of `agent_memory_scopes`, its time in microseconds. -/
structure ScopeRow where
  epoch : Nat := 0
  forgottenAt : Option Int := none
  deriving DecidableEq

/-- The columns of `agent_work_items` that memory reads, `createdAt` in microseconds. -/
structure SourceWork where
  tenantId : String
  agentId : String
  principalId : String
  sessionId : String
  createdAt : Int
  deriving DecidableEq

/-- A scope as a transaction found it, `forgottenAt` in milliseconds. -/
structure MemoryEpoch where
  scope : MemoryScope
  epoch : Nat
  forgottenAt : Option Int
  deriving DecidableEq

inductive EvidenceStatus where
  | pending | processed | rejected | superseded
  deriving DecidableEq

/-- A row of `agent_memory_evidence`. -/
structure EvidenceRow where
  tenantId : String
  agentId : String
  principalId : String
  sessionId : String
  requestVersion : Int
  sourceRef : String
  inputHash : String
  inputText : String
  assistantText : String
  inputTruncated : Bool
  assistantTruncated : Bool
  scopes : List MemoryScope
  scopeEpochs : List MemoryEpoch
  status : EvidenceStatus
  deriving DecidableEq

/-- A row of `agent_memory_evidence_scopes`. -/
structure EvidenceScopeRow where
  agentId : String
  principalId : String
  epoch : Nat
  status : EvidenceStatus
  deriving DecidableEq

/-- A row of `agent_memory_commands`. -/
structure CommandRow where
  fingerprint : String
  result : MemoryApplyResult
  deriving DecidableEq

/-- Reviews, conflicts and synthesis jobs are left out: forgetting removes them too, and no call
    here reads them. -/
structure MemoryTables where
  works : JsMap String SourceWork
  requests : JsMap String Json
  scopes : JsMap MemoryScope ScopeRow
  evidence : JsMap String EvidenceRow
  evidenceScopes : JsMap (MemoryScope × String) EvidenceScopeRow
  documents : JsMap (String × String) DocumentRow
  commands : JsMap (MemoryScope × Nat × String) CommandRow

def scopeRow (tables : MemoryTables) (scope : MemoryScope) : ScopeRow :=
  (tables.scopes.get? scope).getD {}

/-! ## Epochs -/

/-- `lockMemoryScopes` of one scope: its row is made when there is none. -/
def lockMemoryScope (tables : MemoryTables) (scope : MemoryScope) :
    Except String (MemoryEpoch × MemoryTables) :=
  let row := scopeRow tables scope
  if !validateScope scope then .error "invalid memory scope"
  else if !isSafeInteger row.epoch then .error "invalid memory scope epoch"
  else .ok (⟨scope, row.epoch, row.forgottenAt.map millis⟩,
    { tables with scopes := tables.scopes.set scope row })

def scopeKey (scope : MemoryScope) : String :=
  (Json.arr [.str scope.tenantId, .str scope.scopeType, .str scope.scopeId]).stringify

def lockNext (locked : List MemoryEpoch × MemoryTables) (scope : MemoryScope) :
    Except String (List MemoryEpoch × MemoryTables) := do
  let (epoch, tables) ← lockMemoryScope locked.2 scope
  return (locked.1 ++ [epoch], tables)

def lockMemoryScopes (env : MemoryEnv) (tables : MemoryTables) (scopes : List MemoryScope) :
    Except String (List MemoryEpoch × MemoryTables) :=
  if 12 < scopes.length then .error "too many memory scopes"
  else
    (scopes.insertionSort fun a b => env.localeLe (scopeKey a) (scopeKey b)).foldlM lockNext
      ([], tables)

/-- Whether a scope is one of the work's, and was not forgotten since the work began. -/
def sourceIsCurrent (source : SourceWork) (epoch : MemoryEpoch) : Bool :=
  epoch.scope.tenantId = source.tenantId ∧ epoch.forgottenAt.all (· < millis source.createdAt)

def currentMemoryScopes (tables : MemoryTables) (epochs : List MemoryEpoch) (sourceWorkId : String) :
    Except String (List MemoryEpoch) :=
  match tables.works.get? sourceWorkId with
  | none => .error "memory source work is unavailable"
  | some source => .ok (epochs.filter (sourceIsCurrent source))

/-! ## Forgetting -/

def EvidenceRow.supersede (row : EvidenceRow) : EvidenceRow :=
  { row with status := .superseded, inputText := "", assistantText := "" }

/-- `forgetMemoryScope`: the new epoch, and the tables it leaves. `now` is `clock_timestamp()`. -/
def forgetMemoryScope (tables : MemoryTables) (now : Int) (scope : MemoryScope) (purge : Bool) :
    Except String (Nat × MemoryTables) := do
  let (epoch, tables) ← lockMemoryScope tables scope
  let evidence := tables.evidence.mapValues fun _ row =>
    if row.tenantId = scope.tenantId ∧ scope ∈ row.scopes then row.supersede else row
  let evidenceScopes := tables.evidenceScopes.mapValues fun key row =>
    if (evidence.get? key.2).any fun source =>
        source.tenantId = scope.tenantId ∧ source.status = .superseded then
      { row with status := .superseded }
    else row
  return (epoch.epoch + 1, { tables with
    scopes := tables.scopes.set scope ⟨epoch.epoch + 1, some now⟩
    evidence := evidence
    evidenceScopes := evidenceScopes
    commands := tables.commands.filter fun key _ => key.1 ≠ scope
    documents :=
      if purge then tables.documents.filter fun _ row => row.scope ≠ scope else tables.documents })

/-! ## Evidence -/

/-- What `prepareMemoryEvidence` filtered before any lock was taken. -/
structure PreparedEvidence where
  sourceRef : String
  inputHash : String
  inputText : String
  assistantText : String
  inputTruncated : Bool
  assistantTruncated : Bool
  fingerprint : String
  deriving DecidableEq

/-- The message evidence is captured from: its body, and `envelope.requestVersion`. -/
structure CapturedMessage where
  body : String
  requestVersion : Int
  deriving DecidableEq

def evidenceRow (work : SourceWork) (message : CapturedMessage) (evidence : PreparedEvidence)
    (epochs : List MemoryEpoch) : EvidenceRow where
  tenantId := work.tenantId
  agentId := work.agentId
  principalId := work.principalId
  sessionId := work.sessionId
  requestVersion := message.requestVersion
  sourceRef := evidence.sourceRef
  inputHash := evidence.inputHash
  inputText := evidence.inputText
  assistantText := evidence.assistantText
  inputTruncated := evidence.inputTruncated
  assistantTruncated := evidence.assistantTruncated
  scopes := epochs.map MemoryEpoch.scope
  scopeEpochs := epochs
  status := .pending

/-- `INSERT … ON CONFLICT DO NOTHING`. -/
def insertNew {κ α : Type} [DecidableEq κ] (rows : JsMap κ α) (key : κ) (row : α) : JsMap κ α :=
  if rows.has key then rows else rows.set key row

/-- A destination of evidence that is still pending. -/
def insertEvidenceScope (work : SourceWork) (workId : String) (evidence : JsMap String EvidenceRow)
    (rows : JsMap (MemoryScope × String) EvidenceScopeRow) (epoch : MemoryEpoch) :
    JsMap (MemoryScope × String) EvidenceScopeRow :=
  if (evidence.get? workId).any (·.status = .pending) then
    insertNew rows ({ epoch.scope with tenantId := work.tenantId }, workId)
      ⟨work.agentId, work.principalId, epoch.epoch, .pending⟩
  else rows

/-- `captureMemoryEvidence` of a work item that was read from its row. -/
def captureMemoryEvidence (env : MemoryEnv) (tables : MemoryTables) (workId : String)
    (work : SourceWork) (message : CapturedMessage) (scopes : List MemoryScope)
    (prepared : Option PreparedEvidence) : Except String MemoryTables :=
  match prepared with
  | none => .ok tables
  | some evidence =>
      let request := (tables.requests.get? workId).getD .null
      if evidence.fingerprint
          ≠ env.memoryDigest (.evidence request message.body message.requestVersion) then
        .error "memory evidence preparation is stale"
      else do
        let (locked, tables) ← lockMemoryScopes env tables scopes
        let epochs ← currentMemoryScopes tables locked workId
        if epochs = [] then return tables
        else
          let evidence := insertNew tables.evidence workId (evidenceRow work message evidence epochs)
          return { tables with
            evidence := evidence
            evidenceScopes :=
              epochs.foldl (insertEvidenceScope work workId evidence) tables.evidenceScopes }

end Memories

end LingxiOS
