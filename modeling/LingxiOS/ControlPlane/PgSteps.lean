-- SUMMARY: The PostgreSQL step store and its checkpoints.
import LingxiOS.Base.Versioned
import LingxiOS.WorkStore.PgClaim

/-! # The PostgreSQL Step Store

`PgStepStore.save` over the tables it reads and writes. A step without a workspace
is saved by one statement. A step with one is saved in a transaction together with
the checkpoint of its session; a statement that fails rolls both back. The work
rows are locked by the transaction and belong to other code. -/

namespace LingxiOS

/-- `WorkspaceEntry`. -/
inductive WorkspaceEntry where
  | directory (path : String)
  | file (path : String) (size : Nat) (sha256 objectKey : String)
  deriving DecidableEq

def WorkspaceEntry.toJson : WorkspaceEntry → Json
  | .directory path => .obj [("kind", .str "directory"), ("path", .str path)]
  | .file path size sha256 objectKey => .obj [("kind", .str "file"), ("path", .str path),
      ("size", .num size), ("sha256", .str sha256), ("objectKey", .str objectKey)]

/-- `WorkspaceCheckpoint`: the entries, and the generation they were built on. -/
structure WorkspaceCheckpoint where
  baseGeneration : Int
  entries : List WorkspaceEntry
  deriving DecidableEq

def WorkspaceCheckpoint.toJson (checkpoint : WorkspaceCheckpoint) : Json :=
  .obj [("baseGeneration", .num checkpoint.baseGeneration),
    ("entries", .arr (checkpoint.entries.map WorkspaceEntry.toJson))]

/-- An `ExecutionStep` as the control plane saves it, its output a text. -/
structure PgStep where
  id : String
  requestVersion : Nat
  kind : String
  input : JsonObject
  output : Option String := none
  artifacts : List KernelArtifact := []
  workspace : Option WorkspaceCheckpoint := none

/-- A row of `agent_steps`, without its key. -/
structure PgStepRow where
  requestVersion : Nat
  kind : String
  inputHash : String
  input : JsonObject
  output : Option String
  artifacts : List KernelArtifact
  completedAt : Option Int
  progressHash : Option String
  workspaceCheckpoint : Option WorkspaceCheckpoint

/-- A row of `agent_workspace_checkpoints`, without its key. -/
structure PgWorkspaceRow where
  generation : Nat
  entries : List WorkspaceEntry
  workId : String
  fence : Nat
  requestVersion : Nat
  stepId : String
  deriving DecidableEq

/-- The tables of the step store. The steps are under the work's and the step's id,
    the checkpoints under the session key. -/
structure PgStepTables where
  work : PgWorkTables
  sessions : List String
  steps : JsMap (String × String) PgStepRow
  checkpoints : JsMap String PgWorkspaceRow
  /-- The column `last_progress_at` of the works. -/
  lastProgressAt : JsMap String Int

/-! ## Progress -/

mutual

/-- `progressFacts`: what tells one observation of a resource from another. -/
def progressFacts : Json → Option Json
  | .arr xs => some (.arr (progressItems xs))
  | .obj fields => some (.obj (progressFields fields))
  | _ => none

/-- An item without facts is written as `null`. -/
def progressItems : List Json → List Json
  | [] => []
  | x :: xs => (progressFacts x).getD .null :: progressItems xs

def progressFields : List (String × Json) → List (String × Json)
  | [] => []
  | (key, item) :: rest =>
      (if key ∈ ["version", "revision", "sha256", "ok", "executionState", "status", "action"] then
        [(key, item)]
      else match progressFacts item with
        | some (.arr nested) => if nested.any (· ≠ .null) then [(key, .arr nested)] else []
        | some (.obj nested) => if nested.isEmpty then [] else [(key, .obj nested)]
        | _ => []) ++ progressFields rest

end

/-- The built-in functions `saveRecord` uses. -/
structure StepCodec where
  sha256 : String → String
  /-- `JSON.parse`; a text that cannot be parsed is `none`. -/
  parse : String → Option Json

namespace PgStepStore

variable (codec : StepCodec)

def progressHash (artifacts : List KernelArtifact) (output : Option String) : Option String :=
  let observed := (output.filter (· ≠ "")).bind fun text =>
    (codec.parse text).bind (·.field "receipts")
  let facts := progressFacts (.obj ([("artifacts", .arr (artifacts.map KernelArtifact.toJson))]
    ++ optionalField "observations" observed id))
  facts.bind fun facts =>
    if facts ≠ .obj [] ∧ output.isSome then some (codec.sha256 facts.stringify) else none

/-! ## The record -/

/-- The lease check both statements make. -/
def leased (now : Int) (proof : LeaseProof) (work : PgWorkRow) : Sql.Truth :=
  Sql.and (Sql.eq (some work.id) (some proof.id)) <|
    Sql.and (Sql.eq (some work.fence) (some proof.fence)) <|
      Sql.and (Sql.eq work.leaseTokenHash (some proof.leaseTokenHash)) <|
        Sql.and (Sql.eq (some work.status) (some .leased)) <|
          Sql.and (Sql.compare (fun a b => decide (b < a)) work.leaseExpiresAt (some now))
            (Sql.isNull work.cancelRequestedAt)

/-- The row the lease check finds. -/
def owned (tables : PgStepTables) (now : Int) (proof : LeaseProof) : Option PgWorkRow :=
  tables.work.workItems.find? fun work => Sql.holds (leased now proof work)

/-- The row a step is stored as. -/
def rowOf (now : Int) (step : PgStep) : PgStepRow where
  requestVersion := step.requestVersion
  kind := step.kind
  inputHash := codec.sha256 (Json.obj step.input).stringify
  input := step.input
  output := step.output
  artifacts := step.artifacts
  completedAt := step.output.map fun _ => now
  progressHash := progressHash codec step.artifacts step.output
  workspaceCheckpoint := step.workspace

/-- `WHERE agent_steps.request_version=EXCLUDED.request_version AND …`. -/
def replaces (row excluded : PgStepRow) : Sql.Truth :=
  Sql.and (Sql.eq (some row.requestVersion) (some excluded.requestVersion)) <|
    Sql.and (Sql.eq (some row.kind) (some excluded.kind)) <|
      Sql.and (Sql.eq (some row.inputHash) (some excluded.inputHash)) <|
        Sql.or (Sql.isNull row.output) <|
          Sql.and (Sql.eq row.output excluded.output) <|
            Sql.and (Sql.eq (some row.artifacts) (some excluded.artifacts))
              (Sql.isNotDistinctFrom row.workspaceCheckpoint excluded.workspaceCheckpoint)

/-- The row an accepted step leaves: a conflict keeps the columns that identify it. -/
def upserted (prior : Option PgStepRow) (excluded : PgStepRow) : PgStepRow :=
  match prior with
  | none => excluded
  | some row =>
      { row with
        output := excluded.output
        artifacts := excluded.artifacts
        completedAt := excluded.completedAt
        progressHash := excluded.progressHash
        workspaceCheckpoint := excluded.workspaceCheckpoint }

/-- Whether the values of a step can be sent. -/
def storable (step : PgStep) : Bool :=
  Jsonb.storableText step.id && Jsonb.storableText step.kind && Jsonb.storable (.obj step.input)
    && step.output.all Jsonb.storableText
    && Jsonb.storableItems (step.artifacts.map KernelArtifact.toJson)
    && step.workspace.all fun checkpoint => Jsonb.storable checkpoint.toJson

/-- No step of this request version has made the same progress. -/
def progressed (tables : PgStepTables) (workId : String) (excluded : PgStepRow) : Bool :=
  excluded.progressHash.isSome && !tables.steps.entries.any fun entry =>
    entry.1.1 == workId && entry.2.requestVersion == excluded.requestVersion
      && entry.2.progressHash == excluded.progressHash

/-- The tables with the step recorded. -/
def recorded (tables : PgStepTables) (now : Int) (workId : String) (step : PgStep) :
    PgStepTables :=
  let excluded := rowOf codec now step
  let prior := tables.steps.get? (workId, step.id)
  { tables with
    steps := tables.steps.set (workId, step.id) (upserted prior excluded)
    lastProgressAt :=
      if progressed tables workId excluded then tables.lastProgressAt.set workId now
      else tables.lastProgressAt }

/-- The one statement of `saveRecord` returns a row. -/
def recordable (tables : PgStepTables) (now : Int) (proof : LeaseProof) (step : PgStep) : Bool :=
  (owned tables now proof).any (fun work => work.steerInputs.length + 1 == step.requestVersion)
    && (tables.steps.get? (proof.id, step.id)).all fun row =>
      Sql.holds (replaces row (rowOf codec now step))

def saveRecord (tables : PgStepTables) (now : Int) (proof : LeaseProof) (step : PgStep) :
    Except String Unit × PgStepTables :=
  if !storable step then (.error "unsupported Unicode escape sequence", tables)
  else if !recordable codec tables now proof step then
    (.error "step identity changed or attempt no longer owns this request", tables)
  else (.ok (), recorded codec tables now proof.id step)

/-! ## The checkpoint -/

/-- `Number(previous?.['generation'] ?? 0)`. -/
def generation (previous : Option PgWorkspaceRow) : Nat :=
  (previous.map PgWorkspaceRow.generation).getD 0

/-- The checkpoint was committed before, by this step. -/
def repeated (previous : Option PgWorkspaceRow) (proof : LeaseProof) (step : PgStep)
    (checkpoint : WorkspaceCheckpoint) : Bool :=
  (generation previous : Int) == checkpoint.baseGeneration + 1
    && previous.any fun row => row.workId == proof.id && row.stepId == step.id
      && row.requestVersion == step.requestVersion && row.entries == checkpoint.entries

/-- The insertion with the constraints of its table. -/
def insertCheckpoint (tables : PgStepTables) (key : String) (row : PgWorkspaceRow) :
    Except String Unit × PgStepTables :=
  if key ∈ tables.sessions ∧ 0 < row.generation ∧ row.entries.length ≤ 4096 ∧ 0 < row.fence
      ∧ 0 < row.requestVersion then
    (.ok (), { tables with checkpoints := tables.checkpoints.set key row })
  else (.error "agent_workspace_checkpoints", tables)

/-- The statements of the transaction. -/
def saveCheckpoint (tables : PgStepTables) (now : Int) (proof : LeaseProof) (step : PgStep)
    (checkpoint : WorkspaceCheckpoint) : Except String Unit × PgStepTables :=
  match owned tables now proof with
  | none => (.error "workspace attempt no longer owns this request", tables)
  | some work =>
      let key := sessionKeyOf work.toRow.sessionKey
      let previous := tables.checkpoints.get? key
      let repeated := repeated previous proof step checkpoint
      if (generation previous : Int) ≠ checkpoint.baseGeneration ∧ !repeated then
        (.error "workspace generation changed", tables)
      else match saveRecord codec tables now proof step with
        | (.error e, tables) => (.error e, tables)
        | (.ok (), tables) =>
            if repeated then (.ok (), tables)
            else insertCheckpoint tables key
              { generation := generation previous + 1
                entries := checkpoint.entries
                workId := proof.id
                fence := proof.fence
                requestVersion := step.requestVersion
                stepId := step.id }

/-- `withTransaction`: what a failing body has written is rolled back. -/
def withTransaction (body : PgStepTables → Except String Unit × PgStepTables)
    (tables : PgStepTables) : Except String Unit × PgStepTables :=
  match body tables with
  | (.ok (), tables') => (.ok (), tables')
  | (.error e, _) => (.error e, tables)

def save (tables : PgStepTables) (now : Int) (proof : LeaseProof) (step : PgStep) :
    Except String Unit × PgStepTables :=
  match step.workspace with
  | none => saveRecord codec tables now proof step
  | some checkpoint =>
      withTransaction (fun tables => saveCheckpoint codec tables now proof step checkpoint) tables

/-! ## Runs -/

/-- A save, or a change other code makes to the works and the sessions: leases that
    begin or end, corrections, cancellations. -/
inductive Event where
  | save (now : Int) (proof : LeaseProof) (step : PgStep)
  | others (work : PgWorkTables) (sessions : List String)

def next (tables : PgStepTables) : Event → PgStepTables
  | .save now proof step => (save codec tables now proof step).2
  | .others work sessions => { tables with work := work, sessions := sessions }

def run (tables : PgStepTables) (events : List Event) : PgStepTables :=
  events.foldl (next codec) tables

end PgStepStore

end LingxiOS
