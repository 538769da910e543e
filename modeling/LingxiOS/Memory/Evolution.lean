-- SUMMARY: Evolved memories: evaluation, activation and rollback.
import LingxiOS.Base.Transition
import LingxiOS.Delegation.Jobs
import LingxiOS.Memory.Documents

/-! # Evolution

`executeEvolution` and `rollbackEvolution` over the stored memories. A candidate is
evaluated by reports, one for each case, repetition and variant of its benchmark; the
reports are recorded one by one, and `finish` decides over them once. -/

namespace LingxiOS

namespace Evolution

open Jobs (JobRow)

/-! ## Tables -/

/-- The columns of `agent_memories` an evaluation reads. -/
structure MemoryRow where
  tenantId : String
  id : String
  scopeType : String
  scopeId : String
  kind : String
  body : String
  origin : MemoryOrigin
  status : MemoryStatus
  version : Nat
  deriving DecidableEq

structure EvolutionCandidate where
  kind : String
  scopeType : String
  body : String
  deriving DecidableEq

structure EvolutionReference extends MemoryScope where
  id : String
  version : Nat
  deriving DecidableEq

inductive Split where
  | target | holdout
  deriving DecidableEq

inductive Variant where
  | baseline | candidate
  deriving DecidableEq

def Variant.name : Variant → String
  | .baseline => "baseline"
  | .candidate => "candidate"

structure EvolutionCase where
  id : String
  split : Split
  input : Json

structure EvolutionBenchmark where
  id : String
  evaluatorVersion : String
  repetitions : Nat
  gates : List String
  cases : List EvolutionCase

/-- The gates hold their keys in order. -/
structure EvolutionReport where
  success : Bool
  gates : List (String × Bool)
  durationMs : Int
  costMicros : Int
  deriving DecidableEq

inductive Verdict where
  | pending | passed | failed | stale
  deriving DecidableEq

/-- What `finish` adds up over the reports. -/
structure Summary where
  successes : Split → Variant → Nat := fun _ _ => 0
  gatesPassed : Bool := true
  durationMs : Int := 0
  costMicros : Int := 0

/-- A row of `agent_evolution_evaluations`. -/
structure EvaluationRow where
  candidateVersion : Nat
  benchmarkId : String
  baseline : Option (EvolutionReference × EvolutionCandidate)
  records : JsMap String EvolutionReport
  verdict : Verdict
  summary : Option Summary

/-- The columns of `agent_memory_evidence` an evaluation reads. -/
structure SourceRow where
  tenantId : String
  principalId : String
  processed : Bool

/-- A memory, and its evaluation, is stored under its tenant and id. -/
abbrev MemoryKey := String × String

structure EvolutionTables where
  works : JsMap String JobRow
  sources : JsMap String SourceRow
  memories : JsMap MemoryKey MemoryRow
  evaluations : JsMap MemoryKey EvaluationRow
  benchmarks : JsMap MemoryKey EvolutionBenchmark

def candidateOf (row : MemoryRow) : EvolutionCandidate := ⟨row.kind, row.scopeType, row.body⟩

def referenceOf (row : MemoryRow) : EvolutionReference where
  tenantId := row.tenantId
  scopeType := row.scopeType
  scopeId := row.scopeId
  id := row.id
  version := row.version

/-- The rows that compete for one active place. -/
def MemoryRow.sameSlot (a b : MemoryRow) : Bool :=
  a.tenantId = b.tenantId ∧ a.scopeType = b.scopeType ∧ a.scopeId = b.scopeId ∧ a.kind = b.kind

def MemoryRow.isActiveEvolved (row : MemoryRow) : Bool :=
  row.origin = .evolved ∧ row.status = .active

/-- `UPDATE … SET status=$, version=version+1`, under the index `agent_evolution_active`. -/
def setStatus (memories : JsMap MemoryKey MemoryRow) (key : MemoryKey) (status : MemoryStatus) :
    Except String (JsMap MemoryKey MemoryRow) :=
  match memories.get? key with
  | none => .ok memories
  | some row =>
      let row := { row with status := status, version := row.version + 1 }
      if row.isActiveEvolved && memories.entries.any (fun entry =>
          entry.1 != key && entry.2.isActiveEvolved && entry.2.sameSlot row) then
        .error "duplicate key value violates unique constraint \"agent_evolution_active\""
      else .ok (memories.set key row)

/-! ## The evaluation a job may work on -/

/-- The rows of the query that begins every call. -/
def leased (tables : EvolutionTables) (now : Int) (work : JobRow) :
    Option (MemoryRow × EvaluationRow × EvolutionBenchmark) := do
  let job ← tables.works.get? work.id
  guard (job.fence = work.fence ∧ job.tenantId = work.tenantId ∧ job.agentId = work.agentId
    ∧ job.principalId.isSome ∧ job.principalId = work.principalId
    ∧ job.kind = "memory_evaluation" ∧ job.status = .leased ∧ job.leaseExpiresAt.any (now < ·)
    ∧ job.cancelRequestedAt = none)
  let memoryId ← Jsonb.getText job.meta_ "memoryId"
  let memory ← tables.memories.get? (job.tenantId, memoryId)
  let evaluation ← tables.evaluations.get? (job.tenantId, memoryId)
  let benchmark ← tables.benchmarks.get? (job.tenantId, evaluation.benchmarkId)
  let source ← (Jsonb.getText job.meta_ "sourceRunId").bind tables.sources.get?
  guard (source.processed ∧ source.tenantId = job.tenantId
    ∧ some source.principalId = job.principalId)
  guard (memory.origin = .evolved ∧ memory.status ≠ .expired)
  return (memory, evaluation, benchmark)

inductive Method where
  | load | record | finish
  deriving DecidableEq

inductive Answer where
  /-- `null`: there is nothing left to evaluate. -/
  | none
  | plan (candidate : EvolutionCandidate) (baseline : Option EvolutionCandidate)
      (benchmark : EvolutionBenchmark) (records : JsMap String EvolutionReport)
  | recorded (key : String)
  | decided (verdict : Verdict)
  | incomplete
  | finished (verdict : Verdict) (summary : Summary)

/-! ## Recording -/

/-- `evolutionCaseKey`, the variant as it was given. -/
def caseKey (caseId : String) (repetition : Int) (variant : Json) : String :=
  (Json.arr [.str caseId, .num repetition, variant]).stringify

/-- An integer field that is safe and not negative. -/
def countField (fields : JsonObject) (key : String) : Option Int :=
  match fields.lookup key with
  | some (.num n) => if isSafeInteger n && decide (0 ≤ n) then some n else none
  | _ => none

def gateField (field : String × Json) : Option (String × Bool) :=
  match field.2 with
  | .bool b => some (field.1, b)
  | _ => none

/-- The report of the arguments, when it is a valid one for the benchmark. -/
def parseReport (benchmark : EvolutionBenchmark) (value : Option Json) : Option EvolutionReport :=
  match value with
  | some (.obj fields) => match fields.lookup "success", fields.lookup "gates" with
    | some (.bool success), some (.obj gates) => do
        guard ((gates.map Prod.fst).insertionSort (· ≤ ·) = benchmark.gates.insertionSort (· ≤ ·))
        let gates ← gates.mapM gateField
        let durationMs ← countField fields "durationMs"
        let costMicros ← countField fields "costMicros"
        guard (fields.all fun field =>
          ["success", "gates", "durationMs", "costMicros"].contains field.1)
        return ⟨success, gates.insertionSort (fun a b => a.1 ≤ b.1), durationMs, costMicros⟩
    | _, _ => none
  | _ => none

/-- The checks of `record`, and the key and report it stores. -/
def parseRecord (benchmark : EvolutionBenchmark) (args : JsonObject) :
    Option (String × EvolutionReport) :=
  match args.lookup "caseId", args.lookup "repetition", args.lookup "variant" with
  | some (.str caseId), some (.num repetition), some variant => do
      guard (benchmark.cases.any (·.id == caseId))
      guard (isSafeInteger repetition ∧ 0 ≤ repetition ∧ repetition < benchmark.repetitions)
      guard (["baseline", "candidate"].contains variant.toJsString)
      let report ← parseReport benchmark (args.lookup "report")
      guard (args.lookup "evaluatorVersion" = some (.str benchmark.evaluatorVersion))
      return (caseKey caseId repetition variant, report)
  | _, _, _ => none

/-- A report that is recorded may only be recorded again. -/
def record (evaluation : EvaluationRow) (key : String) (report : EvolutionReport) :
    Except String EvaluationRow :=
  match evaluation.records.get? key with
  | some recorded =>
      if recorded = report then .ok evaluation else .error "evaluation report is immutable"
  | none => .ok { evaluation with records := evaluation.records.set key report }

/-! ## Deciding -/

/-- One report the benchmark asks for. -/
structure Slot where
  case_ : EvolutionCase
  repetition : Nat
  variant : Variant

def Slot.key (slot : Slot) : String :=
  caseKey slot.case_.id slot.repetition (.str slot.variant.name)

/-- Every case, repetition and variant, in the order of the loops. -/
def slots (benchmark : EvolutionBenchmark) : List Slot :=
  benchmark.cases.flatMap fun case_ =>
    (List.range benchmark.repetitions).flatMap fun repetition =>
      [.baseline, .candidate].map fun variant => ⟨case_, repetition, variant⟩

def Summary.add (summary : Summary) (slot : Slot) (report : EvolutionReport) : Summary where
  successes split variant := summary.successes split variant
    + if split = slot.case_.split ∧ variant = slot.variant ∧ report.success = true then 1 else 0
  gatesPassed := summary.gatesPassed && report.gates.all Prod.snd
  durationMs := summary.durationMs + report.durationMs
  costMicros := summary.costMicros + report.costMicros

/-- The loops of `finish`: they end early at a report that is missing. -/
def summarize (records : JsMap String EvolutionReport) : Summary → List Slot → Option Summary
  | summary, [] => some summary
  | summary, slot :: rest =>
      match records.get? slot.key with
      | some report => summarize records (summary.add slot report) rest
      | none => none

/-- The active memory of the candidate's scope and kind. -/
def activeRow (memories : JsMap MemoryKey MemoryRow) (tenantId : String) (row : MemoryRow) :
    Option MemoryRow :=
  memories.values.find? fun other => other.tenantId = tenantId ∧ other.scopeType = row.scopeType
    ∧ other.scopeId = row.scopeId ∧ other.kind = row.kind ∧ other.isActiveEvolved

def decide_ (evaluation : EvaluationRow) (active : Option MemoryRow) (summary : Summary) : Verdict :=
  if active.map referenceOf ≠ evaluation.baseline.map Prod.fst then .stale
  else if summary.gatesPassed
      ∧ summary.successes .target .baseline < summary.successes .target .candidate
      ∧ summary.successes .holdout .baseline ≤ summary.successes .holdout .candidate then .passed
  else .failed

/-- A passed candidate takes the place of the active memory. -/
def promote (memories : JsMap MemoryKey MemoryRow) (tenantId : String) (active : Option MemoryRow)
    (row : MemoryRow) : Except String (JsMap MemoryKey MemoryRow) := do
  let memories ← match active with
    | some active => setStatus memories (tenantId, active.id) .retired
    | none => pure memories
  setStatus memories (tenantId, row.id) .active

def finish (tables : EvolutionTables) (work : JobRow) (row : MemoryRow) (evaluation : EvaluationRow)
    (benchmark : EvolutionBenchmark) : Except String (Answer × EvolutionTables) :=
  match summarize evaluation.records {} (slots benchmark) with
  | none => .ok (.incomplete, tables)
  | some summary => do
      let active := activeRow tables.memories work.tenantId row
      let verdict := decide_ evaluation active summary
      let memories ←
        if verdict = .passed then promote tables.memories work.tenantId active row
        else pure tables.memories
      let evaluations := tables.evaluations.set (work.tenantId, row.id)
        { evaluation with verdict := verdict, summary := some summary }
      return (.finished verdict summary,
        { tables with memories := memories, evaluations := evaluations })

/-- `executeEvolution`: the answer and the tables it leaves, or the error that rolls it back. -/
def executeEvolution (tables : EvolutionTables) (now : Int) (work : JobRow)
    (scopes : List MemoryScope) (method : Method) (args : JsonObject) :
    Except String (Answer × EvolutionTables) :=
  match leased tables now work with
  | none => .error "evolution lease, scope or source was revoked"
  | some (row, evaluation, benchmark) =>
      if !scopes.contains ⟨work.tenantId, row.scopeType, row.scopeId⟩ then
        .error "evolution lease, scope or source was revoked"
      else if evaluation.verdict ≠ .pending then
        .ok (if method = .load then .none else .decided evaluation.verdict, tables)
      else if row.version ≠ evaluation.candidateVersion ∨ row.status ≠ .candidate then
        .error "candidate changed during evaluation"
      else match method with
        | .load => .ok (.plan (candidateOf row) (evaluation.baseline.map Prod.snd) benchmark
            evaluation.records, tables)
        | .record => match parseRecord benchmark args with
          | none => .error "invalid independent evaluation report"
          | some (key, report) => do
              let evaluation ← record evaluation key report
              return (.recorded key, { tables with
                evaluations := tables.evaluations.set (work.tenantId, row.id) evaluation })
        | .finish => finish tables work row evaluation benchmark

/-! ## Rollback -/

/-- A row of the rollback query: an evolved memory of the scope, with its verdict. -/
def rollbackRow (tables : EvolutionTables) (scope : MemoryScope) (id : String) :
    Option (MemoryRow × Verdict) := do
  let row ← tables.memories.get? (scope.tenantId, id)
  let evaluation ← tables.evaluations.get? (scope.tenantId, id)
  guard (row.scopeType = scope.scopeType ∧ row.scopeId = scope.scopeId ∧ row.origin = .evolved)
  return (row, evaluation.verdict)

/-- The target of a rollback: retired, passed, and of the kind of the active memory. -/
def restorable (active : MemoryRow) (target : Option (MemoryRow × Verdict)) : Bool :=
  target.any fun target =>
    target.1.status = .retired ∧ target.2 = .passed ∧ target.1.kind = active.kind

def rollbackEvolution (tables : EvolutionTables) (scope : MemoryScope) (activeId : String)
    (expectedVersion : Nat) (targetId : Option String) : Except String EvolutionTables :=
  match rollbackRow tables scope activeId with
  | none => .error "rollback version or evaluated target is unavailable"
  | some (active, _) =>
      -- the empty id is not looked up, unless it is the active one
      let target := (targetId.filter fun id => id ≠ "" ∨ id = activeId).bind (rollbackRow tables scope)
      if active.status ≠ .active ∨ active.version ≠ expectedVersion
          ∨ targetId.isSome ∧ restorable active target = false then
        .error "rollback version or evaluated target is unavailable"
      else do
        let memories ← setStatus tables.memories (scope.tenantId, activeId) .retired
        let memories ← match targetId.filter (· != "") with
          | some id => setStatus memories (scope.tenantId, id) .active
          | none => pure memories
        return { tables with memories := memories }

/-! ## Any order of calls -/

inductive Event where
  | execute (now : Int) (work : JobRow) (scopes : List MemoryScope) (method : Method)
      (args : JsonObject)
  | rollback (scope : MemoryScope) (activeId : String) (expectedVersion : Nat)
      (targetId : Option String)
  | others

/-- What other code may do between the calls: move jobs and sources, change memories of other
    origins, propose candidates with their evaluations, and let evolved memories expire. It
    activates none, and keeps the evaluations and benchmarks there are. (To forget a scope deletes
    its memories together with their evaluations; that is not one of these calls.) -/
structure Beside (tables tables' : EvolutionTables) : Prop where
  keyed : ∀ key row, tables'.memories.get? key = some row → (row.tenantId, row.id) = key
  evolved : ∀ key row, tables'.memories.get? key = some row → row.isActiveEvolved = true →
    tables.memories.get? key = some row
  evaluations : ∀ key evaluation, tables.evaluations.get? key = some evaluation →
    tables'.evaluations.get? key = some evaluation
  benchmarks : ∀ key benchmark, tables.benchmarks.get? key = some benchmark →
    tables'.benchmarks.get? key = some benchmark

/-- At most one evolved memory of a scope and a kind is active. -/
def OneActive (memories : JsMap MemoryKey MemoryRow) : Prop :=
  ∀ key key' row row', memories.get? key = some row → memories.get? key' = some row' →
    row.isActiveEvolved = true → row'.isActiveEvolved = true → row.sameSlot row' = true →
    key = key'

/-- A call that throws is rolled back. -/
def system : TransitionSystem EvolutionTables Event where
  start tables := OneActive tables.memories
    ∧ ∀ key row, tables.memories.get? key = some row → (row.tenantId, row.id) = key
  step tables event tables' := match event with
    | .execute now work scopes method args =>
        match executeEvolution tables now work scopes method args with
        | .ok (_, left) => tables' = left
        | .error _ => tables' = tables
    | .rollback scope activeId expectedVersion targetId =>
        match rollbackEvolution tables scope activeId expectedVersion targetId with
        | .ok left => tables' = left
        | .error _ => tables' = tables
    | .others => Beside tables tables'

end Evolution

end LingxiOS
