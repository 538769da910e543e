-- SUMMARY: The claim query of the PostgreSQL work store.
import LingxiOS.WorkStore.Store
import LingxiOS.Protocol.Jsonb

/-! # The Claim Query

The `WHERE` clause of `PgWorkStore.claim` over the tables it reads. Its comment names
`memory-store.ts` as the executable specification, so the tables are also read as
a memory store. No row has entries in `agent_work_dependencies`: the condition over
them holds of every row and is left out. -/

namespace LingxiOS

/-- A row of `agent_work_items`. The column `meta` holds any JSON value. -/
structure PgWorkRow where
  id : String
  fence : Nat
  tenantId : String
  agentId : String
  sessionId : String
  threadId : Option String
  kind : String
  lane : WorkLane
  triggerRef : String
  principalId : Option String
  priority : Int
  status : WorkStatus
  createdAt : Int
  availableAt : Int
  attempts : Nat
  preemptions : Nat
  leaseTokenHash : Option String
  leasedBy : Option String
  leaseExpiresAt : Option Int
  cancelRequestedAt : Option Int
  preemptRequestedAt : Option Int
  steerInputs : List SteerInput
  goalOutcome : Option GoalOutcome
  error : Option String
  meta_ : Option Json

/-- A row of `agent_os_session_leases`. -/
structure PgSessionLease where
  session : SessionKey
  workId : String
  fence : Nat
  expiresAt : Int

/-- The column `session_key`. -/
def PgSessionLease.sessionKey (lease : PgSessionLease) : String := sessionKeyOf lease.session

/-- The tables of the work store, each row under its primary key. -/
structure PgWorkTables where
  workItems : List PgWorkRow
  sessionLeases : List PgSessionLease
  workItems_pkey : (workItems.map PgWorkRow.id).Nodup
  sessionLeases_pkey : (sessionLeases.map PgSessionLease.sessionKey).Nodup

/-- The parameter `$4`. -/
def ExecutionClass.name : ExecutionClass → String
  | .conversation => "conversation"
  | .operation => "operation"

/-! ## The query -/

namespace PgWorkStore

open WorkStore (ClaimRequest)

/-- `WORK_SESSION_KEY_SQL`. -/
def workSessionKey (work : PgWorkRow) : String :=
  "[" ++ Text.quote work.tenantId ++ "," ++ Text.quote work.agentId ++ ","
    ++ Text.quote work.sessionId ++ "," ++ (work.threadId.map Text.quote).getD "null" ++ "]"

/-- Queued, or leased under a lease that has run out. -/
def whereStatus (now : Int) (work : PgWorkRow) : Sql.Truth :=
  Sql.or (Sql.eq (some work.status) (some .queued))
    (Sql.and (Sql.eq (some work.status) (some .leased))
      (Sql.compare (fun a b => decide (a ≤ b)) work.leaseExpiresAt (some now)))

def whereKind (request : ClaimRequest) (work : PgWorkRow) : Sql.Truth :=
  Sql.or (Sql.isNull request.kinds) (request.kinds.bind (Sql.eqAny (some work.kind)))

def whereLane (request : ClaimRequest) (work : PgWorkRow) : Sql.Truth :=
  Sql.or (Sql.isNull request.lanes) (request.lanes.bind (Sql.eqAny (some work.lane)))

/-- `COALESCE(work.meta->>'executionClass', CASE …)`. -/
def executionClassText (work : PgWorkRow) : Option String :=
  (Jsonb.getText work.meta_ "executionClass").or
    (some (if work.lane ∈ [.interactive, .approval] then "conversation" else "operation"))

def whereExecutionClass (request : ClaimRequest) (work : PgWorkRow) : Sql.Truth :=
  Sql.or (Sql.isNull request.executionClass)
    (Sql.eq (executionClassText work) (request.executionClass.map ExecutionClass.name))

def whereAttempts (work : PgWorkRow) : Sql.Truth :=
  Sql.or (Sql.not (Sql.eqAny (some work.kind) WorkStore.boundedKinds))
    (Sql.compare (fun a b => decide (a < b)) (some work.attempts) (some 3))

def whereAvailable (now : Int) (work : PgWorkRow) : Sql.Truth :=
  Sql.compare (fun a b => decide (a ≤ b)) (some work.availableAt) (some now)

/-- No lease of the session is still running. -/
def whereSession (tables : PgWorkTables) (now : Int) (work : PgWorkRow) : Sql.Truth :=
  Sql.not (Sql.exists_ tables.sessionLeases fun lease =>
    Sql.and (Sql.eq (some lease.sessionKey) (some (workSessionKey work)))
      (Sql.compare (fun a b => decide (b < a)) (some lease.expiresAt) (some now)))

/-- `jsonb_array_elements_text(COALESCE(work.meta->'dependsOn', '[]'))`. -/
def dependencyIds (work : PgWorkRow) : Except String (List (Option String)) :=
  (Jsonb.elements ((Jsonb.get work.meta_ "dependsOn").getD (.arr []))).map (·.map Jsonb.asText)

/-- The rows a dependency is joined with. -/
def prerequisites (tables : PgWorkTables) (work : PgWorkRow) (dependency : Option String) :
    List (Option PgWorkRow) :=
  Sql.leftJoin tables.workItems fun prerequisite =>
    Sql.and (Sql.eq (some prerequisite.id) dependency)
      (Sql.and (Sql.eq (some prerequisite.tenantId) (some work.tenantId))
        (Sql.isNotDistinctFrom prerequisite.principalId work.principalId))

/-- A prerequisite that is missing or not settled. -/
def wherePrerequisite (prerequisite : Option PgWorkRow) : Sql.Truth :=
  Sql.or (Sql.isNull (prerequisite.map PgWorkRow.id))
    (Sql.eqAny (prerequisite.map PgWorkRow.status) [.queued, .leased, .waiting])

def whereDependsOn (tables : PgWorkTables) (work : PgWorkRow) : Except String Sql.Truth :=
  (dependencyIds work).map fun ids =>
    Sql.not (Sql.exists_ (ids.flatMap (prerequisites tables work)) wherePrerequisite)

/-- The conditions that cannot fail. -/
def conditions (tables : PgWorkTables) (request : ClaimRequest) (now : Int) (work : PgWorkRow) :
    Sql.Truth :=
  Sql.and (whereStatus now work) <| Sql.and (whereKind request work) <|
    Sql.and (whereLane request work) <| Sql.and (whereExecutionClass request work) <|
      Sql.and (whereAttempts work) <| Sql.and (Sql.isNull work.cancelRequestedAt) <|
        Sql.and (whereAvailable now work) (whereSession tables now work)

/-- Whether the query keeps a row. PostgreSQL orders the conditions itself; here
    `dependsOn` is expanded last, where the fewest rows make the query fail. -/
def keeps (tables : PgWorkTables) (request : ClaimRequest) (now : Int) (work : PgWorkRow) :
    Except String Bool :=
  if Sql.holds (conditions tables request now work) then
    (whereDependsOn tables work).map Sql.holds
  else .ok false

/-- The rows the claim query chooses from. One row that fails fails the query. -/
def admitted (tables : PgWorkTables) (request : ClaimRequest) (now : Int) :
    Except String (List PgWorkRow) :=
  Sql.select (keeps tables request now) tables.workItems

end PgWorkStore

/-! ## The same rows in memory -/

/-- The fields of a `meta` that is an object; property access finds none in another
    value. -/
def metaObject : Json → Option JsonObject
  | .obj fields => some fields
  | _ => none

def PgWorkRow.toRow (work : PgWorkRow) : WorkRow where
  goalOutcome := work.goalOutcome
  id := work.id
  fence := work.fence
  tenantId := work.tenantId
  agentId := work.agentId
  sessionId := work.sessionId
  threadId := work.threadId
  kind := work.kind
  lane := work.lane
  triggerRef := work.triggerRef
  principalId := work.principalId
  priority := work.priority
  status := work.status
  createdAt := work.createdAt
  availableAt := some work.availableAt
  attempts := work.attempts
  preemptions := work.preemptions
  leaseTokenHash := work.leaseTokenHash
  leasedBy := work.leasedBy
  leaseExpiresAt := work.leaseExpiresAt
  cancelRequestedAt := work.cancelRequestedAt
  preemptRequestedAt := work.preemptRequestedAt
  steerInputs := work.steerInputs
  error := work.error
  meta_ := work.meta_.bind metaObject

/-- The memory store that holds the rows of the tables. -/
def PgWorkTables.inMemory (tables : PgWorkTables) : WorkStore :=
  { WorkStore.init with
    rows :=
      { entries := tables.workItems.map fun work => (work.id, work.toRow)
        nodup := by simpa [List.map_map, Function.comp_def] using tables.workItems_pkey }
    sessionLeases :=
      { entries := tables.sessionLeases.map fun lease =>
          (lease.session, ⟨lease.workId, lease.fence, lease.expiresAt⟩)
        nodup := by
          have hkeys : (tables.sessionLeases.map PgSessionLease.session).Nodup := by
            refine List.Nodup.of_map sessionKeyOf ?_
            rw [List.map_map]
            exact tables.sessionLeases_pkey
          simpa [List.map_map, Function.comp_def] using hkeys } }

/-- The rows `claim` sorts, in the order of the store. -/
def WorkStore.admitted (s : WorkStore) (request : ClaimRequest) (now : Int) : List WorkRow :=
  let s := (s.evictClaim request).purge request.workerId now
  s.rows.values.filter (s.candidate request now)

end LingxiOS
