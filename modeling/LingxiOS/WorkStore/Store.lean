-- SUMMARY: The in-memory work store and its operations.
import LingxiOS.Base.JsMap
import LingxiOS.Protocol.Types

/-! # The Work Store

A translation of `MemoryWorkStore`, the executable specification of the lease
state machine. Every call runs to completion on one state, so each operation is
a function from a store to an answer and a store.

A call may read the clock several times. The guard of a call sees the first
reading `now`; whatever it stamps afterwards carries the reading `later`. -/

namespace LingxiOS

/-! ## State -/

structure WorkRow where
  goalOutcome : Option GoalOutcome
  id : String
  fence : Nat
  tenantId : String
  agentId : String
  sessionId : String
  threadId : Option String
  kind : String
  lane : WorkLane
  triggerRef : String
  principalId : Option String
  priority : Int
  status : WorkStatus
  createdAt : Int
  availableAt : Option Int
  attempts : Nat
  preemptions : Nat
  leaseTokenHash : Option String
  leasedBy : Option String
  leaseExpiresAt : Option Int
  cancelRequestedAt : Option Int
  preemptRequestedAt : Option Int
  steerInputs : List SteerInput
  error : Option String
  meta_ : Option JsonObject

structure SessionRoute where
  workerId : String
  homeEpoch : Nat
  deriving DecidableEq

structure SessionLease where
  workId : String
  fence : Nat
  expiresAt : Int
  deriving DecidableEq

/-- The answer a claim request got, kept to replay it. -/
structure ClaimRecord where
  workerId : String
  work : Option WorkItem
  kinds : Option (List String)
  lanes : Option (List WorkLane)
  executionClass : Option ExecutionClass

structure WorkStore where
  attempts : JsMap LeaseProof WorkItem
  rows : JsMap String WorkRow
  routes : JsMap SessionKey SessionRoute
  sessionLeases : JsMap SessionKey SessionLease
  workerLastSeen : JsMap String Int
  claims : JsMap String ClaimRecord

/-- The options of the store, and the digest lease tokens are stored under. -/
structure WorkStoreOptions where
  leaseTtlMs : Int := 45000
  hashToken : String → String

namespace WorkStore

/-- A store nothing was enqueued in. -/
def init : WorkStore := ⟨.empty, .empty, .empty, .empty, .empty, .empty⟩

end WorkStore

/-- `sessionKeyOf`. -/
def WorkRow.sessionKey (row : WorkRow) : SessionKey :=
  ⟨row.tenantId, row.agentId, row.sessionId, row.threadId⟩

/-- A child belongs to its parent when it names it and runs for the same
    principal of the same tenant. -/
def WorkRow.isChildOf (child row : WorkRow) : Bool :=
  JsonObject.getString? child.meta_ "parentWorkId" == some row.id
    && child.tenantId == row.tenantId && child.principalId == row.principalId

/-- A leased row whose lease has not run out. -/
def WorkRow.Live (row : WorkRow) (now : Int) : Prop :=
  row.status = .leased ∧ ∃ expiry, row.leaseExpiresAt = some expiry ∧ now < expiry

namespace WorkStore

/-! ## Enqueue -/

structure EnqueueWorkInput where
  id : Option String
  tenantId : String
  agentId : String
  sessionId : String
  threadId : Option String
  kind : String
  lane : WorkLane
  triggerRef : String
  principalId : Option String
  priority : Option Int
  availableAt : Option (Option Int)
  meta_ : Option JsonObject

structure EnqueueResult where
  id : String
  deduplicated : Bool
  deriving DecidableEq

/-- `isDeepStrictEqual` on two optional records. -/
def sameMeta : Option JsonObject → Option JsonObject → Bool
  | none, none => true
  | some a, some b => Json.deepEqual (.obj a) (.obj b)
  | _, _ => false

/-- Whether an enqueue repeats the request its row was created from. -/
def sameRequest (existing : WorkRow) (input : EnqueueWorkInput) : Bool :=
  existing.tenantId == input.tenantId && existing.agentId == input.agentId
    && existing.sessionId == input.sessionId && existing.threadId == input.threadId
    && existing.principalId == input.principalId && existing.kind == input.kind
    && existing.lane == input.lane && existing.triggerRef == input.triggerRef
    && existing.priority == input.priority.getD 0
    && sameMeta existing.meta_ input.meta_

/-- The row of a newly enqueued work. An empty principal is no principal. -/
def newRow (input : EnqueueWorkInput) (id : String) (now : Int) : WorkRow where
  goalOutcome := none
  id := id
  fence := 0
  tenantId := input.tenantId
  agentId := input.agentId
  sessionId := input.sessionId
  threadId := input.threadId
  kind := input.kind
  lane := input.lane
  triggerRef := input.triggerRef
  principalId := input.principalId.filter (· != "")
  priority := input.priority.getD 0
  status := .queued
  createdAt := now
  availableAt := input.availableAt.getD (some now)
  attempts := 0
  preemptions := 0
  leaseTokenHash := none
  leasedBy := none
  leaseExpiresAt := none
  cancelRequestedAt := none
  preemptRequestedAt := none
  steerInputs := []
  error := none
  meta_ := input.meta_

def enqueue (s : WorkStore) (input : EnqueueWorkInput) (randomUUID : String) (now : Int) :
    Except String EnqueueResult × WorkStore :=
  let id := input.id.getD randomUUID
  match s.rows.get? id with
  | some existing =>
      if sameRequest existing input then (.ok ⟨id, true⟩, s)
      else (.error "work identity reused with a different request or principal", s)
  | none => (.ok ⟨id, false⟩, { s with rows := s.rows.set id (newRow input id now) })

/-! ## Claim -/

/-- What a worker asks for. Lists are kept sorted and without repetitions. -/
structure ClaimRequest where
  workerId : String
  requestId : Option String := none
  workKinds : Option (List String) := none
  lanes : Option (List WorkLane) := none
  executionClass : Option ExecutionClass := none

/-- `[...new Set(workKinds)].sort()`. -/
def ClaimRequest.kinds (request : ClaimRequest) : Option (List String) :=
  request.workKinds.map (fun kinds => kinds.dedup.insertionSort (· ≤ ·))

/-- `[...new Set(lanes)].sort()`. -/
def ClaimRequest.sortedLanes (request : ClaimRequest) : Option (List WorkLane) :=
  request.lanes.map (fun lanes => lanes.dedup.insertionSort (fun a b => a.rank ≤ b.rank))

/-- An empty request id is no request id. -/
def ClaimRequest.identity (request : ClaimRequest) : Option String :=
  request.requestId.filter (· != "")

/-- Work kinds that are given up after three attempts. -/
def boundedKinds : List String := ["memory_synthesis", "memory_index", "memory_evaluation"]

/-- A dependency holds its dependents back until it is settled, and for good
    when it is missing or belongs to somebody else. -/
def dependencyOpen (s : WorkStore) (row : WorkRow) (dependency : Json) : Bool :=
  match s.rows.get? dependency.toJsString with
  | none => true
  | some target => target.tenantId != row.tenantId || target.principalId != row.principalId
      || target.status.isOpen

def dependenciesOpen (s : WorkStore) (row : WorkRow) : Bool :=
  match JsonObject.get? row.meta_ "dependsOn" with
  | some (.arr dependencies) => dependencies.any (s.dependencyOpen row)
  | _ => false

/-- Queued, or leased under a lease that has run out. -/
def claimable (row : WorkRow) (now : Int) : Bool :=
  row.status == .queued || (row.status == .leased && decide (row.leaseExpiresAt.getD 0 ≤ now))

/-- The filter of `claim`. -/
def candidate (s : WorkStore) (request : ClaimRequest) (now : Int) (row : WorkRow) : Bool :=
  (match request.kinds with
    | some kinds => kinds.contains row.kind
    | none => true)
  && (match request.sortedLanes with
    | some lanes => lanes.contains row.lane
    | none => true)
  && (match request.executionClass with
    | some wanted => executionClassOf row.lane (JsonObject.getString? row.meta_ "executionClass") == wanted
    | none => true)
  && !(boundedKinds.contains row.kind && decide (3 ≤ row.attempts))
  && claimable row now && row.cancelRequestedAt.isNone
  && !s.dependenciesOpen row
  && !(row.availableAt.any (fun at_ => decide (now < at_)))
  && !s.sessionLeases.has row.sessionKey

/-- The lane's priority, raised by one for every minute the row has waited.
    An unreadable instant gives no number. -/
def urgency (now : Int) (row : WorkRow) : Option Int :=
  row.availableAt.map (fun at_ => row.lane.priority + max 0 (now - at_) / 60000)

/-- The comparator of `claim`: urgency, priority, warm worker, age. A
    comparison that gives zero (or no number) leaves it to the next one. -/
def claimOrder (s : WorkStore) (workerId : String) (now : Int) (a b : WorkRow) : Int :=
  let warm (row : WorkRow) : Int :=
    if (s.routes.get? row.sessionKey).any (fun route => route.workerId == workerId) then 1 else 0
  let byUrgency : Int := match urgency now b, urgency now a with
    | some ub, some ua => ub - ua
    | _, _ => 0
  if byUrgency ≠ 0 then byUrgency
  else if b.priority - a.priority ≠ 0 then b.priority - a.priority
  else if warm b - warm a ≠ 0 then warm b - warm a
  else a.createdAt - b.createdAt

/-- The rows a claim may take, most urgent first. -/
def candidates (s : WorkStore) (request : ClaimRequest) (now : Int) : List WorkRow :=
  (s.rows.values.filter (s.candidate request now)).insertionSort
    (fun a b => s.claimOrder request.workerId now a b ≤ 0)

/-- The worker seen now, and every session lease that has run out dropped. -/
def purge (s : WorkStore) (workerId : String) (now : Int) : WorkStore :=
  { s with
    workerLastSeen := s.workerLastSeen.set workerId now
    sessionLeases := s.sessionLeases.filter (fun _ lease => decide (now < lease.expiresAt)) }

/-- The route of a session once a worker claims from it. Another worker must
    restore from committed snapshots, not the previous home. -/
def nextRoute (s : WorkStore) (key : SessionKey) (workerId : String) : SessionRoute :=
  match s.routes.get? key with
  | none => ⟨workerId, 1⟩
  | some route =>
      if route.workerId = workerId then route else ⟨workerId, route.homeEpoch + 1⟩

def toWorkItem (row : WorkRow) (leaseToken : String) (homeEpoch : Nat) : WorkItem where
  id := row.id
  fence := row.fence
  homeEpoch := homeEpoch
  tenantId := row.tenantId
  agentId := row.agentId
  sessionId := row.sessionId
  threadId := row.threadId
  kind := row.kind
  lane := row.lane
  triggerRef := row.triggerRef
  principalId := row.principalId
  createdAt := row.createdAt
  availableAt := row.availableAt
  attempts := row.attempts
  preemptions := row.preemptions
  leaseToken := leaseToken
  meta_ := row.meta_

/-- The row once it is leased. -/
def leasedRow (opts : WorkStoreOptions) (row : WorkRow) (workerId token : String) (now : Int) :
    WorkRow :=
  { row with
    status := .leased
    fence := row.fence + 1
    leaseTokenHash := some (opts.hashToken token)
    leasedBy := some workerId
    leaseExpiresAt := some (now + opts.leaseTtlMs)
    attempts := row.attempts + 1 }

/-- Lease one row: the body of `claim` after the candidate is chosen. -/
def leaseRow (opts : WorkStoreOptions) (s : WorkStore) (row : WorkRow)
    (workerId token : String) (now : Int) : WorkItem × WorkStore :=
  let key := row.sessionKey
  let route := s.nextRoute key workerId
  let leased := leasedRow opts row workerId token now
  let work := toWorkItem leased token route.homeEpoch
  (work,
    { s with
      routes := s.routes.set key route
      rows := s.rows.set row.id leased
      sessionLeases := s.sessionLeases.set key ⟨row.id, leased.fence, now + opts.leaseTtlMs⟩
      attempts := s.attempts.set ⟨row.id, leased.fence, opts.hashToken token⟩ work })

/-- Remember the answer to a claim request, forgetting the oldest of 10000. -/
def recordClaim (s : WorkStore) (request : ClaimRequest) (work : Option WorkItem) : WorkStore :=
  match request.identity with
  | none => s
  | some id =>
      { s with
        claims := s.claims.set id
          ⟨request.workerId, work, request.kinds, request.sortedLanes, request.executionClass⟩ }

def evictClaim (s : WorkStore) (request : ClaimRequest) : WorkStore :=
  match request.identity, s.claims.keys with
  | some _, oldest :: _ =>
      if 10000 ≤ s.claims.size then { s with claims := s.claims.delete oldest } else s
  | _, _ => s

/-- The answer of a claim request that was answered before. -/
def replayClaim (prior : ClaimRecord) (request : ClaimRequest) :
    Except String (Option WorkItem) :=
  if prior.workerId ≠ request.workerId then
    .error "claim request identity reused by another worker"
  else if prior.kinds ≠ request.kinds then .error "claim request task types changed"
  else if prior.lanes ≠ request.sortedLanes then .error "claim request lanes changed"
  else if prior.executionClass ≠ request.executionClass then
    .error "claim request execution class changed"
  else .ok prior.work

/-- A claim that was not answered before. -/
def claimFresh (opts : WorkStoreOptions) (s : WorkStore) (request : ClaimRequest)
    (token : String) (now : Int) : Option WorkItem × WorkStore :=
  let s := (s.evictClaim request).purge request.workerId now
  match s.candidates request now with
  | [] => (none, s.recordClaim request none)
  | row :: _ =>
      let (work, s) := leaseRow opts s row request.workerId token now
      (some work, s.recordClaim request (some work))

/-- The answer a claim request got earlier, if it is still remembered. -/
def priorClaim (s : WorkStore) (request : ClaimRequest) : Option ClaimRecord :=
  request.identity.bind s.claims.get?

def claim (opts : WorkStoreOptions) (s : WorkStore) (request : ClaimRequest) (token : String)
    (now : Int) : Except String (Option WorkItem) × WorkStore :=
  match s.priorClaim request with
  | some prior => (replayClaim prior request, s)
  | none =>
      let (work, s) := claimFresh opts s request token now
      (.ok work, s)

/-! ## Calls under a lease -/

/-- The row a proof leases at the given time. -/
def validLease (s : WorkStore) (proof : LeaseProof) (now : Int) : Option WorkRow :=
  (s.rows.get? proof.id).filter (fun row =>
    row.status == .leased && row.fence == proof.fence
      && row.leaseTokenHash == some proof.leaseTokenHash
      && decide (now < row.leaseExpiresAt.getD 0))

/-- Drop a row's session lease if it was taken under the given fence. -/
def releaseSessionLease (s : WorkStore) (row : WorkRow) (fence : Nat) : WorkStore :=
  match s.sessionLeases.get? row.sessionKey with
  | some lease =>
      if lease.workId = row.id ∧ lease.fence = fence then
        { s with sessionLeases := s.sessionLeases.delete row.sessionKey }
      else s
  | none => s

/-- The session leases once a proof's lease was extended. -/
def extendSessionLease (s : WorkStore) (row : WorkRow) (proof : LeaseProof) (expiresAt : Int) :
    JsMap SessionKey SessionLease :=
  s.sessionLeases.modify row.sessionKey (fun lease =>
    if lease.workId = proof.id ∧ lease.fence = proof.fence then
      { lease with expiresAt := expiresAt }
    else lease)

/-- The workers seen once the worker of a row was heard of. -/
def seenBy (s : WorkStore) (row : WorkRow) (now : Int) : JsMap String Int :=
  match row.leasedBy.filter (· != "") with
  | some worker => s.workerLastSeen.set worker now
  | none => s.workerLastSeen

def heartbeat (opts : WorkStoreOptions) (s : WorkStore) (proof : LeaseProof) (now later : Int) :
    Option HeartbeatRow × WorkStore :=
  match s.validLease proof now with
  | none => (none, s)
  | some row =>
      let expiresAt := later + opts.leaseTtlMs
      (some ⟨row.cancelRequestedAt.isSome, row.preemptRequestedAt.isSome, row.steerInputs⟩,
        { s with
          rows := s.rows.set proof.id { row with leaseExpiresAt := some expiresAt }
          workerLastSeen := s.seenBy row later
          sessionLeases := s.extendSessionLease row proof expiresAt })

/-- The leased work as the control plane sees it: the token is left out. -/
structure LeasedWork where
  work : WorkItem
  cancelRequested : Bool

def getLeased (s : WorkStore) (proof : LeaseProof) (now : Int) : Option LeasedWork :=
  (s.validLease proof now).map (fun row =>
    ⟨toWorkItem row "" (((s.routes.get? row.sessionKey).map SessionRoute.homeEpoch).getD 1),
      row.cancelRequestedAt.isSome⟩)

/-- The row once its attempt gave it back. -/
def yieldedRow (row : WorkRow) (later : Int) : WorkRow :=
  { row with
    status := .queued
    fence := row.fence + 1
    leaseTokenHash := none
    leasedBy := none
    leaseExpiresAt := none
    preemptRequestedAt := none
    preemptions := row.preemptions + 1
    availableAt := some (later + 1000) }

def yieldWork (s : WorkStore) (proof : LeaseProof) (now later : Int) : Bool × WorkStore :=
  match s.validLease proof now with
  | none => (false, s)
  | some row =>
      if row.preemptRequestedAt.isNone then (false, s)
      else
        let s := { s with rows := s.rows.set proof.id (yieldedRow row later) }
        (true, s.releaseSessionLease row proof.fence)

/-! ## Cancellation -/

/-- One pass over the rows adds the children of every work found so far. -/
def descendantPass (row : WorkRow) (rows : List WorkRow) (descendants : List String) :
    List String :=
  rows.foldl (fun found child =>
    if child.tenantId = row.tenantId ∧ child.principalId = row.principalId
        ∧ jsString (JsonObject.get? child.meta_ "parentWorkId") ∈ found ∧ child.id ∉ found
    then found ++ [child.id] else found) descendants

/-- At most `depth` passes, and none after one that added nothing. -/
def descendantsFrom (row : WorkRow) (rows : List WorkRow) : Nat → List String → List String
  | 0, found => found
  | depth + 1, found =>
      let next := descendantPass row rows found
      if next.length = found.length then found else descendantsFrom row rows depth next

/-- Cancel one row: an attempt under a lease is only asked to stop. -/
def cancelRow (now : Int) (row : WorkRow) : WorkRow :=
  if !row.status.isOpen then row
  else if row.status = .leased then { row with cancelRequestedAt := some now }
  else
    { row with
      cancelRequestedAt := some now
      status := .cancelled
      goalOutcome := some
        { status := .blocked, verification := .notRun
          requestVersion := row.steerInputs.length + 1, gaps := some ["Cancelled by user"] } }

/-- The rows once every listed one was cancelled. -/
def cancelRows (rows : JsMap String WorkRow) (ids : List String) (now : Int) :
    JsMap String WorkRow :=
  ids.foldl (fun rows id => rows.modify id (cancelRow now)) rows

def requestCancel (s : WorkStore) (id : String) (now : Int) : Bool × WorkStore :=
  match s.rows.get? id with
  | none => (false, s)
  | some row =>
      if !row.status.isOpen then (false, s)
      else
        let descendants := descendantsFrom row s.rows.values 64 [id]
        (true, { s with rows := cancelRows s.rows descendants now })

/-- Cancel the children of a row, one after the other. -/
def cancelChildren (s : WorkStore) (row : WorkRow) (now : Int) : WorkStore :=
  (s.rows.values.filter (fun child => child.isChildOf row)).foldl
    (fun s child => (s.requestCancel child.id now).2) s

/-! ## Settlement -/

/-- The reasons a settlement is refused although the lease is valid. -/
def settlementRefused (row : WorkRow) (status : WorkStatus) (goalOutcome : Option GoalOutcome) :
    Bool :=
  status != .failed && status != .cancelled
    && (row.cancelRequestedAt.isSome
      || ((JsonObject.getString? row.meta_ "text").isSome && goalOutcome.isNone)
      || goalOutcome.any (fun outcome => outcome.requestVersion != (row.steerInputs.length : Int) + 1))

def settledRow (row : WorkRow) (status : WorkStatus) (goalOutcome : Option GoalOutcome)
    (error : Option String) : WorkRow :=
  { row with
    status := status
    error := error
    goalOutcome := goalOutcome.or row.goalOutcome
    leaseTokenHash := none
    leaseExpiresAt := none }

def settle (s : WorkStore) (proof : LeaseProof) (status : WorkStatus)
    (goalOutcome : Option GoalOutcome) (error : Option String) (now later : Int) :
    Bool × WorkStore :=
  match s.validLease proof now with
  | none => (false, s)
  | some row =>
      if settlementRefused row status goalOutcome then (false, s)
      else
        let settled := settledRow row status goalOutcome error
        let s := { s with rows := s.rows.set proof.id settled }
        let s := s.releaseSessionLease settled proof.fence
        (true, if status = .waiting then s else s.cancelChildren settled later)

def complete (s : WorkStore) (proof : LeaseProof) (completion : WorkCompletion)
    (now later : Int) : Except String Bool × WorkStore :=
  let status := workStatusOf completion
  if status = .waiting then (.error "waiting requires wait", s)
  else
    let (settled, s) := s.settle proof status completion.goalOutcome completion.error now later
    (.ok settled, s)

def wait (s : WorkStore) (proof : LeaseProof) (goalOutcome : WaitingOutcome)
    (now later : Int) : Bool × WorkStore :=
  s.settle proof .waiting (some goalOutcome.1) none now later

/-! ## Preemption and steering -/

def requestPreempt (s : WorkStore) (id : String) (now : Int) : Bool × WorkStore :=
  match s.rows.get? id with
  | none => (false, s)
  | some row =>
      if row.status ≠ .leased then (false, s)
      else (true, { s with rows := s.rows.set id { row with preemptRequestedAt := some now } })

/-- The row once a steering input was added. -/
def steeredRow (row : WorkRow) (input : SteerInput) : WorkRow :=
  { row with
    steerInputs := row.steerInputs ++ [input]
    status := if row.status = .waiting then .queued else row.status
    goalOutcome := none }

def addSteer (s : WorkStore) (id text randomUUID : String) (now later : Int) :
    Bool × WorkStore :=
  match s.rows.get? id with
  | none => (false, s)
  | some row =>
      if !row.status.isOpen || row.cancelRequestedAt.isSome then (false, s)
      else
        let steered := steeredRow row { id := randomUUID, text := text, createdAt := now }
        let s := { s with rows := s.rows.set id steered }
        (true, s.cancelChildren steered later)

end WorkStore

end LingxiOS
