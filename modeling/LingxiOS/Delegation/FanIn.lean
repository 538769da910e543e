-- SUMMARY: Parents that wait for children, and how they are resumed.
import LingxiOS.Base.Transition
import LingxiOS.Delegation.Jobs

/-! # Fan-in

A parent hands a request over to children and waits under a task reference, one of them.
`waitForChildren` records which of them it waits for. Each SQL statement is one step; the
two queries that decide whether a wait is over are kept apart, as they are in the source. -/

namespace LingxiOS

namespace FanIn

open Jobs (JobRow StoredRunIdentity)

/-- The primary key of `agent_work_waits`. -/
structure WaitKey where
  parentWorkId : String
  requestVersion : Int
  taskRef : String
  deriving DecidableEq

/-- A row of `agent_results`, as a dependency reads it. -/
structure ResultRow where
  requestVersion : Int
  satisfied : Bool

structure FanInTables where
  works : JsMap String JobRow
  /-- The children of a recorded wait. -/
  waits : JsMap WaitKey (List String)
  /-- `work_id` and `dependency_id`. -/
  dependencies : List (String × String)
  results : JsMap String ResultRow
  /-- The waits `validateWait` has let pass: a parent, a reference and a version. -/
  validated : List WaitKey

/-! ## Children and waits -/

/-- A child of this parent, made for this version of its request. -/
def isChildOf (parent child : JobRow) (version : Int) : Bool :=
  child.tenantId = parent.tenantId ∧ child.principalId = parent.principalId
    ∧ Jsonb.getText child.meta_ "parentWorkId" = some parent.id
    ∧ Jsonb.get child.meta_ "parentRequestVersion" = some (.num version)

/-- The reference and the version a delegated outcome waits for. -/
def delegatedTo (outcome : Option GoalOutcome) : Option (String × Int) :=
  outcome.bind fun outcome => match outcome.status with
    | .delegated taskRef => some (taskRef, outcome.requestVersion)
    | _ => none

def awaits (work : JobRow) : Option (String × Int) := delegatedTo work.goalOutcome

/-- `wait.children IS NULL OR wait.children ? sibling.id`. -/
def inWait (wait : Option (List String)) (id : String) : Bool :=
  match wait with
  | none => true
  | some children => children.contains id

/-- The children a parent waits for: those that were recorded, or all of the version. -/
def awaited (tables : FanInTables) (parent : JobRow) (taskRef : String) (version : Int) :
    List JobRow :=
  tables.works.values.filter fun child =>
    isChildOf parent child version && inWait (tables.waits.get? ⟨parent.id, version, taskRef⟩) child.id

/-! ## Parking -/

/-- `hasChild`. -/
def hasChild (tables : FanInTables) (parent : JobRow) (childId : String) (version : Int) : Bool :=
  (tables.works.get? childId).any fun child => isChildOf parent child version

/-- `waitForChildren`, after the request and the conversation were checked. -/
def waitForChildren (admitted : Except String Unit) (tables : FanInTables) (parent : JobRow)
    (version : Nat) (children : List String) : Except String FanInTables := do
  if children.isEmpty || 64 < children.length || !decide children.Nodup then
    throw "wait requires 1-64 distinct children"
  if children.any fun id => Text.isBlank id || 1000 < Text.length id then
    throw "invalid collaboration identifier"
  admitted
  let ids := children.insertionSort (· ≤ ·)
  let key : WaitKey := ⟨parent.id, version, ids.headD ""⟩
  if (tables.works.values.filter fun child =>
      child.id ∈ ids ∧ isChildOf parent child version).length ≠ ids.length then
    throw "wait children are outside the parent request"
  match tables.waits.get? key with
  | none => return { tables with waits := tables.waits.set key ids }
  | some prior =>
      if prior = ids then return tables
      else throw "wait anchor reused with a different dependency set"

/-- The conditions of the update in `settle`. -/
def maySettle (now : Int) (fence : Nat) (leaseTokenHash : String) (status : WorkStatus)
    (outcome : Option GoalOutcome) (work : JobRow) : Bool :=
  let ends := status = .failed ∨ status = .cancelled
  work.fence = fence ∧ work.leaseTokenHash = some leaseTokenHash ∧ work.status = .leased
    ∧ work.leaseExpiresAt.any (now < ·)
    ∧ (ends ∨ work.cancelRequestedAt = none)
    ∧ (ends ∨ (Jsonb.get work.meta_ "text").all (!·.isString) ∨ outcome.isSome)
    ∧ (ends ∨ outcome.all fun outcome => outcome.requestVersion = (work.steerInputs.length + 1 : Int))

/-- A work that leaves its lease with a status. -/
def settled (now : Int) (status : WorkStatus) (error : Option String)
    (outcome : Option GoalOutcome) (work : JobRow) : JobRow :=
  { work with
    status := status
    error := error
    goalOutcome := outcome
    leaseTokenHash := none
    leaseExpiresAt := none
    finishedAt := if status = .waiting then none else some now }

/-- The transaction of `settle`: a work that ends takes its descendants with it. -/
def settle (now : Int) (tables : FanInTables) (id : String) (fence : Nat)
    (leaseTokenHash : String) (status : WorkStatus) (error : Option String)
    (outcome : Option GoalOutcome) : FanInTables :=
  match tables.works.get? id with
  | some work =>
      if maySettle now fence leaseTokenHash status outcome work then
        let works := tables.works.set id (settled now status error outcome work)
        { tables with
          works := if status = .waiting then works else Jobs.cancelDescendants now works id }
      else tables
  | none => tables

/-- The update that commits a result: the row's own fence and lease are checked before it. -/
def deliver (now : Int) (tables : FanInTables) (id : String) (fence : Nat) (resultId : String)
    (outcome : GoalOutcome) : FanInTables :=
  match tables.works.get? id with
  | some work =>
      let status := workStatusOf ⟨.completed, some outcome, none⟩
      if work.fence = fence ∧ work.status = .leased ∧ work.leaseExpiresAt.any (now < ·)
          ∧ work.cancelRequestedAt = none
          ∧ outcome.requestVersion = (work.steerInputs.length + 1 : Int) then
        let works := tables.works.set id
          { settled now status work.error (some outcome) work with resultId := some resultId }
        { tables with
          works := if status = .waiting then works else Jobs.cancelDescendants now works id }
      else tables
  | none => tables

/-! ## Resuming -/

/-- A prerequisite whose dependents cannot run. -/
def unsatisfied (tables : FanInTables) (work : JobRow) : Bool :=
  work.status ∈ [.partial_, .blocked, .failed, .cancelled] ∨ work.cancelRequestedAt.isSome
    ∨ work.status = .succeeded ∧ ((work.resultId.bind tables.results.get?).all fun result =>
      result.requestVersion ≠ (work.steerInputs.length + 1 : Int) ∨ !result.satisfied)

/-- The works that depend on one of these. -/
def dependents (tables : FanInTables) (ids : List String) : List String :=
  (tables.dependencies.filter fun dependency => dependency.2 ∈ ids).map Prod.fst

/-- `WITH RECURSIVE blocked`: a chain of dependencies has no more links than there are rows. -/
def blocked (tables : FanInTables) (workId : Option String) : List String :=
  let first := dependents tables ((tables.works.values.filter fun work =>
    workId.all (· = work.id) ∧ unsatisfied tables work).map (·.id))
  (fun ids => ids ++ dependents tables ids)^[tables.dependencies.length] first

/-- The first statement: dependents of a failed prerequisite do not run. -/
def blockDependents (now : Int) (tables : FanInTables) (workId : Option String) : FanInTables :=
  let ids := blocked tables workId
  let gap := "A required dependency did not produce a current satisfied result"
  { tables with
    works := tables.works.mapValues fun id work =>
      if work.status = .queued ∧ id ∈ ids then
        { work with
          status := .blocked
          finishedAt := some now
          error := some gap
          goalOutcome := some ⟨.blocked, .notRun, work.steerInputs.length + 1, some [gap], none⟩ }
      else work }

/-- Whether the call is about this parent. -/
def concerns (tables : FanInTables) (workId : Option String) (parent : JobRow) : Bool :=
  match workId with
  | none => true
  | some id => parent.id = id
      ∨ (tables.works.get? id).bind (fun work => Jsonb.getText work.meta_ "parentWorkId") = some parent.id

/-- A row of `ready`: a parked parent whose reference has ended, and with it every sibling
    it waits for. -/
def ready (tables : FanInTables) (workId : Option String) (parent : JobRow) : Bool :=
  match awaits parent with
  | none => false
  | some (taskRef, version) =>
      concerns tables workId parent && parent.status == .waiting && parent.cancelRequestedAt.isNone
        && (tables.works.get? taskRef).any (fun child =>
          isChildOf parent child version && !child.status.isOpen)
        && !(tables.works.values.any fun sibling =>
          isChildOf parent sibling version
            && inWait (tables.waits.get? ⟨parent.id, version, taskRef⟩) sibling.id
            && sibling.status.isOpen)

/-- The ready parents no other transaction has locked, the oldest 128. -/
def resumable (tables : FanInTables) (workId : Option String) (locked : List String) :
    List String :=
  ((((tables.works.values.filter (ready tables workId)).insertionSort
    fun a b => a.createdAt ≤ b.createdAt).filter fun parent => parent.id ∉ locked).take 128).map (·.id)

/-- The second statement. -/
def resumeReady (now : Int) (tables : FanInTables) (workId : Option String)
    (locked : List String) : FanInTables :=
  let ids := resumable tables workId locked
  { tables with
    works := tables.works.mapValues fun id work =>
      if id ∈ ids then
        { work with status := .queued, availableAt := now, finishedAt := none, goalOutcome := none }
      else work }

/-! ## The queries of `recoverWait` -/

/-- The column `status`. -/
def statusText : WorkStatus → String
  | .queued => "queued"
  | .leased => "leased"
  | .waiting => "waiting"
  | .succeeded => "succeeded"
  | .partial_ => "partial"
  | .blocked => "blocked"
  | .failed => "failed"
  | .cancelled => "cancelled"

/-- The status of the child a wait refers to. -/
def childStatus (tables : FanInTables) (parent : JobRow) (taskRef : String) (version : Int) :
    Option String :=
  ((tables.works.get? taskRef).filter fun child => isChildOf parent child version).map fun child =>
    statusText child.status

/-- A child that is waited for and has not ended. -/
def activeChild (tables : FanInTables) (parent : JobRow) (taskRef : String) (version : Int) : Bool :=
  let key : WaitKey := ⟨parent.id, version, taskRef⟩
  tables.works.values.any fun child =>
    isChildOf parent child version
      && (!tables.waits.has key || ((tables.waits.get? key).getD []).contains child.id)
      && child.status.isOpen

/-! ## Interleavings -/

/-- What a child is recognised by. -/
structure SameLineage (work work' : JobRow) : Prop where
  id : work'.id = work.id
  tenantId : work'.tenantId = work.tenantId
  principalId : work'.principalId = work.principalId
  parentWorkId : Jsonb.getText work'.meta_ "parentWorkId" = Jsonb.getText work.meta_ "parentWorkId"
  version : Jsonb.get work'.meta_ "parentRequestVersion" = Jsonb.get work.meta_ "parentRequestVersion"

/-- A change that neither parks a work nor resumes a parked one. -/
structure Unparked (work work' : JobRow) : Prop where
  lineage : SameLineage work work'
  parks : work'.status = .waiting → work' = work
  resumes : work.status = .waiting → work'.status ≠ .queued

/-- Such changes of the stored works, and insertions of works that are not parked. -/
structure Quiet (works works' : JsMap String JobRow) : Prop where
  rows : ∀ {id work}, works.get? id = some work →
    ∃ work', works'.get? id = some work' ∧ Unparked work work'
  inserted : ∀ {id work'}, works'.get? id = some work' → (works.get? id).isSome = true
    ∨ work'.id = id ∧ work'.status ≠ .waiting

/-- The statements that park, complete, cancel and resume, and the steps of other code, such
    as claims and insertions. A revised request or a decided approval resumes a parked work by
    itself: these are no steps here. -/
inductive Event where
  | settle (now : Int) (id : String) (fence : Nat) (leaseTokenHash : String) (status : WorkStatus)
      (error : Option String) (outcome : Option GoalOutcome)
  | deliver (now : Int) (id : String) (fence : Nat) (resultId : String) (outcome : GoalOutcome)
  | cancel (now : Int) (identity : StoredRunIdentity)
  | validate (parentId taskRef : String) (version : Int)
  | wait (admitted : Except String Unit) (parentId : String) (version : Nat) (children : List String)
  | block (now : Int) (workId : Option String)
  | resume (now : Int) (workId : Option String) (locked : List String)
  | others

/-- A work is parked only on a reference that was validated before. -/
def Validated (tables : FanInTables) (id : String) (status : WorkStatus)
    (outcome : Option GoalOutcome) : Prop :=
  status = .waiting → ∀ {taskRef version}, delegatedTo outcome = some (taskRef, version) →
    ⟨id, version, taskRef⟩ ∈ tables.validated

def system : TransitionSystem FanInTables Event where
  start tables := tables.waits = JsMap.empty ∧ tables.validated = []
    ∧ ∀ id work, tables.works.get? id = some work → work.id = id ∧ work.status ≠ .waiting
  step tables event tables' := match event with
    | .settle now id fence leaseTokenHash status error outcome =>
        Validated tables id status outcome
          ∧ tables' = settle now tables id fence leaseTokenHash status error outcome
    | .deliver now id fence resultId outcome =>
        Validated tables id (workStatusOf ⟨.completed, some outcome, none⟩) (some outcome)
          ∧ tables' = deliver now tables id fence resultId outcome
    | .cancel now identity =>
        tables' = { tables with works := (Jobs.cancelRun now tables.works identity).1 }
    | .validate parentId taskRef version => ∃ parent, tables.works.get? parentId = some parent
        ∧ hasChild tables parent taskRef version = true
        ∧ tables' = { tables with validated := ⟨parentId, version, taskRef⟩ :: tables.validated }
    | .wait admitted parentId version children => ∃ parent,
        tables.works.get? parentId = some parent
          ∧ waitForChildren admitted tables parent version children = .ok tables'
    | .block now workId => tables' = blockDependents now tables workId
    | .resume now workId locked => tables' = resumeReady now tables workId locked
    | .others => Quiet tables.works tables'.works ∧ tables'.waits = tables.waits
        ∧ tables'.validated = tables.validated

end FanIn

end LingxiOS
