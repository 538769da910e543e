-- SUMMARY: The workspace store, one operation a step.
import LingxiOS.Base.JsMap
import LingxiOS.Base.Transition

/-! # Workspace Objects

Files of a workspace are objects that an attempt uploads under its own fence. A checkpoint
names some of them; the collector removes old ones that no checkpoint names and no attempt
may still commit. Every database and store operation is a step of its own. -/

namespace LingxiOS.WorkspaceStore

/-! ## Data -/

/-- `workspaces/<session>/<work>-<fence>/<upload>/<sha256>`, with the ids in place of their
    hashes. -/
structure ObjectKey where
  session : String
  workId : String
  fence : Nat
  upload : Nat
  sha256 : String
  deriving DecidableEq

inductive Entry where
  | directory (path : String)
  | file (path : String) (size : Nat) (sha256 : String) (objectKey : ObjectKey)
  deriving DecidableEq

def Entry.objectKey? : Entry → Option ObjectKey
  | directory _ => none
  | file _ _ _ objectKey => some objectKey

def objectKeys (entries : List Entry) : List ObjectKey := entries.filterMap Entry.objectKey?

/-- An object of the store: what its bytes hash to, and when they were written. -/
structure StoredObject where
  size : Nat
  sha256 : String
  updatedAt : Nat

inductive WorkStatus where
  | queued | leased | waiting | ended
  deriving DecidableEq

structure WorkRow where
  session : String
  status : WorkStatus
  fence : Nat
  leaseTokenHash : String
  leaseExpiresAt : Nat
  cancelRequested : Bool

structure LeaseProof where
  workId : String
  fence : Nat
  leaseTokenHash : String

/-- A row of `agent_workspace_checkpoints`, without its key. -/
structure CheckpointRow where
  generation : Nat
  entries : List Entry
  workId : String
  requestVersion : Nat
  stepId : String
  deriving DecidableEq

structure WorkspaceSnapshot where
  generation : Nat
  entries : List Entry

/-- How far a save has come: `validate` with the entries it has not looked at, then the
    transaction, which locks the work row and afterwards the checkpoint row. -/
inductive Phase where
  | validating (left : List Entry)
  | opened (startedAt : Nat)
  | locked
  | compared (found : Option CheckpointRow)
  deriving DecidableEq

/-- A call that saves a step with a workspace, and the snapshot its validation loaded. -/
structure SaveCall where
  proof : LeaseProof
  session : String
  stepId : String
  requestVersion : Nat
  baseGeneration : Nat
  entries : List Entry
  previous : WorkspaceSnapshot
  phase : Phase

/-- A pass of `maintenance`: the objects it has yet to look at, and the one it is about to delete. -/
structure Pass where
  page : List (ObjectKey × Nat)
  condemned : Option ObjectKey

structure State where
  now : Nat
  works : JsMap String WorkRow
  checkpoints : JsMap String CheckpointRow
  objects : JsMap ObjectKey StoredObject
  /-- The objects deleted so far. -/
  removed : List ObjectKey
  calls : JsMap Nat SaveCall
  passes : JsMap Nat Pass

namespace State

/-- `load`, of the session of a work. -/
def load (s : State) (session : String) : WorkspaceSnapshot :=
  match s.checkpoints.get? session with
  | some row => ⟨row.generation, row.entries⟩
  | none => ⟨0, []⟩

end State

/-- Whether a save holds the row of a work. -/
def SaveCall.locksWork (call : SaveCall) (workId : String) : Bool :=
  match call.phase with
  | .locked | .compared _ => call.proof.workId == workId
  | _ => false

/-- Whether a save holds the checkpoint row of a session. -/
def SaveCall.locksCheckpoint (call : SaveCall) (session : String) : Bool :=
  match call.phase with
  | .compared (some _) => call.session == session
  | _ => false

def State.workLocked (s : State) (workId : String) : Bool :=
  s.calls.values.any fun call => call.locksWork workId

def State.checkpointLocked (s : State) (session : String) : Bool :=
  s.calls.values.any fun call => call.locksCheckpoint session

/-! ## Steps -/

inductive Action where
  | tick (later : Nat)
  /-- A work enters the queue. -/
  | enqueue (workId session : String)
  | claim (workId token : String) (ttl : Nat)
  | heartbeat (workId : String) (ttl : Nat)
  /-- A work is yielded, waits, ends or is taken up again. -/
  | move (workId : String) (status : WorkStatus) (bump : Bool)
  | cancel (workId : String)
  /-- The bytes of `stage` arrive in the store. -/
  | put (key : ObjectKey) (size : Nat)
  /-- `validate` loads the last checkpoint. -/
  | validate (call : Nat) (proof : LeaseProof) (stepId : String) (requestVersion baseGeneration : Nat)
      (entries : List Entry)
  | read (call : Nat)
  | begin (call : Nat)
  | lock (call : Nat)
  | compare (call : Nat)
  /-- The record and the checkpoint are written and the transaction ends. -/
  | commit (call : Nat)
  | fail (call : Nat)
  | list (pass : Nat) (keys : List ObjectKey)
  | inspect (pass : Nat)
  | delete (pass : Nat)
  | quit (pass : Nat)

namespace State

def setWork (s : State) (workId : String) (row : WorkRow) : State :=
  { s with works := s.works.set workId row }

def enqueue (s : State) (workId session : String) : Option State :=
  if (s.works.get? workId).isSome then none
  else some (s.setWork workId ⟨session, .queued, 0, "", 0, false⟩)

/-- No other work of the session has a lease. -/
def sessionFree (s : State) (session : String) : Bool :=
  s.works.values.all fun row =>
    row.session != session || row.status != .leased || decide (row.leaseExpiresAt ≤ s.now)

def claim (s : State) (workId token : String) (ttl : Nat) : Option State := do
  let row ← s.works.get? workId
  if (row.status = .queued ∨ row.status = .leased ∧ row.leaseExpiresAt ≤ s.now) ∧ row.cancelRequested = false
      ∧ s.sessionFree row.session = true ∧ s.workLocked workId = false then
    some (s.setWork workId { row with
      status := .leased, fence := row.fence + 1, leaseTokenHash := token, leaseExpiresAt := s.now + ttl })
  else none

def heartbeat (s : State) (workId : String) (ttl : Nat) : Option State := do
  let row ← s.works.get? workId
  if row.status = .leased ∧ s.now < row.leaseExpiresAt ∧ s.workLocked workId = false then
    some (s.setWork workId { row with leaseExpiresAt := s.now + ttl })
  else none

def move (s : State) (workId : String) (status : WorkStatus) (bump : Bool) : Option State := do
  let row ← s.works.get? workId
  if status ≠ .leased ∧ s.workLocked workId = false then
    some (s.setWork workId { row with status := status, fence := row.fence + bump.toNat })
  else none

def cancel (s : State) (workId : String) : Option State := do
  let row ← s.works.get? workId
  if s.workLocked workId = false then some (s.setWork workId { row with cancelRequested := true })
  else none

/-- The key has a new `randomUUID()`, and its attempt has been claimed. -/
def put (s : State) (key : ObjectKey) (size : Nat) : Option State := do
  let row ← s.works.get? key.workId
  if row.session = key.session ∧ key.fence ≤ row.fence ∧ s.objects.has key = false
      ∧ s.removed.contains key = false then
    some { s with objects := s.objects.set key ⟨size, key.sha256, s.now⟩ }
  else none

def setCall (s : State) (id : Nat) (call : SaveCall) : State := { s with calls := s.calls.set id call }

def dropCall (s : State) (id : Nat) : State := { s with calls := s.calls.delete id }

def validate (s : State) (id : Nat) (proof : LeaseProof) (stepId : String)
    (requestVersion baseGeneration : Nat) (entries : List Entry) : Option State := do
  let row ← s.works.get? proof.workId
  let previous := s.load row.session
  if (s.calls.get? id).isNone ∧ (previous.generation = baseGeneration ∨ previous.generation = baseGeneration + 1) then
    some (s.setCall id ⟨proof, row.session, stepId, requestVersion, baseGeneration, entries, previous,
      .validating entries⟩)
  else none

/-- The file of the last checkpoint with a key. -/
def known (previous : WorkspaceSnapshot) (key : ObjectKey) : Option Entry :=
  previous.entries.reverse.find? fun entry => entry.objectKey? == some key

/-- Whether the last checkpoint has the object with this content. -/
def reused (previous : WorkspaceSnapshot) (size : Nat) (sha256 : String) (key : ObjectKey) : Bool :=
  match known previous key with
  | some (.file _ priorSize priorSha256 _) => priorSize == size && priorSha256 == sha256
  | _ => false

/-- `key.startsWith(workspaceUploadPrefix(work))`. -/
def uploadedBy (call : SaveCall) (key : ObjectKey) : Bool :=
  key.session == call.session && key.workId == call.proof.workId && key.fence == call.proof.fence

/-- `readCheckedObject`. -/
def readable (s : State) (size : Nat) (sha256 : String) (key : ObjectKey) : Bool :=
  (s.objects.get? key).any fun object => object.size == size && object.sha256 == sha256

/-- `validate` looks at its next entry. -/
def read (s : State) (id : Nat) : Option State := do
  let call ← s.calls.get? id
  match call.phase with
  | .validating (.directory _ :: left) => some (s.setCall id { call with phase := .validating left })
  | .validating (.file _ size sha256 key :: left) =>
      if reused call.previous size sha256 key || uploadedBy call key && s.readable size sha256 key then
        some (s.setCall id { call with phase := .validating left })
      else some (s.dropCall id)
  | _ => none

def begin (s : State) (id : Nat) : Option State := do
  let call ← s.calls.get? id
  if call.phase = .validating [] then some (s.setCall id { call with phase := .opened s.now }) else none

/-- The work row is locked if the attempt owned it when the transaction began. -/
def lock (s : State) (id : Nat) : Option State := do
  let call ← s.calls.get? id
  let row ← s.works.get? call.proof.workId
  match call.phase with
  | .opened startedAt =>
      if s.workLocked call.proof.workId then none
      else if row.fence = call.proof.fence ∧ row.leaseTokenHash = call.proof.leaseTokenHash
          ∧ row.status = .leased ∧ startedAt < row.leaseExpiresAt ∧ row.cancelRequested = false then
        some (s.setCall id { call with phase := .locked })
      else some (s.dropCall id)
  | _ => none

/-- The checkpoint was written by the same step before. -/
def repeated (call : SaveCall) : Option CheckpointRow → Bool
  | none => false
  | some row => row.generation == call.baseGeneration + 1 && row.workId == call.proof.workId
      && row.stepId == call.stepId && row.requestVersion == call.requestVersion && row.entries == call.entries

def generationOf (found : Option CheckpointRow) : Nat := (found.map CheckpointRow.generation).getD 0

/-- The checkpoint row is locked, if there is one, and its generation compared. -/
def compare (s : State) (id : Nat) : Option State := do
  let call ← s.calls.get? id
  if call.phase ≠ .locked ∨ s.checkpointLocked call.session = true then none
  else
    let found := s.checkpoints.get? call.session
    if generationOf found = call.baseGeneration ∨ repeated call found = true then
      some (s.setCall id { call with phase := .compared found })
    else some (s.dropCall id)

/-- Another save holds the checkpoint row. -/
def contested (s : State) (id : Nat) (session : String) : Bool :=
  s.calls.entries.any fun entry => entry.1 != id && entry.2.locksCheckpoint session

def setCheckpoint (s : State) (session : String) (row : CheckpointRow) : State :=
  { s with checkpoints := s.checkpoints.set session row }

/-- A row that another transaction has inserted in the meantime is overwritten. -/
def commit (s : State) (id : Nat) : Option State := do
  let call ← s.calls.get? id
  match call.phase with
  | .compared found =>
      if s.contested id call.session then none
      else if repeated call found then some (s.dropCall id)
      else some ((s.dropCall id).setCheckpoint call.session
        ⟨generationOf found + 1, call.entries, call.proof.workId, call.requestVersion, call.stepId⟩)
  | _ => none

/-! ## The collector -/

def dayMs : Nat := 86400000

def setPass (s : State) (id : Nat) (pass : Pass) : State := { s with passes := s.passes.set id pass }

/-- A page of the objects that are in the store. -/
def list (s : State) (id : Nat) (keys : List ObjectKey) : Option State :=
  if (s.passes.get? id).isSome then none
  else
    let objects := s.objects.entries.filter fun entry => keys.contains entry.1
    some (s.setPass id ⟨objects.map fun entry => (entry.1, entry.2.updatedAt), none⟩)

/-- A checkpoint names the object, or the attempt that uploaded it has not ended. -/
def retained (s : State) (key : ObjectKey) : Bool :=
  s.checkpoints.values.any (fun row => (objectKeys row.entries).contains key)
    || (s.works.get? key.workId).any fun row => row.fence == key.fence && row.status != .ended

def inspect (s : State) (id : Nat) : Option State := do
  let pass ← s.passes.get? id
  match pass.condemned, pass.page with
  | none, (key, updatedAt) :: page =>
      if s.now < updatedAt + dayMs || s.retained key then some (s.setPass id ⟨page, none⟩)
      else some (s.setPass id ⟨page, some key⟩)
  | _, _ => none

def delete (s : State) (id : Nat) : Option State := do
  let pass ← s.passes.get? id
  let key ← pass.condemned
  some { s.setPass id ⟨pass.page, none⟩ with objects := s.objects.delete key, removed := key :: s.removed }

def quit (s : State) (id : Nat) : Option State := some { s with passes := s.passes.delete id }

def step (s : State) : Action → Option State
  | .tick later => some { s with now := s.now + later }
  | .enqueue workId session => s.enqueue workId session
  | .claim workId token ttl => s.claim workId token ttl
  | .heartbeat workId ttl => s.heartbeat workId ttl
  | .move workId status bump => s.move workId status bump
  | .cancel workId => s.cancel workId
  | .put key size => s.put key size
  | .validate call proof stepId requestVersion baseGeneration entries =>
      s.validate call proof stepId requestVersion baseGeneration entries
  | .read call => s.read call
  | .begin call => s.begin call
  | .lock call => s.lock call
  | .compare call => s.compare call
  | .commit call => s.commit call
  | .fail call => some (s.dropCall call)
  | .list pass keys => s.list pass keys
  | .inspect pass => s.inspect pass
  | .delete pass => s.delete pass
  | .quit pass => s.quit pass

def initial : State := ⟨0, .empty, .empty, .empty, [], .empty, .empty⟩

end State

def system : TransitionSystem State Action where
  start s := s = .initial
  step s action s' := s.step action = some s'

end LingxiOS.WorkspaceStore
