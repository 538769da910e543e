-- SUMMARY: The database under concurrent native calls.
import LingxiOS.ControlPlane.Admission
import LingxiOS.Tools.Executor

/-! # Native Calls Over One Database

Any number of calls of `executeAction` for one action, interleaved at every
statement over one database. A statement may fail with or without having been
executed, a connection may be lost at any time, and a `COMMIT` whose answer was
lost may still take effect. Of the database, serializable transactions, row locks
and conflicts on unique keys are assumed. -/

namespace LingxiOS

open Program

/-! ## The database -/

/-- The receipt waits for no approval: it is never replaced. -/
def HostActionResult.isFinal (result : HostActionResult) : Bool := result.approval.isNone

/-- The final receipt of an execution that succeeded. -/
def HostActionResult.isSuccess (result : HostActionResult) : Bool := result.ok && result.isFinal

/-- An open transaction: the receipt of the action it sees and the one it writes, how
    the executions of the tool in it ended, and whether a statement of it failed. -/
structure Transaction where
  snapshot : Option (Option HostActionResult) := none
  receipt : Option HostActionResult := none
  effects : List (Except Failure HostActionResult) := []
  aborted : Bool := false
  /-- `COMMIT` was sent, and its answer was lost. -/
  committing : Bool := false

/-- The database as far as one action is concerned: its committed receipt, the
    executions of its tool whose effects are committed, and the open transactions. -/
structure NativeDb where
  receipt : Option HostActionResult
  effects : List (Except Failure HostActionResult)
  transactions : Nat → Option Transaction
  /-- The connections below this one were given out. -/
  next : Nat

namespace NativeDb

def init : NativeDb := ⟨none, [], fun _ => none, 0⟩

/-- A final receipt is stored. -/
def settled (db : NativeDb) : Bool := db.receipt.any HostActionResult.isFinal

def put (db : NativeDb) (conn : Nat) (t : Transaction) : NativeDb :=
  { db with transactions := Function.update db.transactions conn (some t) }

/-- The transaction of a connection is rolled back. -/
def close (db : NativeDb) (conn : Nat) : NativeDb :=
  { db with transactions := Function.update db.transactions conn none }

/-- The transaction takes effect. -/
def committed (db : NativeDb) (conn : Nat) (t : Transaction) : NativeDb :=
  { db.close conn with receipt := t.receipt.or db.receipt, effects := db.effects ++ t.effects }

/-- No transaction holds the row of the receipt, other than that of one connection. -/
def Unlocked (db : NativeDb) (except : Option Nat) : Prop :=
  ∀ conn t, db.transactions conn = some t → t.receipt.isSome → some conn = except

/-- `INSERT ... ON CONFLICT DO UPDATE ... WHERE status = 'PENDING'` on its own. -/
def recorded (db : NativeDb) (result : HostActionResult) : NativeDb :=
  if db.settled then db else { db with receipt := some result }

/-- What a statement that is executed does to its transaction. A write to the row
    of the receipt waits for other writers, and fails where the row has changed
    since the snapshot. -/
def Executed (db : NativeDb) (conn : Nat) (t : Transaction) (event : NativeEvent)
    (t' : Transaction) : Prop :=
  match event with
  | ⟨.setTimeouts _, _⟩ => t' = { t with snapshot := some (t.snapshot.getD db.receipt) }
  | ⟨.selectReceipt _ _, .ok prior⟩ => t.snapshot = some prior ∧ t' = t
  | ⟨.insertReceipt _ _ result, _⟩ =>
      db.Unlocked (some conn) ∧ t.snapshot = some db.receipt
        ∧ t' = { t with receipt := if db.settled then t.receipt else some result }
  | ⟨.toolExecute _ _ _, answer⟩ =>
      ∃ aborted, t' = { t with effects := t.effects ++ [answer], aborted := aborted }
  | _ => t' = t

/-- A statement of a transaction. Without its transaction only the product's own
    functions may still answer; one that fails may have been executed, and may
    leave its transaction aborted. -/
def Statement (db : NativeDb) (conn : Nat) (event : NativeEvent) (db' : NativeDb) : Prop :=
  match db.transactions conn with
  | none => db' = db ∧ match event with
      | ⟨.selectReceipt _ _, .ok _⟩ | ⟨.insertReceipt _ _ _, .ok _⟩ => False
      | _ => True
  | some t => ∃ t', db' = db.put conn t' ∧
      (t.aborted = false ∧ db.Executed conn t event t'
        ∨ (∃ failure, event.answer = .error failure) ∧ (t' = t ∨ t' = { t with aborted := true }))

/-- `COMMIT`. An aborted transaction is rolled back by it, and nobody is told. -/
def Commit (db : NativeDb) (conn : Nat) (answer : Except Failure Unit) (db' : NativeDb) : Prop :=
  match db.transactions conn with
  | none => (∃ failure, answer = .error failure) ∧ db' = db
  | some t =>
      (db' = if t.aborted then db.close conn else db.committed conn t)
        ∨ (∃ failure, answer = .error failure)
          ∧ (db' = db.close conn ∨ db' = db.put conn { t with committing := true })

/-- The connection a statement runs on. -/
def connection : NativeOp → Option Nat
  | .setTimeouts conn | .lockAction conn _ _ | .selectReceipt conn _ | .insertReceipt conn _ _
  | .insertApproval conn _ _ _ _ | .selectApproval conn _ | .preview conn _ _ => some conn
  | .selectIntent conn _ | .authorizeConversation conn _ | .assertObservation conn _ _
  | .authorize conn _ _ | .toolExecute conn _ _ => conn
  | _ => none

/-- What the operations of a call do to the database. Calls of tools that have no
    transaction are not among these: whatever they did could happen. -/
def world (db : NativeDb) (event : NativeEvent) (db' : NativeDb) : Prop :=
  match event with
  | ⟨.connect, .ok conn⟩ => conn = db.next ∧ db' = { db with next := db.next + 1 }
  | ⟨.begin_ conn _, answer⟩ =>
      db.transactions conn = none ∧ db' = db.put conn {}
        ∨ (∃ failure, answer = .error failure) ∧ db' = db
  | ⟨.commit conn, answer⟩ => db.Commit conn answer db'
  | ⟨.rollback conn, answer⟩ => db' = db.close conn ∨ (∃ failure, answer = .error failure) ∧ db' = db
  | ⟨.service (.record _ result), answer⟩ =>
      db.Unlocked none ∧ db' = db.recorded result ∨ (∃ failure, answer = .error failure) ∧ db' = db
  | ⟨.markInFlight _ _ _, _⟩ | ⟨.settleInFlight _ _, _⟩ => True
  | ⟨op, answer⟩ =>
      match connection op with
      | none => db' = db
      | some conn => db.Statement conn ⟨op, answer⟩ db'

/-- What happens beside the calls: a transaction is lost, a late `COMMIT` takes effect,
    an unsuccessful receipt is stored, or connections are given out to others. -/
inductive Beside (db : NativeDb) : NativeDb → Prop
  | lost (conn : Nat) : Beside db (db.close conn)
  | late {conn : Nat} {t : Transaction} (hopen : db.transactions conn = some t)
      (hcommitting : t.committing = true) (hsound : t.aborted = false) :
      Beside db (db.committed conn t)
  | receipt {result : HostActionResult} (hunlocked : db.Unlocked none)
      (hfailed : result.isSuccess = false) : Beside db (db.recorded result)
  | others {next : Nat} (hle : db.next ≤ next) : Beside db { db with next := next }

end NativeDb

/-! ## The calls -/

/-- The action is one of a transactional tool of the executor, and no task action. -/
def ExecutorConfig.Transactional (cfg : ExecutorConfig) (action : HostAction) : Prop :=
  (∀ method, splitAction action.action ≠ some ("task", method))
    ∧ ∃ tool, cfg.tools.find? (fun tool => tool.definition.action == action.action) = some tool
      ∧ tool.definition.effect = .transaction

/-- Calls of `executeAction` for one transactional action, under any lease. -/
def nativeCalls (action : HostAction) :
    PoolSpec NativeDb NativeOp NativeOp.Value Failure ActionAnswer where
  world := NativeDb.world
  env := NativeDb.Beside
  entry p := ∃ service cfg proof, cfg.Transactional action
    ∧ p = Native.executeAction service cfg proof action
  start db := db = .init

abbrev NativePool := Pool NativeDb NativeOp NativeOp.Value Failure ActionAnswer

abbrev NativePoolStep := PoolStep NativeOp NativeOp.Value Failure ActionAnswer

end LingxiOS
