-- SUMMARY: The run-event outbox and the lanes that deliver it.
import LingxiOS.Base.JsMap
import LingxiOS.Base.Program
import LingxiOS.Base.Sql
import LingxiOS.Base.Text
import Mathlib.Data.List.Sort

/-! # Outbox Lanes

`flushOutbox` over `agent_run_events`. A lane first fails the rows whose attempts ran
out, then claims one row after the other, hands each to `deliver` and acknowledges or
reschedules it under the token of its claim. Every statement is atomic, may fail
before or after it took effect, and runs at the clock of the database. -/

namespace LingxiOS

/-- The primary key of an event. -/
structure EventKey where
  runId : String
  seq : Nat
  deriving DecidableEq

/-- The columns of `agent_run_events` the lanes read and write. Events with a
    `delivery_work` are deliverable. -/
structure OutboxRow where
  deliveryWork : Option String
  failedAt : Option Int := none
  lastError : Option String := none
  deliveredAt : Option Int := none
  availableAt : Int
  claimToken : Option String := none
  attempts : Nat := 0
  deriving DecidableEq

/-- The limit of attempts, as `flushOutbox` checks it. -/
structure OutboxLimit where
  maxAttempts : Nat
  positive : 1 ≤ maxAttempts
  bounded : maxAttempts ≤ 30

namespace Outbox

abbrev Rows := JsMap EventKey OutboxRow

/-! ## Statements -/

/-- A row whose claim, or whose wait for the next attempt, ran out at the limit. -/
def whereExhausted (now : Int) (maxAttempts : Nat) (row : OutboxRow) : Sql.Truth :=
  Sql.and (Sql.isNull row.deliveredAt) <| Sql.and (Sql.isNull row.failedAt) <|
    Sql.and (Sql.compare (fun a b => decide (a ≤ b)) (some row.availableAt) (some now))
      (Sql.compare (fun a b => decide (b ≤ a)) (some row.attempts) (some maxAttempts))

/-- The statement every lane begins with. -/
def sweep (rows : Rows) (now : Int) (maxAttempts : Nat) : Rows :=
  rows.mapValues fun _ row =>
    if Sql.holds (whereExhausted now maxAttempts row) then
      { row with
        failedAt := some now
        claimToken := none
        lastError := row.lastError.or (some "delivery lease expired at the attempt limit") }
    else row

/-- An earlier deliverable event of the run that is not acknowledged. -/
def wherePrior (key : EventKey) (prior : EventKey × OutboxRow) : Sql.Truth :=
  Sql.and (Sql.eq (some prior.1.runId) (some key.runId)) <|
    Sql.and (Sql.compare (fun a b => decide (a < b)) (some prior.1.seq) (some key.seq)) <|
      Sql.and (Sql.isNotNull prior.2.deliveryWork) (Sql.isNull prior.2.deliveredAt)

def whereClaimable (rows : Rows) (now : Int) (maxAttempts : Nat) (key : EventKey)
    (row : OutboxRow) : Sql.Truth :=
  Sql.and (Sql.isNull row.deliveredAt) <| Sql.and (Sql.isNull row.failedAt) <|
    Sql.and (Sql.compare (fun a b => decide (a ≤ b)) (some row.availableAt) (some now)) <|
      Sql.and (Sql.compare (fun a b => decide (a < b)) (some row.attempts) (some maxAttempts)) <|
        Sql.and (Sql.isNotNull row.deliveryWork)
          (Sql.not (Sql.exists_ rows.entries (wherePrior key)))

/-- `ORDER BY available_at, run_id, seq`. -/
def before (a b : EventKey × OutboxRow) : Bool :=
  decide (a.2.availableAt < b.2.availableAt) || (a.2.availableAt == b.2.availableAt
    && (decide (a.1.runId < b.1.runId) || (a.1.runId == b.1.runId && decide (a.1.seq ≤ b.1.seq))))

/-- The candidate of a claim. Rows other statements hold are skipped. -/
def candidate (rows : Rows) (locked : List EventKey) (now : Int) (maxAttempts : Nat) :
    Option (EventKey × OutboxRow) :=
  ((rows.entries.filter fun entry => entry.1 ∉ locked
    ∧ Sql.holds (whereClaimable rows now maxAttempts entry.1 entry.2) = true).insertionSort
      (fun a b => before a b)).head?

/-- The row as a claim leaves and returns it. -/
def claimed (row : OutboxRow) (now : Int) (token : String) : OutboxRow :=
  { row with
    claimToken := some token
    availableAt := now + 60000
    attempts := min (row.attempts + 1) 30 }

def claim (rows : Rows) (locked : List EventKey) (now : Int) (maxAttempts : Nat) (token : String) :
    Option (EventKey × OutboxRow) × Rows :=
  match candidate rows locked now maxAttempts with
  | none => (none, rows)
  | some (key, row) =>
      (some (key, claimed row now token), rows.set key (claimed row now token))

/-- `UPDATE … WHERE run_id=$1 AND seq=$2 AND claim_token=$3`. -/
def underToken (rows : Rows) (key : EventKey) (token : String) (f : OutboxRow → OutboxRow) : Rows :=
  rows.modify key fun row => if row.claimToken = some token then f row else row

def acknowledge (rows : Rows) (key : EventKey) (token : String) (now : Int) : Rows :=
  underToken rows key token fun row =>
    { row with deliveredAt := some now, claimToken := none, lastError := none }

/-- `LEAST(300, 5*power(2, LEAST(attempts-1, 6)))` seconds. -/
def backoff : Nat → Int
  | 0 => 2500
  | n + 1 => min 300000 (5000 * 2 ^ min n 6)

def reschedule (rows : Rows) (key : EventKey) (token lastError : String) (maxAttempts : Nat)
    (now : Int) : Rows :=
  underToken rows key token fun row =>
    { row with
      claimToken := none
      lastError := some lastError
      failedAt := if maxAttempts ≤ row.attempts then some now else none
      availableAt := now + backoff row.attempts }

/-! ## Lanes -/

/-- What a lane awaits. `proceed` reads the budget and the signal of the loop. -/
inductive LaneOp where
  | proceed
  | sweep (maxAttempts : Nat)
  | randomUUID
  | claim (token : String) (maxAttempts : Nat)
  | throwIfAborted
  | deliver (key : EventKey) (row : OutboxRow)
  | acknowledge (key : EventKey) (token : String)
  | reschedule (key : EventKey) (token lastError : String) (maxAttempts : Nat)

@[reducible] def LaneOp.Value : LaneOp → Type
  | .proceed => Bool
  | .randomUUID => String
  | .claim _ _ => Option (EventKey × OutboxRow)
  | _ => Unit

abbrev Lane (α : Type) := Program LaneOp LaneOp.Value String α

abbrev LaneEvent := Program.Event LaneOp LaneOp.Value String

def await (op : LaneOp) : Lane op.Value := Program.perform op

/-- Hand the row over and settle it. An abort, a failed or late delivery and a failed
    acknowledgement all reschedule the row. -/
def settle (limit : OutboxLimit) (key : EventKey) (row : OutboxRow) (token : String) :
    Lane Unit :=
  Program.tryCatch
    (do
      await .throwIfAborted
      await (.deliver key row)
      await (.acknowledge key token))
    fun error =>
      Program.tryCatch
        (await (.reschedule key token (Text.slice 1000 error) limit.maxAttempts))
        fun _ => throw "outbox failure could not be persisted"

/-- Whether a row was claimed. -/
def deliverBatch (limit : OutboxLimit) : Lane Bool := do
  let token ← await .randomUUID
  match ← await (.claim token limit.maxAttempts) with
  | none => pure false
  | some (key, row) => do
      settle limit key row token
      pure true

/-- The loop of a lane, which admits at most `maxRows` rows. -/
def deliverRows (limit : OutboxLimit) : Nat → Lane Unit
  | 0 => pure ()
  | maxRows + 1 => do
      if ← await .proceed then
        if ← deliverBatch limit then deliverRows limit maxRows else pure ()
      else pure ()

/-- A lane. Its error is logged. -/
def lane (limit : OutboxLimit) (maxRows : Nat) : Lane Unit :=
  Program.tryCatch
    (do
      await (.sweep limit.maxAttempts)
      deliverRows limit maxRows)
    fun _ => pure ()

/-! ## Lanes side by side -/

/-- The rows, the clock of the database, and the tokens drawn so far. -/
structure State where
  rows : Rows
  now : Int
  tokens : List String

/-- A statement that computes a value and new rows: its failure may come before or
    after it took effect. -/
def Executes {α : Type} (s : State) (answer : Except String α) (value : α) (rows : Rows)
    (s' : State) : Prop :=
  match answer with
  | .ok a => a = value ∧ s' = { s with rows := rows }
  | .error _ => s' = s ∨ s' = { s with rows := rows }

/-- What an event of a lane does to the state. A drawn token is new. -/
def world (s : State) (event : LaneEvent) (s' : State) : Prop :=
  match event with
  | ⟨.sweep maxAttempts, answer⟩ => Executes s answer () (sweep s.rows s.now maxAttempts) s'
  | ⟨.randomUUID, answer⟩ => ∃ token, answer = .ok token ∧ token ∉ s.tokens
      ∧ s' = { s with tokens := token :: s.tokens }
  | ⟨.claim token maxAttempts, answer⟩ => ∃ locked,
      Executes s answer (claim s.rows locked s.now maxAttempts token).1
        (claim s.rows locked s.now maxAttempts token).2 s'
  | ⟨.acknowledge key token, answer⟩ =>
      Executes s answer () (acknowledge s.rows key token s.now) s'
  | ⟨.reschedule key token lastError maxAttempts, answer⟩ =>
      Executes s answer () (reschedule s.rows key token lastError maxAttempts s.now) s'
  | ⟨.proceed, _⟩ | ⟨.throwIfAborted, _⟩ | ⟨.deliver _ _, _⟩ => s' = s

/-- Time passes, or a new event is stored. -/
def env (s s' : State) : Prop :=
  (∃ now, s.now ≤ now ∧ s' = { s with now := now })
    ∨ ∃ key deliveryWork availableAt, s.rows.get? key = none
      ∧ s' = { s with rows := s.rows.set key ⟨deliveryWork, none, none, none, availableAt, none, 0⟩ }

/-- Any number of lanes under one limit. The outbox they start from is any outbox. -/
def lanes (limit : OutboxLimit) : PoolSpec State LaneOp LaneOp.Value String Unit where
  world := world
  env := env
  entry p := ∃ maxRows, p = lane limit maxRows
  start s := ∀ key row token, s.rows.get? key = some row → row.claimToken = some token →
    token ∈ s.tokens

end Outbox

end LingxiOS
