-- SUMMARY: Core protocol types: work items, lanes, outcomes, completions and session keys.
import LingxiOS.Protocol.Json

/-! # Protocol Types

The records shared by the stores, the control plane and the runtime. Instants
are milliseconds since the epoch; an ISO instant that `Date.parse` cannot read
is `none`. -/

namespace LingxiOS

/-! ## Work -/

/-- Scheduling lane. Higher lanes are claimed before lower ones. -/
inductive WorkLane where
  | interactive | approval | collaboration | background
  deriving DecidableEq, Inhabited

/-- `WORK_LANE_PRIORITY`. -/
def WorkLane.priority : WorkLane → Int
  | .interactive => 4
  | .approval => 3
  | .collaboration => 2
  | .background => 1

/-- The lane's place in the order of `Array.prototype.sort`. -/
def WorkLane.rank : WorkLane → Nat
  | .approval => 0
  | .background => 1
  | .collaboration => 2
  | .interactive => 3

inductive ExecutionClass where
  | conversation | operation
  deriving DecidableEq

/-- The class named by `meta.executionClass`, else the one of the lane. -/
def executionClassOf (lane : WorkLane) (configured : Option String) : ExecutionClass :=
  match configured with
  | some "conversation" => .conversation
  | some "operation" => .operation
  | _ => match lane with
    | .interactive | .approval => .conversation
    | .collaboration | .background => .operation

inductive WorkStatus where
  | queued | leased | waiting | succeeded | partial_ | blocked | failed | cancelled
  deriving DecidableEq, Inhabited

/-- The statuses a work may still be claimed, steered or cancelled in. -/
def WorkStatus.isOpen : WorkStatus → Bool
  | .queued | .leased | .waiting => true
  | _ => false

/-! ## Outcomes -/

inductive Verification where
  | passed | notRun | inconclusive
  deriving DecidableEq

/-- The status of a goal, with the data its variant carries. -/
inductive GoalStatus where
  | satisfied | partial_ | blocked
  | awaitingInput
  | awaitingApproval (approvalId : String)
  | delegated (taskRef : String)
  deriving DecidableEq

structure GoalOutcome where
  status : GoalStatus
  verification : Verification
  requestVersion : Int
  gaps : Option (List String) := none
  question : Option String := none
  deriving DecidableEq

/-- `isWaitingOutcome`. -/
def GoalOutcome.isWaiting (outcome : GoalOutcome) : Bool :=
  match outcome.status with
  | .awaitingInput | .awaitingApproval _ | .delegated _ => true
  | .satisfied | .partial_ | .blocked => false

/-- An outcome that parks the work. -/
abbrev WaitingOutcome := { outcome : GoalOutcome // outcome.isWaiting = true }

inductive CompletionStatus where
  | completed | failed | cancelled
  deriving DecidableEq

structure WorkCompletion where
  status : CompletionStatus
  goalOutcome : Option GoalOutcome := none
  error : Option String := none
  deriving DecidableEq

def workStatusOf (completion : WorkCompletion) : WorkStatus :=
  match completion.status with
  | .failed => .failed
  | .cancelled => .cancelled
  | .completed => match completion.goalOutcome.map GoalOutcome.status with
    | some .awaitingInput | some (.awaitingApproval _) | some (.delegated _) => .waiting
    | some .partial_ => .partial_
    | some .blocked => .blocked
    | some .satisfied | none => .succeeded

@[simp] theorem workStatusOf_ne_leased (completion : WorkCompletion) :
    workStatusOf completion ≠ .leased := by
  unfold workStatusOf
  cases completion.status with
  | failed => simp
  | cancelled => simp
  | completed => dsimp only; split <;> simp

/-! ## Work items -/

/-- Composite key shared by sessions, kernel affinity, and lease exclusivity. -/
structure SessionKey where
  tenantId : String
  agentId : String
  sessionId : String
  threadId : Option String
  deriving DecidableEq, Inhabited

/-- `sessionKeyOf`: the text of the key. -/
def sessionKeyOf (key : SessionKey) : String :=
  Json.stringify (.arr [.str key.tenantId, .str key.agentId, .str key.sessionId,
    key.threadId.elim .null .str])

theorem sessionKeyOf_eq (key : SessionKey) : sessionKeyOf key
    = "[" ++ (Text.quote key.tenantId ++ ("," ++ (Text.quote key.agentId
      ++ ("," ++ (Text.quote key.sessionId
        ++ ("," ++ ((key.threadId.map Text.quote).getD "null" ++ "]"))))))) := by
  cases hthread : key.threadId <;>
    simp [sessionKeyOf, hthread, Json.stringify, Json.stringifyItems, String.append_assoc]

/-- Different keys have different texts. -/
theorem sessionKeyOf_inj {a b : SessionKey} (h : sessionKeyOf a = sessionKeyOf b) : a = b := by
  rw [sessionKeyOf_eq, sessionKeyOf_eq, String.append_right_inj] at h
  have htenant := Text.quote_append_inj h
  have hagent := Text.quote_append_inj ((String.append_right_inj _).1 htenant.2)
  have hsession := Text.quote_append_inj ((String.append_right_inj _).1 hagent.2)
  have hrest := (String.append_right_inj _).1 hsession.2
  have hthread : a.threadId = b.threadId := by
    cases ha : a.threadId with
    | none =>
        cases hb : b.threadId with
        | none => rfl
        | some t =>
            have hchars := congrArg String.toList hrest
            simp [ha, hb, Text.quote] at hchars
    | some s =>
        cases hb : b.threadId with
        | none =>
            have hchars := congrArg String.toList hrest
            simp [ha, hb, Text.quote] at hchars
        | some t =>
            rw [ha, hb] at hrest
            exact congrArg some (Text.quote_append_inj hrest).1
  obtain ⟨tenant, agent, session, thread⟩ := a
  simp only at htenant hagent hsession hthread
  rw [htenant.1, hagent.1, hsession.1, hthread]

/-- A durable unit of agent work, claimed under a fenced lease. -/
structure WorkItem where
  id : String
  fence : Nat
  homeEpoch : Nat
  tenantId : String
  agentId : String
  sessionId : String
  threadId : Option String
  kind : String
  lane : WorkLane
  triggerRef : String
  principalId : Option String
  createdAt : Int
  availableAt : Option Int
  attempts : Nat
  preemptions : Nat
  leaseToken : String
  meta_ : Option JsonObject

/-- Every mutating call carries the lease it was issued, with the token hashed. -/
structure LeaseProof where
  id : String
  fence : Nat
  leaseTokenHash : String
  deriving DecidableEq

/-! ## Heartbeat / steering -/

inductive AuthorKind where
  | human | agent
  deriving DecidableEq

structure SteerAuthor where
  id : String
  kind : AuthorKind
  deriving DecidableEq

inductive ContentStatus where
  | unsupported | empty | failed | tooLarge | unavailable
  deriving DecidableEq

structure RequestAttachment where
  id : String
  sourceVersion : String
  name : String
  mimeType : String
  size : Int
  text : Option String := none
  contentStatus : Option ContentStatus := none
  deriving DecidableEq

/-- A human correction of a request that is already running. -/
structure SteerInput where
  id : String
  text : String
  createdAt : Int
  author : Option SteerAuthor := none
  attachments : Option (List RequestAttachment) := none
  deriving DecidableEq

structure HeartbeatRow where
  cancelRequested : Bool
  preemptRequested : Bool
  steer : List SteerInput
  deriving DecidableEq

end LingxiOS
