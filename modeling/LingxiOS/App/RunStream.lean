-- SUMMARY: Run states, preview updates and the items of a run's event stream.
import LingxiOS.ControlPlane.CommitResult
import LingxiOS.Runtime.Preview

/-! # The Run Stream

What the application tells a reader of a run: states, numbered events, drafts and
resets. -/

namespace LingxiOS

namespace App

open Preview (Units PreviewSnapshot)

/-! ## States -/

structure RunSnapshot where
  id : String
  fence : Nat
  resultId : Option String
  resultFence : Option Nat
  status : WorkStatus
  kind : String
  attempts : Nat
  requestVersion : Int
  createdAt : Int
  availableAt : Int
  heartbeatAt : Option Int
  lastProgressAt : Option Int
  goalOutcome : Option GoalOutcome
  error : Option String
  deriving DecidableEq

inductive DeliveryState where
  | pending | delivered | failed | notObserved
  deriving DecidableEq

/-- A run with its committed message and the delivery of it. -/
structure RunState where
  run : RunSnapshot
  message : Option AssistantMessage
  delivery : Option DeliveryState
  deriving DecidableEq

/-! ## Events -/

/-- The attempt whose range an event's number is in. -/
def fenceOf (seq : Nat) : Nat := (seq - 1) / RUN_SEQUENCE_SPAN + 1

/-! ## Drafts -/

/-- A whole draft, or what is added to an earlier one. -/
inductive PreviewText where
  | snapshot (draft : Units)
  | delta (delta : Units) (fromSeq : Nat)
  deriving DecidableEq

structure PreviewUpdate where
  runId : String
  fence : Nat
  requestVersion : Nat
  attemptId : String
  seq : Nat
  text : PreviewText
  deriving DecidableEq

inductive ResetReason where
  | unavailable | superseded
  deriving DecidableEq

/-! ## Items -/

inductive RunStreamEvent where
  | event (event : RunEvent)
  | state (state : RunState)
  | preview (preview : PreviewUpdate)
  | reset (runId : String) (reason : ResetReason)
  deriving DecidableEq

end App

end LingxiOS
