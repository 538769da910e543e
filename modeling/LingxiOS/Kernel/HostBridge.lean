-- SUMMARY: The host calls of a Python cell and their numbers.
import LingxiOS.Protocol.Actions
import Mathlib.Data.List.Perm.Subperm

/-! # The Host Bridge

A translation of `HostBridge` in `runner.py`, and of the envelope `onHostCall`
builds in `manager.ts`. Every call a cell attempts takes the next index of the
cell, whether or not its message can be written and whatever the host answers;
after a directive to defer no call is attempted any more. -/

namespace LingxiOS

/-- The `host_call` message. -/
structure HostCall where
  id : String
  callIndex : Nat
  action : String
  args : JsonObject

/-- The state of the bridge that its calls depend on. -/
structure HostBridge where
  executionId : String
  callIndex : Nat
  directives : List HostDirective

/-- A call the cell makes: its arguments, if they can be written as JSON, and the
    host's answer, if one was read. -/
structure HostAttempt where
  action : String
  args : Option JsonObject
  response : Option HostActionResult

/-- The approval an answer waits for: one with an id. -/
def HostActionResult.pendingApproval (result : HostActionResult) : Option String :=
  result.approval.filter (fun id => id != "")

namespace HostBridge

def begin (executionId : String) : HostBridge := ⟨executionId, 0, []⟩

/-- `raise TurnDeferred()`: the host has asked for a wait. -/
def deferred (bridge : HostBridge) : Bool :=
  bridge.directives.any (fun directive => directive.type == .defer)

/-- Take note of the host's answer; an approval and a failure are raised instead. -/
def receive (bridge : HostBridge) (response : HostActionResult) : HostBridge :=
  if response.pendingApproval.isSome || !response.ok then bridge
  else { bridge with directives := bridge.directives ++ response.directive.toList }

/-- A call, and the message it writes. -/
def call (bridge : HostBridge) (attempt : HostAttempt) : HostBridge × Option HostCall :=
  if bridge.deferred then (bridge, none)
  else
    let sent := { bridge with callIndex := bridge.callIndex + 1 }
    match attempt.args with
    | none => (sent, none)
    | some args =>
        (attempt.response.elim sent sent.receive,
          some ⟨bridge.executionId, bridge.callIndex, attempt.action, args⟩)

/-- The calls of a cell, and the messages they write. -/
def calls (bridge : HostBridge) : List HostAttempt → HostBridge × List HostCall
  | [] => (bridge, [])
  | attempt :: attempts =>
      let called := bridge.call attempt
      let rest := called.1.calls attempts
      (rest.1, called.2.toList ++ rest.2)

@[simp] theorem receive_callIndex (bridge : HostBridge) (response : HostActionResult) :
    (bridge.receive response).callIndex = bridge.callIndex := by
  unfold receive
  split
  · rfl
  · rfl

/-- A message carries the index its call took. -/
theorem call_message {bridge : HostBridge} {attempt : HostAttempt} {message : HostCall}
    (h : (bridge.call attempt).2 = some message) :
    message.callIndex = bridge.callIndex
      ∧ (bridge.call attempt).1.callIndex = bridge.callIndex + 1 := by
  unfold call at h ⊢
  split at h
  · cases h
  · rename_i hdeferred
    rw [if_neg hdeferred]
    cases hargs : attempt.args with
    | none =>
        rw [hargs] at h
        cases h
    | some args =>
        rw [hargs] at h
        cases h
        refine ⟨rfl, ?_⟩
        cases attempt.response with
        | none => rfl
        | some response => simp

theorem callIndex_le_call (bridge : HostBridge) (attempt : HostAttempt) :
    bridge.callIndex ≤ (bridge.call attempt).1.callIndex := by
  unfold call
  split
  · exact le_rfl
  · cases attempt.args with
    | none => exact Nat.le_succ _
    | some args =>
        cases attempt.response with
        | none => exact Nat.le_succ _
        | some response => simp

/-- What the messages of some calls are numbered with. -/
structure Numbered (first last : Nat) (messages : List HostCall) : Prop where
  increasing : messages.Pairwise (fun a b => a.callIndex < b.callIndex)
  within : ∀ message ∈ messages, first ≤ message.callIndex ∧ message.callIndex < last
  le : first ≤ last

theorem calls_numbered (bridge : HostBridge) (attempts : List HostAttempt) :
    Numbered bridge.callIndex (bridge.calls attempts).1.callIndex (bridge.calls attempts).2 := by
  induction attempts generalizing bridge with
  | nil => exact ⟨.nil, by simp [calls], le_rfl⟩
  | cons attempt attempts ih =>
      have hrest := ih (bridge.call attempt).1
      have hle := bridge.callIndex_le_call attempt
      simp only [calls]
      cases hmessage : (bridge.call attempt).2 with
      | none =>
          simp only [Option.toList_none, List.nil_append]
          refine ⟨hrest.increasing, ?_, hle.trans hrest.le⟩
          intro message hmem
          obtain ⟨hfirst, hlast⟩ := hrest.within message hmem
          exact ⟨hle.trans hfirst, hlast⟩
      | some message =>
          obtain ⟨hindex, hnext⟩ := call_message hmessage
          simp only [Option.toList_some, List.singleton_append]
          constructor
          · apply List.Pairwise.cons _ hrest.increasing
            intro later hlater
            have hfirst := (hrest.within later hlater).1
            omega
          · intro other hother
            have hlast := hrest.le
            rcases List.mem_cons.1 hother with rfl | hother
            · exact ⟨hindex.ge, by omega⟩
            · obtain ⟨hfirst, hlast⟩ := hrest.within other hother
              exact ⟨hle.trans hfirst, hlast⟩
          · exact hle.trans hrest.le

end HostBridge

/-! ## The execution of a cell -/

/-- The envelope the manager sends for a message of the cell under way. -/
def HostCall.toAction (runId cellId : String) (message : HostCall) : HostAction where
  runId := runId
  cellId := cellId
  callIndex := message.callIndex
  action := message.action
  args := message.args
  idempotencyKey := actionKeyOf runId cellId message.callIndex

/-- One execution of a cell, with the calls it makes in order. -/
structure CellExecution where
  executionId : String
  runId : String
  cellId : String
  attempts : List HostAttempt

namespace CellExecution

def finished (cell : CellExecution) : HostBridge × List HostCall :=
  (HostBridge.begin cell.executionId).calls cell.attempts

/-- How many host calls the cell has made. -/
def callCount (cell : CellExecution) : Nat := cell.finished.1.callIndex

/-- The actions the host is asked for, in call order. -/
def actions (cell : CellExecution) : List HostAction :=
  cell.finished.2.map (HostCall.toAction cell.runId cell.cellId)

theorem actions_increasing (cell : CellExecution) :
    cell.actions.Pairwise (fun a b => a.callIndex < b.callIndex) := by
  unfold actions
  rw [List.pairwise_map]
  exact ((HostBridge.begin cell.executionId).calls_numbered cell.attempts).increasing

theorem callIndex_lt_callCount {cell : CellExecution} {action : HostAction}
    (h : action ∈ cell.actions) : action.callIndex < cell.callCount := by
  obtain ⟨message, hmessage, rfl⟩ := List.mem_map.1 h
  have hnumbered := (HostBridge.begin cell.executionId).calls_numbered cell.attempts
  exact (hnumbered.within message hmessage).2

/-- No more actions are asked for than calls were made. -/
theorem length_actions_le (cell : CellExecution) : cell.actions.length ≤ cell.callCount := by
  have hnodup : (cell.actions.map HostAction.callIndex).Nodup := by
    rw [List.Nodup, List.pairwise_map]
    exact cell.actions_increasing.imp fun hlt => hlt.ne
  have hsubset : cell.actions.map HostAction.callIndex ⊆ List.range cell.callCount := by
    intro i hi
    obtain ⟨action, haction, rfl⟩ := List.mem_map.1 hi
    exact List.mem_range.2 (callIndex_lt_callCount haction)
  simpa using (hnodup.subperm hsubset).length_le

end CellExecution

end LingxiOS
