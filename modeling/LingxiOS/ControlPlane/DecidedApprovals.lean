-- SUMMARY: executeDecidedApprovals and the outputs it appends.
import LingxiOS.Runtime.Restore

/-! # Decided Approvals

Before an attempt goes on, the actions its principal has decided on are executed. The receipts of
each one's cell become the output of the call that the cell is of. -/

namespace LingxiOS

/-- What the recovery meets: the stored session, the decided actions of a version of the request in
    the order their approvals were asked for, and what executing one of them gives. An abort is an
    error of what comes next. -/
structure ApprovalEnv where
  work : TurnWork
  session : Option SessionRecord
  decided : Nat → List HostAction
  execute : HostAction → Except Failure Unit
  /-- What `recoverCell` gives of the action's cell, once the action was executed. -/
  recoverCell : HostAction → Except Failure (Option (List Receipt))

namespace ModelItem

def isCell (cellId : String) : ModelItem → Bool
  | .functionCall call => call.cellId == cellId
  | _ => false

def isOutputOf (callId : String) : ModelItem → Bool
  | .functionCallOutput answered _ => answered == callId
  | _ => false

end ModelItem

def ToolOutput.text (output : ToolOutput) : String := output.toJson.stringify

def ModelItem.outputText? : ModelItem → Option String
  | .functionCallOutput _ output => some output.text
  | _ => none

/-- The output of an approved call; the fields stand in the order the object is written in. -/
def approvedOutput (receipts : Option (List Receipt)) : ToolOutput :=
  boundedToolOutput {
    fields := [("recovered", .bool true), ("localExecutionOutput", .str "not_recovered"),
      ("receipts", match receipts with
        | none => .null
        | some receipts => .arr (receipts.map Receipt.toJson)),
      ("artifacts", .arr ((receiptArtifacts (receipts.getD [])).map KernelArtifact.toJson))] }

/-- A history, and whether it was changed. -/
structure RecoveredHistory where
  history : List ModelItem
  changed : Bool := false

/-- The first output under the id of the call is overwritten, or one is pushed. -/
def RecoveredHistory.answer (session : RecoveredHistory) (callId : String) (output : ToolOutput) :
    RecoveredHistory :=
  match session.history.findIdx? (·.isOutputOf callId) with
  | some old =>
      -- The same text over again is no change.
      if session.history[old]?.bind ModelItem.outputText? = some output.text then session
      else ⟨session.history.set old (.functionCallOutput callId output), true⟩
  | none => ⟨session.history ++ [.functionCallOutput callId output], true⟩

/-- A turn of the loop. -/
def recoverApproved (env : ApprovalEnv) (session : RecoveredHistory) (action : HostAction) :
    Except Failure RecoveredHistory := do
  env.execute action
  match session.history.find? (·.isCell action.cellId) with
  | some (.functionCall call) => do
      let receipts ← env.recoverCell action
      return session.answer call.callId (approvedOutput receipts)
  | _ => return session

/-- The session it saves, if it saves one. -/
def executeDecidedApprovals (env : ApprovalEnv) : Except Failure (Option SessionRecord) :=
  match env.session with
  | none => .ok none
  | some session =>
      match ownRequest env.work session.request with
      | none => .ok none
      | some request => do
          let actions := env.decided request.requestVersion
          if 64 < actions.length then throw (.error "approval recovery exceeds 64 actions")
          let recovered ← actions.foldlM (recoverApproved env) ⟨session.history, false⟩
          if recovered.changed then return some { session with history := recovered.history }
          else return none

end LingxiOS
