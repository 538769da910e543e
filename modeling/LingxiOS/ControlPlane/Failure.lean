-- SUMMARY: The errors a call of the control plane or of the runtime ends with.
import LingxiOS.Request.Save

/-! # Failures

Every error class the runtime tells apart, and one constructor for those it
does not. -/

namespace LingxiOS

inductive Failure where
  /-- A plain `Error`. -/
  | error (message : String)
  | controlPlane (error : ControlPlaneError)
  /-- A native service proved that it committed nothing. -/
  | noEffect (message code : String)
  /-- An `AgentOSError` of a class that nothing tells apart. -/
  | agentOS (code message : String)
  | modelBudgetExceeded (message : String)
  | leaseLost (message : String)
  | runCancelled (reason : String)
  | kernelCancelled (cellId : String)
  | kernelExecution (message cellId : String)
  | kernelTimeout (timeoutMs : Nat) (cellId : String)
  | approvalPending (approvalId cellId : String)
  deriving DecidableEq

namespace Failure

/-- `errorMessage`. -/
def message : Failure → String
  | .error text => text
  | .controlPlane rejection => rejection.message
  | .noEffect text _ => text
  | .agentOS _ message => message
  | .modelBudgetExceeded message => message
  | .leaseLost message => message
  | .runCancelled reason => "run cancelled (" ++ reason ++ ")"
  | .kernelCancelled _ => "kernel cell cancelled"
  | .kernelExecution message _ => message
  | .kernelTimeout timeoutMs _ =>
      "kernel cell exceeded " ++ toString timeoutMs ++ "ms and was terminated"
  | .approvalPending approvalId _ => "approval pending: " ++ approvalId

end Failure

/-- A check that only has a text to say, as a failure. -/
def orError {α : Type} (checked : Except String α) : Except Failure α :=
  checked.mapError .error

@[simp] theorem orError_eq_ok_iff {α : Type} {checked : Except String α} {a : α} :
    orError checked = .ok a ↔ checked = .ok a :=
  Except.mapError_eq_ok_iff

end LingxiOS
