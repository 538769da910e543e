-- SUMMARY: The awaited operations of the control plane.
import LingxiOS.Base.Program
import LingxiOS.ControlPlane.Recover

/-! # Awaited Operations

Every call of `ControlPlaneService` awaits its stores and the product's ports one
at a time. Other calls may run between any two of these operations. -/

namespace LingxiOS

/-- A work as a valid lease sees it. -/
structure LeasedWork where
  work : TurnWork
  fence : Nat
  cancelRequested : Bool

inductive ServiceOp where
  -- the work store
  | getLeased (proof : LeaseProof)
  | heartbeat (proof : LeaseProof)
  -- the product's policies
  | authorizeWork (work : TurnWork)
  | authorizeRequest (work : TurnWork) (request : RequestSnapshot)
  | resolveGrants (work : TurnWork)
  -- the session store
  | getSession (key : SessionKey) (workId : String)
  -- the action ledger
  | findIntent (key : String)
  | find (key : String)
  | unsettled (workId : String)
  | reserve (key fingerprint : String) (intent : ActionIntent)
  | record (key : String) (result : HostActionResult)
  | recordResolution (resolution : ActionResolution)
  -- the action executor
  | prepare (work : TurnWork) (action : HostAction) (requestVersion : Nat)
  | execute (work : TurnWork) (action : HostAction) (requestVersion : Nat)
  | reconcile (work : TurnWork) (action : HostAction) (requestVersion : Nat)
  /-- A built-in task action; `task.inspect` looks up what is unsettled. -/
  | taskAction (work : TurnWork) (action : HostAction) (requestVersion : Nat)

@[reducible] def ServiceOp.Value : ServiceOp → Type
  | .getLeased _ => Option LeasedWork
  | .heartbeat _ => Option HeartbeatRow
  | .authorizeWork _ => Unit
  | .authorizeRequest _ _ => Unit
  | .resolveGrants _ => List CapabilityGrant
  | .getSession _ _ => Option SessionRecord
  | .findIntent _ => Option ActionIntent
  | .find _ => Option HostActionResult
  | .unsettled _ => List ActionLedger.PendingAction
  | .reserve _ _ _ => ActionLedger.Reservation
  | .record _ _ => HostActionResult
  | .recordResolution _ => ActionLedger.Recorded
  | .prepare _ _ _ => Unit
  | .execute _ _ _ => HostActionResult
  | .reconcile _ _ _ => Option HostActionResult
  | .taskAction _ _ _ => HostActionResult

/-- A call of the control plane. -/
abbrev Service (α : Type) := Program ServiceOp ServiceOp.Value Failure α

abbrev ServiceEvent := Program.Event ServiceOp ServiceOp.Value Failure

namespace Service

/-- `throw new ControlPlaneError(status, message, code)`. -/
def refuse {α : Type} (status : Nat) (message : String) (code : Option String := none) : Service α :=
  .done (.error (.controlPlane ⟨status, message, code⟩))

/-- Await an operation of the control plane. -/
def await (op : ServiceOp) : Service op.Value := Program.perform op

def requireLease (proof : LeaseProof) (rejectCancelled : Bool) : Service LeasedWork :=
  if proof.id.isEmpty || !isSafeInteger proof.fence then refuse 400 "work lease proof required"
  else do
    match ← await (.getLeased proof) with
    | none => refuse 409 "work lease lost or expired" (some "lease_lost")
    | some leased =>
        if rejectCancelled && leased.cancelRequested then
          refuse 409 "work is cancelled; no further actions are permitted"
        else pure leased

/-- The stored session belongs to the work. -/
def sessionMatches (work : TurnWork) (session : SessionRecord) : Bool :=
  session.tenantId == work.tenantId && session.agentId == work.agentId
    && session.sessionId == work.sessionId && session.threadId == work.threadId

def getSession (proof : LeaseProof) (key : SessionKey) : Service (Option SessionRecord) := do
  let leased ← requireLease proof false
  await (.authorizeWork leased.work)
  if key ≠ leased.work.sessionKey then refuse 403 "session is outside this work lease"
  else
    match ← await (.getSession key leased.work.id) with
    | none => pure none
    | some session =>
        if !sessionMatches leased.work session then refuse 409 "stored session identity mismatch"
        else match session.request with
          | none => pure (some session)
          | some request => do
              await (.authorizeRequest leased.work request)
              pure (some session)

end Service

end LingxiOS
