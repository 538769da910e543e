-- SUMMARY: What is stored about an action that may need an approval.
import LingxiOS.ControlPlane.NativeCalls

/-! # Stored Actions

A call that asks for an approval records its intent, the approval with the preview
the principal decides about, and a receipt that waits for it. What the next call
finds is followed here along its events, as long as nothing fails. -/

namespace LingxiOS

open Program

/-! ## The stores -/

/-- An action, and what its calls find unchanged: the work with its revisions, grants
    and session, and the preview of the action. -/
structure ActionSetting where
  action : HostAction
  work : TurnWork
  steer : List SteerInput
  grants : List CapabilityGrant
  session : Option SessionRecord
  preview : JsonObject

/-- The calls that hold a slot of a tool's quota, and those that wait for one. -/
structure QuotaLoad where
  active : Nat := 0
  waiting : Nat := 0

/-- `run` of a `ResourceQuota(maxConcurrency, 16)` starts a call or lets it wait. -/
def QuotaLoad.takes (load : QuotaLoad) (maxConcurrency : Nat) : Bool :=
  load.active < maxConcurrency && load.waiting == 0 || load.waiting < 16

/-- What is stored about one action, and the load of its tool's quota. -/
structure ActionRows where
  /-- The fingerprint and the intent. -/
  intent : Option (String × ActionIntent) := none
  receipt : Option HostActionResult := none
  approval : Option ApprovalRow := none
  /-- Another action of the work is unsettled. -/
  blocked : Bool := false
  load : QuotaLoad := {}
  /-- How often the tool was executed. -/
  executions : Nat := 0
  /-- The receipt and the approval from before the transaction that is open. -/
  saved : Option (Option HostActionResult × Option ApprovalRow) := none

namespace ActionRows

/-- `INSERT ... ON CONFLICT DO UPDATE ... WHERE status = 'PENDING'`. -/
def put (rows : ActionRows) (result : HostActionResult) : ActionRows :=
  if rows.receipt.any HostActionResult.isFinal then rows else { rows with receipt := some result }

/-- `INSERT INTO agent_approvals ... ON CONFLICT DO NOTHING`. -/
def ask (rows : ActionRows) (preview : JsonObject) (toolContractHash : String) : ActionRows :=
  { rows with approval := some (rows.approval.getD ⟨preview, none, toolContractHash⟩) }

/-- `ROLLBACK`. -/
def restore (rows : ActionRows) : ActionRows :=
  match rows.saved with
  | none => rows
  | some (receipt, approval) => { rows with receipt := receipt, approval := approval, saved := none }

def markInFlight (rows : ActionRows) (result : HostActionResult) : ActionRows :=
  if rows.receipt.any (fun receipt => receipt.approval.isSome) then
    { rows with receipt := some result }
  else rows

def settleInFlight (rows : ActionRows) (result : HostActionResult) : ActionRows :=
  if rows.receipt.any (fun receipt => receipt.code == some "external_in_flight") then
    { rows with receipt := some result }
  else rows

/-- The rows after an operation. -/
def next (rows : ActionRows) : NativeEvent → ActionRows
  | ⟨.service (.reserve _ fingerprint intent), _⟩ =>
      { rows with intent := some (rows.intent.getD (fingerprint, intent)) }
  | ⟨.service (.record _ result), _⟩ => rows.put result
  | ⟨.insertReceipt _ _ result, _⟩ => rows.put result
  | ⟨.markInFlight _ _ result, _⟩ => rows.markInFlight result
  | ⟨.settleInFlight _ result, _⟩ => rows.settleInFlight result
  | ⟨.insertApproval _ _ _ preview toolContractHash, _⟩ => rows.ask preview toolContractHash
  | ⟨.toolExecute _ _ _, _⟩ => { rows with executions := rows.executions + 1 }
  | ⟨.begin_ _ _, _⟩ => { rows with saved := some (rows.receipt, rows.approval) }
  | ⟨.commit _, _⟩ => { rows with saved := none }
  | ⟨.rollback _, _⟩ => rows.restore
  | _ => rows

/-- The principal approves the action. Meanwhile other actions of the work may have
    come to be unsettled, or have been settled, and other calls of the tool started. -/
def approve (rows : ActionRows) (blocked : Bool) (load : QuotaLoad) : ActionRows :=
  { rows with
    approval := rows.approval.map (fun row => { row with decision := some true })
    blocked := blocked
    load := load }

/-- The quota of the tool, if it has one, takes the call. A transaction asks for none. -/
def quotaTakes (tool : NativeTool) (load : QuotaLoad) : Bool :=
  tool.definition.effect == .transaction || tool.maxConcurrency.all load.takes

/-- How often the tool has been executed after the call that follows the decision. -/
def executionsAfter (rows : ActionRows) (tool : NativeTool) : Nat :=
  rows.executions
    + if tool.definition.effect ≠ .uncertain ∧ rows.blocked = false ∧ quotaTakes tool rows.load
      then 1 else 0

/-- What an operation answers, when nothing fails: the lease is held and the request
    is not cancelled, what is looked up is what is stored, every policy agrees, and a call
    that may wait for a slot gets one. The tool itself, its read-back and the task actions
    may answer anything. -/
def answers (s : ActionSetting) (rows : ActionRows) : NativeEvent → Prop
  | ⟨.service (.getLeased _), answer⟩ => ∃ leased, answer = .ok (some leased)
      ∧ leased.work = s.work ∧ leased.cancelRequested = false
  | ⟨.service (.heartbeat _), answer⟩ => ∃ row, answer = .ok (some row)
      ∧ row.cancelRequested = false ∧ row.steer = s.steer
  | ⟨.service (.authorizeWork _), answer⟩ => answer = .ok ()
  | ⟨.service (.authorizeRequest _ _), answer⟩ => answer = .ok ()
  | ⟨.service (.resolveGrants _), answer⟩ => answer = .ok s.grants
  | ⟨.service (.getSession _ _), answer⟩ => answer = .ok s.session
  | ⟨.service (.findIntent _), answer⟩ => answer = .ok (rows.intent.map Prod.snd)
  | ⟨.service (.find _), answer⟩ => answer = .ok rows.receipt
  | ⟨.service (.unsettled _), answer⟩ => ∃ items, answer = .ok items
      ∧ items.any (fun item => item.actionKey != s.action.idempotencyKey) = rows.blocked
  | ⟨.service (.reserve _ fingerprint _), answer⟩ => match rows.intent with
      | none => answer = .ok .started
      | some (recorded, _) =>
          if recorded = fingerprint then answer = .ok .existing else ∃ failure, answer = .error failure
  | ⟨.service (.record _ result), answer⟩ =>
      answer = .ok ((rows.receipt.filter HostActionResult.isFinal).getD result)
  | ⟨.service (.prepare _ _ _), answer⟩ => answer = .ok ()
  | ⟨.connect, answer⟩ => ∃ conn, answer = .ok conn
  | ⟨.selectReceipt _ _, answer⟩ => answer = .ok rows.receipt
  | ⟨.selectIntent _ _, answer⟩ => answer = .ok (rows.intent.map Prod.snd)
  | ⟨.selectApproval _ _, answer⟩ => match rows.approval with
      | some row => answer = .ok row
      | none => ∃ failure, answer = .error failure
  | ⟨.preview _ _ _, answer⟩ => answer = .ok s.preview
  | ⟨.begin_ _ _, answer⟩ => answer = .ok ()
  | ⟨.setTimeouts _, answer⟩ => answer = .ok ()
  | ⟨.commit _, answer⟩ => answer = .ok ()
  | ⟨.rollback _, answer⟩ => answer = .ok ()
  | ⟨.lockAction _ _ _, answer⟩ => answer = .ok ()
  | ⟨.insertReceipt _ _ _, answer⟩ => answer = .ok ()
  | ⟨.markInFlight _ _ _, answer⟩ => answer = .ok ()
  | ⟨.settleInFlight _ _, answer⟩ => answer = .ok ()
  | ⟨.insertApproval _ _ _ _ _, answer⟩ => answer = .ok ()
  | ⟨.authorizeConversation _ _, answer⟩ => answer = .ok ()
  | ⟨.assertObservation _ _ _, answer⟩ => answer = .ok ()
  | ⟨.throwIfAborted, answer⟩ => answer = .ok ()
  | ⟨.authorize _ _ _, answer⟩ => answer = .ok ()
  | ⟨.acquire _ maxConcurrency, answer⟩ =>
      if rows.load.takes maxConcurrency then answer = .ok ()
      else answer = .error (.error "resource queue is full")
  | _ => True

theorem answers_reserve {s : ActionSetting} {rows : ActionRows} {key fingerprint : String}
    {intent : ActionIntent} {answer : Except Failure ActionLedger.Reservation} :
    answers s rows ⟨.service (.reserve key fingerprint intent), answer⟩ ↔ match rows.intent with
      | none => answer = .ok .started
      | some (recorded, _) =>
          if recorded = fingerprint then answer = .ok .existing
          else ∃ failure, answer = .error failure :=
  Iff.rfl

theorem answers_record {s : ActionSetting} {rows : ActionRows} {key : String}
    {result : HostActionResult} {answer : Except Failure HostActionResult} :
    answers s rows ⟨.service (.record key result), answer⟩
      ↔ answer = .ok ((rows.receipt.filter HostActionResult.isFinal).getD result) :=
  Iff.rfl

/-- The stores, followed along the events of a call. -/
def monitor (s : ActionSetting) : Monitor NativeOp NativeOp.Value Failure ActionRows where
  allows _ _ := True
  trusts := answers s
  next := next

end ActionRows

/-! ## The checks -/

/-- The version of the request, as `currentVersion` finds it. -/
def ActionSetting.version (s : ActionSetting) : Option Nat :=
  if s.work.meta_.text.isNone then some (s.steer.length + 1)
  else match s.session with
    | none => none
    | some session =>
        if !Service.sessionMatches s.work session then none
        else match session.request with
          | none => none
          | some request =>
              if request.workId ≠ s.work.id ∨ request.revisions ≠ s.steer then none
              else some request.requestVersion

def LeaseProof.isComplete (proof : LeaseProof) : Bool :=
  !(proof.id.isEmpty || !isSafeInteger proof.fence)

/-- The action passes the checks of a call, which find this intent. -/
structure ActionSetting.Admits (s : ActionSetting) (service : ServiceConfig) (proof : LeaseProof)
    (intent : Option ActionIntent) (admitted : Service.Admitted) : Prop where
  complete : proof.isComplete = true
  envelope : s.action.validEnvelope s.work = true
  granted : ∃ method, splitAction s.action.action = some (admitted.namespace_, method)
    ∧ (findGrant s.work s.grants admitted.namespace_).any (fun grant => grant.permits method) = true
  target : (["task.check_receipt", "task.check_resource"].contains s.action.action
    && !grantsTarget s.grants s.action.args) = false
  version : s.version = some admitted.requestVersion
  sameIntent : intent.all (Service.sameIntent s.work admitted.requestVersion s.action) = true
  mode : ∃ mode, executionMode s.work = .ok mode
    ∧ permitsAction s.work mode admitted.tool s.action = true
  parameters : admitted.tool.any (fun tool =>
    s.action.args.any (fun entry => !tool.properties.contains entry.1)) = false
  work : admitted.work = s.work
  tool : admitted.tool = service.tools.find? (fun tool => tool.action == s.action.action)
  existing : admitted.existing = intent

namespace ActionRows

section Checks

variable {s : ActionSetting} {service : ServiceConfig} {cfg : ExecutorConfig} {proof : LeaseProof}
  {rows : ActionRows} {α β : Type}

/-- An operation of the service, and what follows each of its answers. -/
theorem service_obeys {op : ServiceOp} {f : op.Value → Service β}
    {post : ActionRows → Except Failure β → Prop}
    (hserve : Native.serve cfg op = Native.await (.service op))
    (herror : ∀ e, answers s rows ⟨.service op, .error e⟩ → post (rows.next ⟨.service op, .error e⟩)
      (.error e))
    (hok : ∀ a, answers s rows ⟨.service op, .ok a⟩ → ((f a).interpret (Native.serve cfg)).Obeys
      (monitor s) post (rows.next ⟨.service op, .ok a⟩)) :
    ((Service.await op >>= f).interpret (Native.serve cfg)).Obeys (monitor s) post rows := by
  have hprogram : (Service.await op >>= f).interpret (Native.serve cfg)
      = .await (.service op) (fun answer =>
        (Program.done answer >>= f).interpret (Native.serve cfg)) := by
    show ((Native.serve cfg op).attempt >>= _) = _
    rw [hserve]
    rfl
  rw [hprogram]
  refine ⟨trivial, fun answer htrust => ?_⟩
  cases answer with
  | error e => exact herror e htrust
  | ok a => exact hok a htrust

theorem service_told {op : ServiceOp} {a : op.Value} {f : op.Value → Service β}
    {post : ActionRows → Except Failure β → Prop}
    (hserve : Native.serve cfg op = Native.await (.service op))
    (htold : ∀ answer, answers s rows ⟨.service op, answer⟩ → answer = .ok a)
    (h : ((f a).interpret (Native.serve cfg)).Obeys (monitor s) post
      (rows.next ⟨.service op, .ok a⟩)) :
    ((Service.await op >>= f).interpret (Native.serve cfg)).Obeys (monitor s) post rows := by
  apply service_obeys hserve
  · intro e htrust
    cases htold _ htrust
  · intro a' htrust
    obtain rfl := Except.ok.inj (htold _ htrust)
    exact h

/-- Either the action is admitted, with nothing changed, or it is refused. -/
def Checked (s : ActionSetting) (service : ServiceConfig) (proof : LeaseProof) (rows rows' : ActionRows)
    (outcome : Except Failure (ActionAnswer ⊕ Service.Admitted)) : Prop :=
  (∃ admitted, s.Admits service proof (rows.intent.map Prod.snd) admitted
    ∧ outcome = .ok (.inr admitted) ∧ rows' = rows)
  ∨ (∀ admitted, ¬s.Admits service proof (rows.intent.map Prod.snd) admitted)
    ∧ ∀ answer, outcome = .ok answer → ∃ result, answer = .inl (.refused result)

theorem reject_obeys {code error : String} :
    ((Service.reject s.action code error).interpret (Native.serve cfg)).Obeys (monitor s)
      (fun _ outcome => ∀ answer, outcome = .ok answer → ∃ result, answer = .refused result) rows := by
  unfold Service.reject
  refine service_told rfl (fun _ h => h) ?_
  split
  · apply service_obeys rfl
    · intro e _ answer h
      cases h
    · intro recorded _ answer h
      cases h
      exact ⟨_, rfl⟩
  · intro answer h
    cases h
    exact ⟨_, rfl⟩

theorem rejected_checked {code error : String} {rows₀ : ActionRows}
    (hno : ∀ admitted, ¬s.Admits service proof (rows₀.intent.map Prod.snd) admitted) :
    ((Service.reject s.action code error >>= fun answer => pure (Sum.inl answer)).interpret
      (Native.serve cfg)).Obeys (monitor s) (Checked s service proof rows₀) rows := by
  apply Obeys.interpret_bind
  apply Obeys.mono reject_obeys
  intro rows' outcome hrefused
  cases outcome with
  | error e => exact .inr ⟨hno, by simp⟩
  | ok answer =>
      obtain ⟨result, rfl⟩ := hrefused answer rfl
      refine .inr ⟨hno, fun answer h => ?_⟩
      cases h
      exact ⟨result, rfl⟩

theorem requireLease_obeys {rejectCancelled : Bool} (hproof : proof.isComplete = true) :
    ((Service.requireLease proof rejectCancelled).interpret (Native.serve cfg)).Obeys (monitor s)
      (fun rows' outcome => rows' = rows
        ∧ ∃ leased, outcome = .ok leased ∧ leased.work = s.work) rows := by
  unfold Service.requireLease
  rw [if_neg (by simpa [LeaseProof.isComplete] using hproof)]
  apply service_obeys rfl
  · rintro e ⟨leased, h, -⟩
    cases h
  · rintro found ⟨leased, h, hwork, hcancel⟩
    cases h
    simp only [hcancel, Bool.and_false]
    exact ⟨rfl, leased, rfl, hwork⟩

/-- The session store answers a call of the work with its session, unless it is another one's. -/
theorem getSession_obeys (hproof : proof.isComplete = true) :
    ((Service.getSession proof s.work.sessionKey).interpret (Native.serve cfg)).Obeys (monitor s)
      (fun rows' outcome => rows' = rows ∧
        ((∃ session, s.session = some session ∧ Service.sessionMatches s.work session = false
            ∧ ∃ e, outcome = .error e)
          ∨ (∀ session, s.session = some session → Service.sessionMatches s.work session = true)
            ∧ outcome = .ok s.session)) rows := by
  unfold Service.getSession
  apply Obeys.interpret_bind
  apply Obeys.mono (requireLease_obeys hproof)
  rintro _ _ ⟨rfl, leased, rfl, hwork⟩
  refine service_told rfl (fun _ h => h) ?_
  rw [if_neg (by simp [hwork])]
  refine service_told rfl (fun _ h => h) ?_
  cases hsession : s.session with
  | none => exact ⟨rfl, .inr ⟨by simp, rfl⟩⟩
  | some session =>
      simp only [hwork]
      cases hmatches : Service.sessionMatches s.work session with
      | false => exact ⟨rfl, .inl ⟨session, rfl, hmatches, _, rfl⟩⟩
      | true =>
          have hall : ∀ session', some session = some session' →
              Service.sessionMatches s.work session' = true := by
            intro session' h
            cases h
            exact hmatches
          cases hrequest : session.request with
          | none => exact ⟨rfl, .inr ⟨hall, rfl⟩⟩
          | some request => exact service_told rfl (fun _ h => h) ⟨rfl, .inr ⟨hall, rfl⟩⟩

/-- The version of the request is found, or the call stops there. -/
theorem currentVersion_obeys (hproof : proof.isComplete = true) :
    ((Service.currentVersion proof s.work s.steer).interpret (Native.serve cfg)).Obeys (monitor s)
      (fun rows' outcome => rows' = rows ∧
        (outcome = .ok s.version ∨ s.version = none ∧ ∃ e, outcome = .error e)) rows := by
  unfold Service.currentVersion ActionSetting.version
  split
  · exact ⟨rfl, .inl rfl⟩
  · apply Obeys.interpret_bind
    apply Obeys.mono (getSession_obeys hproof)
    rintro _ _ ⟨rfl, ⟨session, hsession, hmatches, e, rfl⟩ | ⟨hall, rfl⟩⟩
    · refine ⟨rfl, .inr ⟨?_, e, rfl⟩⟩
      simp [hsession, hmatches]
    · cases hsession : s.session with
      | none => exact ⟨rfl, .inl rfl⟩
      | some session =>
          have hmatches := hall session hsession
          cases hrequest : session.request with
          | none =>
              simp only [Option.bind_some, hrequest, hmatches]
              exact ⟨rfl, .inl rfl⟩
          | some request =>
              simp only [Option.bind_some, hrequest, hmatches]
              by_cases hstale : request.workId ≠ s.work.id ∨ request.revisions ≠ s.steer
              · simp only [if_pos hstale]
                exact ⟨rfl, .inl rfl⟩
              · simp only [if_neg hstale]
                exact ⟨rfl, .inl rfl⟩

/-- The arguments are the last that is checked. -/
theorem checkArguments_obeys {admitted : Service.Admitted} (hnative : admitted.namespace_ ≠ "task")
    (htool : admitted.tool = service.tools.find? (fun tool => tool.action == s.action.action))
    (hadmits : admitted.tool.any (fun tool => s.action.args.any
        (fun entry => !tool.properties.contains entry.1)) = false →
      s.Admits service proof (rows.intent.map Prod.snd) admitted) :
    ((Service.checkArguments service admitted s.action).interpret (Native.serve cfg)).Obeys
      (monitor s) (Checked s service proof rows) rows := by
  unfold Service.checkArguments
  split
  · rename_i hunknown
    refine .inr ⟨fun admitted' h => ?_, by simp⟩
    rw [htool, ← h.tool, h.parameters] at hunknown
    cases hunknown
  · rename_i hknown
    refine ⟨trivial, fun answer htrust => ?_⟩
    obtain rfl : answer = .ok () := htrust
    exact .inl ⟨admitted, hadmits (Bool.eq_false_of_not_eq_true hknown), rfl, rfl⟩

section Admission

variable {namespace_ method : String} (hproof : proof.isComplete = true)
  (henvelope : s.action.validEnvelope s.work = true)
  (hsplit : splitAction s.action.action = some (namespace_, method))
  (hnative : namespace_ ≠ "task")
  (hgranted : (findGrant s.work s.grants namespace_).any (fun grant => grant.permits method) = true)
  (htarget : (["task.check_receipt", "task.check_resource"].contains s.action.action
    && !grantsTarget s.grants s.action.args) = false)

include hproof henvelope hsplit hnative hgranted htarget

theorem checkIdentity_obeys {version : Nat} (hversion : s.version = some version) :
    ((Service.checkIdentity service s.work namespace_ version s.action).interpret
      (Native.serve cfg)).Obeys (monitor s) (Checked s service proof rows) rows := by
  unfold Service.checkIdentity
  refine service_told rfl (fun _ h => h) ?_
  have hsame : ∀ admitted, s.Admits service proof (rows.intent.map Prod.snd) admitted →
      admitted.requestVersion = version := by
    intro admitted h
    exact Option.some.inj (h.version.symm.trans hversion)
  split
  · rename_i hother
    refine .inr ⟨fun admitted h => ?_, by simp⟩
    have hintent := h.sameIntent
    rw [hsame admitted h] at hintent
    simp [hintent] at hother
  · rename_i hintent
    split
    · rename_i hmode
      refine .inr ⟨fun admitted h => ?_, by simp⟩
      obtain ⟨mode, hmode', -⟩ := h.mode
      simp [hmode] at hmode'
    · rename_i mode hmode
      split
      · rename_i hforbidden
        apply rejected_checked
        intro admitted h
        obtain ⟨mode', hmode', hpermits⟩ := h.mode
        rw [hmode] at hmode'
        cases hmode'
        rw [h.tool] at hpermits
        simp [hpermits] at hforbidden
      · rename_i hpermits
        apply checkArguments_obeys hnative rfl
        intro hparameters
        exact {
          complete := hproof
          envelope := henvelope
          granted := ⟨method, hsplit, hgranted⟩
          target := htarget
          version := hversion
          sameIntent := by simpa using hintent
          mode := ⟨mode, hmode, by simpa using hpermits⟩
          parameters := hparameters
          work := rfl
          tool := rfl
          existing := rfl }

theorem checkCurrent_obeys :
    ((Service.checkCurrent service proof s.work namespace_ s.action).interpret
      (Native.serve cfg)).Obeys (monitor s) (Checked s service proof rows) rows := by
  unfold Service.checkCurrent
  apply service_obeys rfl
  · rintro e ⟨row, h, -⟩
    cases h
  · rintro found ⟨row, h, hcancel, hsteer⟩
    cases h
    simp only [hcancel, hsteer]
    apply Obeys.interpret_bind
    apply Obeys.mono (currentVersion_obeys hproof)
    rintro _ _ ⟨rfl, rfl | ⟨hnone, e, rfl⟩⟩
    · cases hversion : s.version with
      | none =>
          refine .inr ⟨fun admitted h => ?_, by simp⟩
          have hsome := h.version
          simp [hversion] at hsome
      | some version =>
          exact checkIdentity_obeys hproof henvelope hsplit hnative hgranted htarget hversion
    · refine .inr ⟨fun admitted h => ?_, by simp⟩
      have hsome := h.version
      simp [hnone] at hsome

end Admission

theorem checkGrants_obeys {namespace_ method : String} (hproof : proof.isComplete = true)
    (henvelope : s.action.validEnvelope s.work = true)
    (hsplit : splitAction s.action.action = some (namespace_, method))
    (hnative : namespace_ ≠ "task") :
    ((Service.checkGrants service proof s.work namespace_ method s.action).interpret
      (Native.serve cfg)).Obeys (monitor s) (Checked s service proof rows) rows := by
  unfold Service.checkGrants
  refine service_told rfl (fun _ h => h) ?_
  split
  · rename_i hdenied
    apply rejected_checked
    intro admitted h
    obtain ⟨method', hsplit', hgranted⟩ := h.granted
    rw [hsplit] at hsplit'
    cases hsplit'
    simp [hgranted] at hdenied
  · rename_i hgranted
    split
    · rename_i htarget
      refine .inr ⟨fun admitted h => ?_, by simp⟩
      rw [h.target] at htarget
      cases htarget
    · rename_i htarget
      exact checkCurrent_obeys hproof henvelope hsplit hnative (by simpa using hgranted)
        (Bool.eq_false_of_not_eq_true htarget)

/-- The checks of `executeAction` admit what they are meant to. -/
theorem checkAction_obeys (hnative : ∀ method, splitAction s.action.action ≠ some ("task", method))
    (hproof : proof.isComplete = true) :
    ((Service.checkAction service proof s.action).interpret (Native.serve cfg)).Obeys (monitor s)
      (Checked s service proof rows) rows := by
  unfold Service.checkAction
  apply Obeys.interpret_bind
  apply Obeys.mono (requireLease_obeys hproof)
  rintro _ _ ⟨rfl, leased, rfl, hwork⟩
  simp only [hwork]
  split
  · rename_i henvelope
    refine .inr ⟨fun admitted h => ?_, by simp⟩
    simp [h.envelope] at henvelope
  · rename_i henvelope
    split
    · rename_i hsplit
      refine .inr ⟨fun admitted h => ?_, by simp⟩
      obtain ⟨method, hsplit', -⟩ := h.granted
      simp [hsplit] at hsplit'
    · rename_i namespace_ method hsplit
      apply checkGrants_obeys hproof (by simpa using henvelope) hsplit
      rintro rfl
      exact hnative method hsplit

end Checks

/-! ## What no operation but the tool does -/

section Executions

variable {s : ActionSetting} {rows : ActionRows} {n : Nat} {β : Type}

@[simp] theorem put_executions (result : HostActionResult) :
    (rows.put result).executions = rows.executions := by
  unfold put
  split <;> rfl

@[simp] theorem restore_executions : rows.restore.executions = rows.executions := by
  unfold restore
  split <;> rfl

@[simp] theorem markInFlight_executions (result : HostActionResult) :
    (rows.markInFlight result).executions = rows.executions := by
  unfold markInFlight
  split <;> rfl

@[simp] theorem settleInFlight_executions (result : HostActionResult) :
    (rows.settleInFlight result).executions = rows.executions := by
  unfold settleInFlight
  split <;> rfl

theorem next_load (op : NativeOp) (answer : Except Failure op.Value) :
    (rows.next ⟨op, answer⟩).load = rows.load := by
  cases op with
  | service op =>
      cases op with
      | record =>
          simp only [next, put]
          split <;> rfl
      | _ => rfl
  | insertReceipt | markInFlight | settleInFlight | rollback =>
      simp only [next, put, ActionRows.markInFlight, ActionRows.settleInFlight, restore]
      split <;> rfl
  | _ => rfl

def isTool : NativeOp → Bool
  | .toolExecute _ _ _ => true
  | _ => false

theorem next_executions {op : NativeOp} (hop : isTool op = false) (answer : Except Failure op.Value) :
    (rows.next ⟨op, answer⟩).executions = rows.executions := by
  cases op with
  | service op => cases op <;> simp [next]
  | toolExecute => cases hop
  | _ => simp [next, ask]

/-- No operation of a call changes what else its tool is doing. -/
theorem keeps_load (p : Native β) :
    p.Obeys (monitor s) (fun rows' _ => rows'.load = rows.load) rows := by
  induction p generalizing rows with
  | done outcome => rfl
  | await op next ih =>
      refine ⟨trivial, fun answer _ => ?_⟩
      rw [← next_load op answer]
      exact ih answer

/-- An operation other than the tool, and what follows it. -/
theorem perform_keeps {op : NativeOp} {f : op.Value → Native β} (hop : isTool op = false)
    (hn : rows.executions = n) (hf : ∀ a rows', rows'.executions = n →
      (f a).Obeys (monitor s) (fun rows' _ => rows'.executions = n) rows') :
    (perform op >>= f).Obeys (monitor s) (fun rows' _ => rows'.executions = n) rows := by
  have hnext : ∀ answer, (rows.next ⟨op, answer⟩).executions = n :=
    fun answer => (next_executions hop answer).trans hn
  apply Obeys.perform_bind trivial
  · exact fun e _ => hnext _
  · exact fun a _ => hf a _ (hnext _)

/-- An operation of the service, which runs no tool, and what follows it. -/
theorem service_keeps {cfg : ExecutorConfig} {op : ServiceOp} {f : op.Value → Service β}
    (hserve : Native.serve cfg op = Native.await (.service op)) (hn : rows.executions = n)
    (hf : ∀ a rows', rows'.executions = n → ((f a).interpret (Native.serve cfg)).Obeys (monitor s)
      (fun rows' _ => rows'.executions = n) rows') :
    ((Service.await op >>= f).interpret (Native.serve cfg)).Obeys (monitor s)
      (fun rows' _ => rows'.executions = n) rows := by
  have hnext : ∀ answer : Except Failure op.Value,
      (rows.next ⟨.service op, answer⟩).executions = n := by
    intro answer
    rw [← hn]
    exact @next_executions rows (.service op) rfl answer
  apply service_obeys hserve
  · exact fun e _ => hnext _
  · exact fun a _ => hf a _ (hnext _)

end Executions

end ActionRows

end LingxiOS
