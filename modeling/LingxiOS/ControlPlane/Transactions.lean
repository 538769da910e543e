-- SUMMARY: Transactional effects are committed once, with a receipt.
import LingxiOS.ControlPlane.NativeCalls

/-! # Transactions

A call commits only a transaction in which it found a final receipt, asked for an
approval, or executed the tool and wrote the result of that execution. Whoever
writes the receipt saw it unsettled and keeps the others from writing it, so that
the first execution that is committed stays the only one. -/

namespace LingxiOS

open Program

/-! ## What a call knows of its transaction -/

/-- How far a call has come in its transaction. -/
inductive Stage where
  | idle
  | opened (conn : Nat)
  | read (conn : Nat) (prior : Option HostActionResult)
  | executed (conn : Nat) (prior : Option HostActionResult) (result : HostActionResult)
  | written (conn : Nat) (prior ran : Option HostActionResult) (result : HostActionResult)

structure CallState where
  stage : Stage := .idle
  /-- The call has seen a final receipt. -/
  settled : Bool := false

namespace Stage

def conn : Stage → Option Nat
  | .idle => none
  | .opened conn | .read conn _ | .executed conn _ _ | .written conn _ _ _ => some conn

/-- The transaction of a call that has not executed the tool in it. -/
def checking : Stage → Option Nat
  | .opened conn | .read conn _ => some conn
  | _ => none

/-- What the transaction of the call must be like, while it is there. -/
def Expects (t : Transaction) : Stage → Prop
  | .idle => True
  | .opened _ => t.receipt = none ∧ t.effects = [] ∧ t.committing = false
  | .read _ prior =>
      t.receipt = none ∧ t.effects = [] ∧ t.committing = false ∧ t.snapshot = some prior
  | .executed _ prior result =>
      t.receipt = none ∧ t.effects = [.ok result] ∧ t.committing = false
        ∧ t.snapshot = some prior
  | .written _ prior ran result =>
      t.receipt = (if prior.any HostActionResult.isFinal then none else some result)
        ∧ t.effects = ran.toList.map .ok ∧ t.committing = false ∧ t.snapshot = some prior
        ∧ t.aborted = false

/-- A call may send `COMMIT` where it found a final receipt, where an approval is
    asked for, and where the execution of the tool succeeded. -/
def MayCommit : Stage → Prop
  | .written _ prior ran result =>
      (ran = none ∧ (prior.any HostActionResult.isFinal = true ∧ prior = some result
        ∨ result.isFinal = false))
      ∨ (ran = some result ∧ result.isSuccess = true
        ∧ prior.any HostActionResult.isFinal = false)
  | _ => False

end Stage

/-- What the calls may await, and what they learn. An execution whose result waits
    for an approval of its own is not trusted. -/
def transactional : Monitor NativeOp NativeOp.Value Failure CallState where
  allows m op := match op with
    | .begin_ conn _ => m.stage = .opened conn
    | .setTimeouts conn => m.stage = .opened conn
    | .selectReceipt conn _ => m.stage = .opened conn
    | .toolExecute conn _ _ => ∃ c prior, conn = some c ∧ m.stage = .read c prior
        ∧ prior.any HostActionResult.isFinal = false
    | .insertReceipt conn _ _ =>
        ∃ prior, m.stage = .read conn prior ∨ ∃ result, m.stage = .executed conn prior result
    | .commit conn => m.stage.conn = some conn ∧ m.stage.MayCommit
    | .service (.record _ result) => result.isSuccess = true → m.settled = true
    | .markInFlight _ _ _ | .settleInFlight _ _ => False
    | op => ∀ c, NativeDb.connection op = some c → m.stage.checking = some c
  trusts _ event := match event with
    | ⟨.toolExecute _ _ _, .ok result⟩ => result.isFinal = true
    | _ => True
  next m event := match event with
    | ⟨.connect, .ok conn⟩ => { m with stage := .opened conn }
    | ⟨.selectReceipt conn _, .ok prior⟩ => { m with stage := .read conn prior }
    | ⟨.toolExecute _ _ _, .ok result⟩ => match m.stage with
        | .read conn prior => { m with stage := .executed conn prior result }
        | _ => m
    | ⟨.insertReceipt _ _ result, .ok ()⟩ => match m.stage with
        | .read conn prior => { m with stage := .written conn prior none result }
        | .executed conn prior ran => { m with stage := .written conn prior (some ran) result }
        | _ => m
    | ⟨.commit _, .ok ()⟩ => match m.stage with
        | .written _ _ _ result => { stage := .idle, settled := m.settled || result.isFinal }
        | _ => m
    | ⟨.connect, .error _⟩ | ⟨.toolExecute _ _ _, .error _⟩ | ⟨.insertReceipt _ _ _, .error _⟩
    | ⟨.commit _, .error _⟩ | ⟨.rollback _, _⟩ => { m with stage := .idle }
    | _ => m

/-! ## A call keeps to its transaction -/

namespace Native

section Calls

variable {cfg : ExecutorConfig} {tool : NativeTool} {conn : Nat} {work : TurnWork}
  {action : HostAction} {input : JsonObject} {settled : Bool}

/-- A statement that tells the call nothing about its transaction. -/
def NativeOp.isNeutral : NativeOp → Bool
  | .lockAction _ _ _ | .selectIntent _ _ | .insertApproval _ _ _ _ _ | .selectApproval _ _
  | .authorizeConversation _ _ | .assertObservation _ _ _ | .throwIfAborted | .authorize _ _ _
  | .preview _ _ _ | .acquire _ _ => true
  | _ => false

/-- A neutral statement, and what follows it. -/
theorem neutral_obeys {β : Type} {op : NativeOp} {f : op.Value → Native β} {m : CallState}
    {post : CallState → Except Failure β → Prop} (hop : NativeOp.isNeutral op = true)
    (hconn : ∀ c, NativeDb.connection op = some c → m.stage.checking = some c)
    (herror : ∀ e, post m (.error e)) (hok : ∀ a, (f a).Obeys transactional post m) :
    (await op >>= f).Obeys transactional post m := by
  have hsame : ∀ answer, transactional.next m ⟨op, answer⟩ = m := by
    intro answer
    cases op <;> first | rfl | cases hop
  apply Obeys.perform_bind
  · cases op <;> first | exact hconn | cases hop
  · intro e _
    rw [hsame]
    exact herror e
  · intro a _
    rw [hsame]
    exact hok a

theorem assertToolContract_obeys {m : CallState} (hconn : m.stage.checking = some conn) : (assertToolContract cfg tool (some conn) action).Obeys
    transactional (fun m' _ => m' = m) m := by
  unfold assertToolContract
  refine neutral_obeys rfl (fun _ => hconn.trans) (fun _ => rfl) fun intent => ?_
  split
  · rfl
  · rfl

/-- The approval changes nothing about the transaction, and answers with no success. -/
theorem approvalGate_obeys {m : CallState} (hconn : m.stage.checking = some conn) : (approvalGate cfg tool conn action input).Obeys
    transactional (fun m' outcome => m' = m ∧ ∀ pending, outcome = .ok (some pending) →
      pending.ok = false) m := by
  have hnone : ∀ {outcome : Except Failure (Option HostActionResult)},
      (∀ pending, outcome ≠ .ok (some pending)) →
        m = m ∧ ∀ pending, outcome = .ok (some pending) → pending.ok = false :=
    fun h => ⟨rfl, fun pending heq => absurd heq (h pending)⟩
  unfold approvalGate
  split
  · exact hnone (by simp)
  · refine neutral_obeys rfl (fun _ => hconn.trans) (fun _ => hnone (by simp)) fun preview => ?_
    split
    · exact hnone (by simp)
    · refine neutral_obeys rfl (fun _ => hconn.trans) (fun _ => hnone (by simp)) fun _ => ?_
      refine neutral_obeys rfl (fun _ => hconn.trans) (fun _ => hnone (by simp)) fun approval => ?_
      split
      · exact hnone (by simp)
      · split
        · refine ⟨rfl, fun pending h => ?_⟩
          cases h
          rfl
        · refine ⟨rfl, fun pending h => ?_⟩
          cases h
          rfl
        · split
          · exact hnone (by simp)
          · exact hnone (by simp)

/-- The tool runs at most once in its transaction, and what it does not run for is no success. -/
theorem run_obeys {prior : Option HostActionResult} (hprior : prior.any HostActionResult.isFinal = false) :
    (run cfg tool conn work action input).Obeys transactional (fun m outcome =>
      m.settled = settled ∧ ∀ result, outcome = .ok result →
        (m.stage = .read conn prior ∧ result.ok = false)
          ∨ (m.stage = .executed conn prior result ∧ result.isFinal = true))
      ⟨.read conn prior, settled⟩ := by
  have herror : ∀ (m : CallState) (e : Failure), m.settled = settled → m.settled = settled ∧
      ∀ result, (.error e : Except Failure HostActionResult) = .ok result →
        (m.stage = .read conn prior ∧ result.ok = false)
          ∨ (m.stage = .executed conn prior result ∧ result.isFinal = true) :=
    fun m e hm => ⟨hm, fun result h => by cases h⟩
  unfold run
  refine neutral_obeys rfl (fun _ h => h) (fun e => herror _ e rfl) fun _ => ?_
  apply Obeys.bind
  apply Obeys.mono (assertToolContract_obeys rfl)
  rintro m outcome rfl
  cases outcome with
  | error e => exact herror _ e rfl
  | ok _ =>
      refine neutral_obeys rfl (fun _ h => h) (fun e => herror _ e rfl) fun _ => ?_
      refine neutral_obeys rfl (fun _ h => h) (fun e => herror _ e rfl) fun _ => ?_
      refine neutral_obeys rfl (fun _ h => by cases h) (fun e => herror _ e rfl) fun _ => ?_
      apply Obeys.bind
      apply Obeys.mono (approvalGate_obeys rfl)
      rintro m outcome ⟨rfl, hpending⟩
      cases outcome with
      | error e => exact herror _ e rfl
      | ok pending =>
          cases pending with
          | some pending =>
              refine ⟨rfl, fun result h => ?_⟩
              cases h
              exact .inl ⟨rfl, hpending pending rfl⟩
          | none =>
              apply Obeys.perform
              · exact ⟨conn, prior, rfl, rfl, hprior⟩
              · intro answer htrust
                cases answer with
                | error e => exact herror _ e rfl
                | ok result =>
                    refine ⟨rfl, fun result' h => ?_⟩
                    cases h
                    exact .inr ⟨rfl, htrust⟩

/-- What a transaction has come to before its `COMMIT`. -/
def Prepared (conn : Nat) (settled : Bool) (m : CallState) :
    Except Failure (HostActionResult ⊕ HostActionResult) → Prop
  | .error _ => m.settled = settled
  | .ok (.inl refused) => m.settled = settled ∧ refused.ok = false
  | .ok (.inr result) => m.settled = settled
      ∧ ∃ prior ran, m.stage = .written conn prior ran result ∧ m.stage.MayCommit

/-- The end of the transaction, for a result that was found or produced in it. -/
theorem finish_obeys {m : CallState} {result : HostActionResult}
    {prior ran : Option HostActionResult} (hm : m.settled = settled)
    (hstage : m.stage = .read conn prior ∧ ran = none
      ∨ ∃ r, m.stage = .executed conn prior r ∧ ran = some r)
    (hcommit : ¬(!result.ok && result.approval.isNone) = true →
      (Stage.written conn prior ran result).MayCommit) :
    Program.Obeys transactional (Prepared conn settled) m (do
      await .throwIfAborted
      if result.isUnknown then noEffect "transactional tool must return a settled result"
      else if !result.ok && result.approval.isNone then do
        await (.rollback conn)
        pure (.inl { result with executionState := some .noEffect })
      else do
        await (.insertReceipt conn action.idempotencyKey result)
        pure (.inr result)) := by
  refine neutral_obeys rfl (fun _ h => by cases h) (fun _ => hm) fun _ => ?_
  split
  · exact hm
  · split
    · rename_i hfailed
      rw [Bool.and_eq_true, Bool.not_eq_true'] at hfailed
      apply Obeys.perform_bind (fun c hc => by cases hc)
      · intro e _
        exact hm
      · intro _ _
        exact ⟨hm, hfailed.1⟩
    · rename_i hwritten
      apply Obeys.perform_bind
      · rcases hstage with ⟨hread, -⟩ | ⟨r, hexecuted, -⟩
        · exact ⟨prior, .inl hread⟩
        · exact ⟨prior, .inr ⟨r, hexecuted⟩⟩
      · intro e _
        exact hm
      · intro _ _
        rcases hstage with ⟨hread, rfl⟩ | ⟨r, hexecuted, rfl⟩
        · refine ⟨?_, prior, none, ?_, ?_⟩
          · simp [transactional, hread, hm]
          · simp [transactional, hread]
          · simpa [transactional, hread] using hcommit hwritten
        · refine ⟨?_, prior, some r, ?_, ?_⟩
          · simp [transactional, hexecuted, hm]
          · simp [transactional, hexecuted]
          · simpa [transactional, hexecuted] using hcommit hwritten

theorem writeReceipt_obeys : (writeReceipt cfg tool conn work action input).Obeys transactional
    (Prepared conn settled) ⟨.opened conn, settled⟩ := by
  unfold writeReceipt
  apply Obeys.perform_bind rfl
  · intro e _
    rfl
  · intro _ _
    apply Obeys.perform_bind rfl
    · intro e _
      rfl
    · intro _ _
      refine neutral_obeys rfl (fun _ h => h) (fun _ => rfl) fun _ => ?_
      apply Obeys.perform_bind rfl
      · intro e _
        rfl
      · intro prior _
        cases hprior : prior.filter (fun previous => previous.approval.isNone) with
        | some previous =>
            obtain ⟨rfl, hfinal⟩ := Option.filter_eq_some_iff.1 hprior
            apply finish_obeys rfl (.inl ⟨rfl, rfl⟩)
            intro _
            exact .inl ⟨rfl, .inl ⟨hfinal, rfl⟩⟩
        | none =>
            have hunsettled : prior.any HostActionResult.isFinal = false := by
              cases prior with
              | none => rfl
              | some previous => exact Bool.eq_false_of_not_eq_true (Option.filter_eq_none_iff.1 hprior previous rfl)
            apply Obeys.bind
            apply Obeys.mono (run_obeys hunsettled)
            rintro m outcome ⟨hm, hran⟩
            cases outcome with
            | error e => exact hm
            | ok result =>
                rcases hran result rfl with ⟨hread, hfailed⟩ | ⟨hexecuted, hfinal⟩
                · apply finish_obeys hm (.inl ⟨hread, rfl⟩)
                  intro hwritten
                  refine .inl ⟨rfl, .inr ?_⟩
                  rw [hfailed, Bool.not_false, Bool.true_and] at hwritten
                  exact Bool.eq_false_of_not_eq_true hwritten
                · apply finish_obeys hm (.inr ⟨result, hexecuted, rfl⟩)
                  intro hwritten
                  have hfinal' : result.approval.isNone = true := hfinal
                  have hok : result.ok = true := by simpa [hfinal'] using hwritten
                  exact .inr ⟨rfl, by simp [HostActionResult.isSuccess, hok, hfinal], hunsettled⟩

/-- After its transaction a call is idle, and a success it answers with is settled. -/
def Finished (settled : Bool) (m : CallState) (outcome : Except Failure HostActionResult) : Prop :=
  (settled = true → m.settled = true) ∧
    ∀ result, outcome = .ok result → result.isSuccess = true → m.settled = true

theorem executeTransaction_obeys {m : CallState} (hm : m.settled = settled) :
    (executeTransaction cfg tool work action input).Obeys transactional (Finished settled) m := by
  have hended : ∀ {m : CallState} {outcome : Except Failure HostActionResult},
      m.settled = settled → (∀ result, outcome = .ok result → result.ok = false) →
        Finished settled m outcome := by
    intro m outcome hm hfailed
    refine ⟨fun h => hm.trans h, fun result h hsuccess => ?_⟩
    simp [HostActionResult.isSuccess, hfailed result h] at hsuccess
  unfold executeTransaction
  apply Obeys.perform_bind (fun c hc => by cases hc)
  · intro e _
    exact hended hm (by simp)
  · intro conn _
    apply Obeys.bind
    apply Obeys.attempt
    have hopened : transactional.next m ⟨.connect, .ok conn⟩ = ⟨.opened conn, settled⟩ := by
      simp [transactional, hm]
    rw [hopened]
    apply Obeys.mono writeReceipt_obeys
    intro m outcome hprepared
    cases outcome with
    | error e =>
        apply Obeys.perform_bind (fun c hc => by cases hc)
        · intro e _
          exact hended hprepared (by simp)
        · intro _ _
          cases e <;> exact hended hprepared (by simp)
    | ok prepared =>
        cases prepared with
        | inl refused =>
            obtain ⟨hm, hfailed⟩ := hprepared
            refine hended hm (fun result h => ?_)
            cases h
            exact hfailed
        | inr result =>
            obtain ⟨hm, prior, ran, hstage, hmay⟩ := hprepared
            apply Obeys.perform_bind
            · refine ⟨?_, hmay⟩
              simp [hstage, Stage.conn]
            · intro e _
              exact hended hm (by simp)
            · intro _ _
              simp only [transactional, hstage]
              refine ⟨fun h => by simp [hm, h], fun result' h hsuccess => ?_⟩
              cases h
              rw [HostActionResult.isSuccess, Bool.and_eq_true] at hsuccess
              simp [hsuccess.2]

theorem execute_obeys {m : CallState} (htransactional : cfg.Transactional action)
    (hm : m.settled = settled) :
    (execute cfg work action).Obeys transactional (Finished settled) m := by
  obtain ⟨-, tool, htool, heffect⟩ := htransactional
  unfold execute
  rw [htool]
  dsimp only
  split
  · exact ⟨fun h => hm.trans h, fun result h => by cases h⟩
  · rw [if_pos heffect]
    exact executeTransaction_obeys hm

end Calls

/-! ## A call records what it knows -/

/-- A success is recorded only after an execution that answered with one. -/
def successesExecuted (action : HostAction) :
    Monitor ServiceOp ServiceOp.Value Failure Bool where
  allows executed op := match op with
    | .execute _ asked _ => asked = action
    | .taskAction _ _ _ => False
    | .record _ result => result.isSuccess = true → executed = true
    | _ => True
  trusts _ _ := True
  next executed event := match event with
    | ⟨.execute _ _ _, .ok result⟩ => executed || result.isSuccess
    | _ => executed

section Service

open Service

variable {service : ServiceConfig} {cfg : ExecutorConfig} {action : HostAction} {executed : Bool}

theorem checks_successes : AllowsChecks (successesExecuted action) (fun _ => True) := by
  intro m op answer _ hop
  refine ⟨?_, trivial⟩
  cases op <;> trivial

theorem refusals_successes : AllowsRefusals (successesExecuted action) (fun _ => True) action := by
  apply refusals_of_record (fun _ _ _ => ⟨trivial, trivial⟩)
  intro executed result answer _ hfailed
  refine ⟨fun hsuccess => ?_, trivial⟩
  simp [HostActionResult.isSuccess, hfailed] at hsuccess

theorem reads_successes : AllowsReads (successesExecuted action) (fun _ => True) where
  lookup := by
    intro m op answer _ hop
    refine ⟨?_, trivial⟩
    cases op <;> trivial
  resolution _ _ _ _ := ⟨trivial, trivial⟩

theorem runAction_successes {admitted : Admitted} (hnative : admitted.namespace_ ≠ "task") :
    (runAction admitted action).Obeys (successesExecuted action) (fun _ _ => True) executed := by
  unfold runAction dispatch
  rw [if_neg hnative]
  apply Obeys.attempt_bind rfl
  intro outcome _
  apply Obeys.perform_bind
  · intro hsuccess
    cases outcome with
    | ok result => simp [successesExecuted, hsuccess]
    | error failure => simp [failedReceipt, HostActionResult.isSuccess] at hsuccess
  · intro _ _
    trivial
  · intro _ _
    trivial

theorem executeAction_successes {proof : LeaseProof} (hnative : cfg.Transactional action) :
    (Service.executeAction service proof action).Obeys (successesExecuted action)
      (fun _ _ => True) executed := by
  unfold Service.executeAction
  apply Obeys.bind
  apply Obeys.mono (checkAction_obeys_of (Q := fun _ => True) checks_successes refusals_successes
    trivial (fun _ _ _ => trivial))
  rintro executed outcome ⟨-, hadmitted⟩
  cases outcome with
  | error e => trivial
  | ok admission =>
      cases admission with
      | inl answer => trivial
      | inr admitted =>
          obtain ⟨leased, method, -, -, -, hsplit⟩ := hadmitted admitted rfl
          have hnamespace : admitted.namespace_ ≠ "task" := by
            intro htask
            exact hnative.1 method (by rw [hsplit, htask])
          exact settleAdmitted_obeys reads_successes refusals_successes
            (fun _ _ _ _ _ => ⟨trivial, trivial⟩) (fun _ _ => runAction_successes hnamespace) trivial

/-- What the call knows of the receipt, the service knows too. -/
theorem executeAction_obeys {proof : LeaseProof} (hnative : cfg.Transactional action) :
    (executeAction service cfg proof action).Obeys transactional (fun _ _ => True) {} := by
  have hservice : (Service.executeAction service proof action).Obeys (successesExecuted action)
      (fun _ _ => True) false := executeAction_successes hnative
  apply Obeys.mono (Obeys.interpret (I := fun executed m => executed = true → m.settled = true)
    _ hservice (by simp)) (fun _ => trivial)
  intro executed op m hallows hknown
  cases op with
  | execute work asked version =>
      have hasked : asked = action := hallows
      subst hasked
      apply Obeys.mono (execute_obeys hnative rfl)
      rintro m' outcome ⟨hkept, hsuccess⟩
      refine ⟨trivial, ?_⟩
      cases outcome with
      | error e => exact fun h => hkept (hknown h)
      | ok result =>
          intro h
          rcases Bool.or_eq_true_iff.1 h with h | h
          · exact hkept (hknown h)
          · exact hsuccess result rfl h
  | record key result => exact ⟨fun h => hknown (hallows h), fun _ _ => ⟨trivial, hknown⟩⟩
  | _ => exact ⟨nofun, fun _ _ => ⟨trivial, hknown⟩⟩

end Service

end Native

/-! ## The database stays sound -/

/-- What may be committed: a receipt that waits for an approval or none at all, or
    the one success of the tool with its receipt. -/
def Transaction.MayCommit (t : Transaction) : Prop :=
  (t.effects = [] ∧ t.receipt.any HostActionResult.isFinal = false)
    ∨ ∃ receipt, t.effects = [.ok receipt] ∧ t.receipt = some receipt ∧ receipt.isSuccess = true

namespace NativeDb

variable {db db' : NativeDb} {conn : Nat} {t t' : Transaction}

/-- The effects of one execution are committed, and its result is the receipt; or
    no effects are, and the receipt is no success. -/
def Agrees (db : NativeDb) : Prop :=
  (db.effects = [] ∧ ∀ receipt, db.receipt = some receipt → receipt.isSuccess = false)
    ∨ ∃ receipt, db.effects = [.ok receipt] ∧ db.receipt = some receipt ∧ receipt.isSuccess = true

structure Sound (db : NativeDb) : Prop where
  agrees : db.Agrees
  /-- Who writes the receipt found it unsettled, and keeps the others out. -/
  writers : ∀ conn t, db.transactions conn = some t → t.receipt.isSome →
    db.settled = false ∧ db.Unlocked (some conn)
  committing : ∀ conn t, db.transactions conn = some t → t.committing = true → t.MayCommit
  fresh : ∀ conn t, db.transactions conn = some t → conn < db.next

/-- Everything that ever happens to the database. -/
inductive Moves (db : NativeDb) : NativeDb → Prop
  | next {next : Nat} (hle : db.next ≤ next) : Moves db { db with next := next }
  | closed (conn : Nat) : Moves db (db.close conn)
  | began {conn : Nat} (hlt : conn < db.next) : Moves db (db.put conn {})
  | changed {conn : Nat} {t t' : Transaction} (hopen : db.transactions conn = some t)
      (hreceipt : t'.receipt = t.receipt) (hcommitting : t'.committing = true → t'.MayCommit) :
      Moves db (db.put conn t')
  | wrote {conn : Nat} {t t' : Transaction} (hopen : db.transactions conn = some t)
      (hunlocked : db.Unlocked (some conn)) (hsettled : db.settled = false)
      (hcommitting : t'.committing = false) : Moves db (db.put conn t')
  | committed {conn : Nat} {t : Transaction} (hopen : db.transactions conn = some t)
      (hmay : t.MayCommit) : Moves db (db.committed conn t)
  | recorded {result : HostActionResult} (hunlocked : db.Unlocked none)
      (hfailed : db.settled = false → result.isSuccess = false) : Moves db (db.recorded result)

theorem settled_of_isSuccess {receipt : HostActionResult} (h : db.receipt = some receipt)
    (hsuccess : receipt.isSuccess = true) : db.settled = true := by
  rw [HostActionResult.isSuccess, Bool.and_eq_true] at hsuccess
  simp [settled, h, hsuccess.2]

/-- Before a final receipt nothing is committed. -/
theorem Agrees.effects_eq_nil (h : db.Agrees) (hsettled : db.settled = false) : db.effects = [] := by
  rcases h with ⟨heffects, -⟩ | ⟨receipt, -, hreceipt, hsuccess⟩
  · exact heffects
  · rw [settled_of_isSuccess hreceipt hsuccess] at hsettled
    cases hsettled

theorem Sound.agrees_committed (h : db.Sound) (hopen : db.transactions conn = some t)
    (hmay : t.MayCommit) : (db.committed conn t).Agrees := by
  rcases hmay with ⟨heffects, hwaits⟩ | ⟨receipt, heffects, hreceipt, hsuccess⟩
  · cases hwritten : t.receipt with
    | none =>
        have hagrees := h.agrees
        simpa [Agrees, committed, close, heffects, hwritten] using hagrees
    | some receipt =>
        obtain ⟨hsettled, -⟩ := h.writers conn t hopen (by simp [hwritten])
        rw [hwritten] at hwaits
        left
        refine ⟨by simp [committed, close, heffects, h.agrees.effects_eq_nil hsettled], ?_⟩
        intro stored hstored
        have hsame : receipt = stored := by simpa [committed, hwritten] using hstored
        subst hsame
        simpa [HostActionResult.isSuccess] using fun _ => hwaits
  · obtain ⟨hsettled, -⟩ := h.writers conn t hopen (by simp [hreceipt])
    right
    refine ⟨receipt, ?_, ?_, hsuccess⟩
    · simp [committed, close, heffects, h.agrees.effects_eq_nil hsettled]
    · simp [committed, hreceipt]

/-- A final receipt stays what it is. -/
theorem Sound.receipt_eq (h : db.Sound) (hmoves : db.Moves db') (hsettled : db.settled = true) :
    db'.receipt = db.receipt := by
  cases hmoves with
  | next | closed | began | changed | wrote => rfl
  | @committed conn t hopen hmay =>
      have hnone : t.receipt = none := by
        by_contra hwritten
        have hunsettled := (h.writers conn t hopen (Option.isSome_iff_ne_none.2 hwritten)).1
        simp [hsettled] at hunsettled
      simp [NativeDb.committed, hnone]
  | recorded => simp [recorded, hsettled]

theorem Sound.settled_mono (h : db.Sound) (hmoves : db.Moves db') (hsettled : db.settled = true) :
    db'.settled = true := by
  unfold settled at hsettled ⊢
  rwa [h.receipt_eq hmoves hsettled]

/-- The transactions after a step are those before it, but for one connection. -/
theorem transactions_put {c : Nat} {u : Transaction}
    (h : (db.put conn t).transactions c = some u) :
    (c = conn ∧ u = t) ∨ (c ≠ conn ∧ db.transactions c = some u) := by
  by_cases hc : c = conn
  · subst hc
    simp only [put, Function.update_self, Option.some.injEq] at h
    exact .inl ⟨rfl, h.symm⟩
  · have hsame : (db.put conn t).transactions c = db.transactions c := Function.update_of_ne hc _ _
    rw [hsame] at h
    exact .inr ⟨hc, h⟩

theorem transactions_close {c : Nat} {u : Transaction}
    (h : (db.close conn).transactions c = some u) : c ≠ conn ∧ db.transactions c = some u := by
  by_cases hc : c = conn
  · subst hc
    simp [close] at h
  · have hsame : (db.close conn).transactions c = db.transactions c := Function.update_of_ne hc _ _
    rw [hsame] at h
    exact ⟨hc, h⟩

theorem Unlocked.close {except : Option Nat} (h : db.Unlocked except) (conn : Nat) :
    (db.close conn).Unlocked except :=
  fun c u hopen => h c u (transactions_close hopen).2

/-- Every step keeps the database sound. -/
theorem Sound.step (h : db.Sound) (hmoves : db.Moves db') : db'.Sound := by
  cases hmoves with
  | next hle =>
      exact ⟨h.agrees, h.writers, h.committing,
        fun conn t hopen => (h.fresh conn t hopen).trans_le hle⟩
  | closed conn =>
      constructor
      · exact h.agrees
      · intro c u hopen hwrites
        obtain ⟨hsettled, hunlocked⟩ := h.writers c u (transactions_close hopen).2 hwrites
        exact ⟨hsettled, hunlocked.close conn⟩
      · exact fun c u hopen => h.committing c u (transactions_close hopen).2
      · exact fun c u hopen => h.fresh c u (transactions_close hopen).2
  | @began conn hlt =>
      constructor
      · exact h.agrees
      · intro c u hopen hwrites
        rcases transactions_put hopen with ⟨rfl, rfl⟩ | ⟨hne, hopen⟩
        · cases hwrites
        · obtain ⟨hsettled, hunlocked⟩ := h.writers c u hopen hwrites
          refine ⟨hsettled, fun c' u' hopen' hwrites' => ?_⟩
          rcases transactions_put hopen' with ⟨rfl, rfl⟩ | ⟨-, hopen'⟩
          · cases hwrites'
          · exact hunlocked c' u' hopen' hwrites'
      · intro c u hopen hcommitting
        rcases transactions_put hopen with ⟨rfl, rfl⟩ | ⟨-, hopen⟩
        · cases hcommitting
        · exact h.committing c u hopen hcommitting
      · intro c u hopen
        rcases transactions_put hopen with ⟨rfl, rfl⟩ | ⟨-, hopen⟩
        · exact hlt
        · exact h.fresh c u hopen
  | @changed conn t t' hopen₀ hreceipt hmay =>
      constructor
      · exact h.agrees
      · intro c u hopen hwrites
        have hbefore : ∃ v, db.transactions c = some v ∧ v.receipt.isSome := by
          rcases transactions_put hopen with ⟨rfl, rfl⟩ | ⟨-, hopen⟩
          · exact ⟨t, hopen₀, hreceipt ▸ hwrites⟩
          · exact ⟨u, hopen, hwrites⟩
        obtain ⟨v, hv, hvwrites⟩ := hbefore
        obtain ⟨hsettled, hunlocked⟩ := h.writers c v hv hvwrites
        refine ⟨hsettled, fun c' u' hopen' hwrites' => ?_⟩
        rcases transactions_put hopen' with ⟨rfl, rfl⟩ | ⟨-, hopen'⟩
        · exact hunlocked c' t hopen₀ (hreceipt ▸ hwrites')
        · exact hunlocked c' u' hopen' hwrites'
      · intro c u hopen hcommitting
        rcases transactions_put hopen with ⟨rfl, rfl⟩ | ⟨-, hopen⟩
        · exact hmay hcommitting
        · exact h.committing c u hopen hcommitting
      · intro c u hopen
        rcases transactions_put hopen with ⟨rfl, rfl⟩ | ⟨-, hopen⟩
        · exact h.fresh c t hopen₀
        · exact h.fresh c u hopen
  | @wrote conn t t' hopen₀ hunlocked₀ hsettled₀ hcommitting₀ =>
      -- Nobody else writes the receipt.
      have hunlocked : (db.put conn t').Unlocked (some conn) := by
        intro c u hopen hwrites
        rcases transactions_put hopen with ⟨rfl, rfl⟩ | ⟨-, hopen⟩
        · rfl
        · exact hunlocked₀ c u hopen hwrites
      constructor
      · exact h.agrees
      · intro c u hopen hwrites
        have hc : c = conn := Option.some.inj (hunlocked c u hopen hwrites)
        subst hc
        exact ⟨hsettled₀, hunlocked⟩
      · intro c u hopen hcommitting
        rcases transactions_put hopen with ⟨rfl, rfl⟩ | ⟨-, hopen⟩
        · simp [hcommitting₀] at hcommitting
        · exact h.committing c u hopen hcommitting
      · intro c u hopen
        rcases transactions_put hopen with ⟨rfl, rfl⟩ | ⟨-, hopen⟩
        · exact h.fresh c t hopen₀
        · exact h.fresh c u hopen
  | @committed conn t hopen₀ hmay =>
      constructor
      · exact h.agrees_committed hopen₀ hmay
      · intro c u hopen hwrites
        obtain ⟨hne, hopen⟩ := transactions_close hopen
        obtain ⟨hsettled, hunlocked⟩ := h.writers c u hopen hwrites
        -- The transaction that was committed wrote no receipt.
        have hnone : t.receipt = none := by
          by_contra hwritten
          exact hne (Option.some.inj
            (hunlocked conn t hopen₀ (Option.isSome_iff_ne_none.2 hwritten))).symm
        refine ⟨?_, Unlocked.close hunlocked conn⟩
        simpa [settled, NativeDb.committed, hnone] using hsettled
      · exact fun c u hopen => h.committing c u (transactions_close hopen).2
      · exact fun c u hopen => h.fresh c u (transactions_close hopen).2
  | @recorded result hunlocked hfailed =>
      unfold NativeDb.recorded
      split
      · exact h
      · rename_i hsettled
        have hunsettled : db.settled = false := by simpa using hsettled
        constructor
        · left
          refine ⟨h.agrees.effects_eq_nil hunsettled, ?_⟩
          intro receipt hreceipt
          cases hreceipt
          exact hfailed hunsettled
        · intro c u hopen hwrites
          cases hunlocked c u hopen hwrites
        · exact h.committing
        · exact h.fresh

end NativeDb

end LingxiOS
