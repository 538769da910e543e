-- SUMMARY: The application's transactions as steps of one system.
import LingxiOS.App.Input
import LingxiOS.App.Reopen
import LingxiOS.Collaboration.NewestVersion

/-! # Transactions

Each transaction is one step, and one that throws is rolled back. The statements that
insert and cancel runs keep every stored run with what it belongs to and its inputs. -/

namespace LingxiOS

namespace App

open Jobs (JobRow StoredRunIdentity EnqueueWorkInput)
open Conversations (IngressTables IMMessageInput)

/-- What the application is configured with. -/
structure AppConfig where
  sha256 : String → String
  tools : List ReconcilableTool

inductive Event where
  | enqueue (now : Int) (input : EnqueueWorkInput)
  | ingest (now : Int) (policyMeta : JsonObject) (input : IMMessageInput)
  | claim (now ttl : Int) (workId workerId tokenHash : String)
  | save (now : Int) (proof : LeaseProof) (session : SessionRecord)
  | settle (now : Int) (proof : LeaseProof) (status : WorkStatus) (error : Option String)
      (outcome : Option GoalOutcome)
  | cancel (now : Int) (identity : StoredRunIdentity)
  | revise (now : Int) (randomUUID : String) (identity : StoredRunIdentity) (text : String)
      (author : SteerAuthor)
  | continueInput (now : Int) (input : InputContinuation)
      (outcome : Except Collaboration.Failure Continued)
  | reserve (key fingerprint : String) (intent : ActionIntent)
  | record (key : String) (result : HostActionResult) (now : Int)
  | reconcile (now : Int) (identity : StoredRunIdentity) (actionKey : String)
  | recordResolution (identity : StoredRunIdentity) (resolution : ActionResolution)
  | reopen (now : Int) (identity : StoredRunIdentity) (actionKey : String)

/-- The tables after a transaction; one that throws is rolled back. -/
def committed {ε α : Type} (before : α) (result : Except ε α) : α :=
  match result with
  | .ok after => after
  | .error _ => before

/-- What holds before and of every result holds after. -/
theorem committed_of {ε α : Type} {P : α → Prop} {before : α} {result : Except ε α}
    (hbefore : P before) (h : ∀ after, result = .ok after → P after) : P (committed before result) := by
  cases result with
  | error e => exact hbefore
  | ok after => exact h after rfl

theorem committed_snd_of {ε α β : Type} {P : β → Prop} {before : β} {result : Except ε (α × β)}
    (hbefore : P before) (h : ∀ answer after, result = .ok (answer, after) → P after) :
    P (committed before (result.map Prod.snd)) := by
  refine committed_of hbefore fun after hafter => ?_
  obtain ⟨⟨answer, _⟩, hresult, rfl⟩ := Except.map_eq_ok_iff.1 hafter
  exact h answer _ hresult

def next (config : AppConfig) (db : Database) : Event → Database
  | .enqueue now input => db.withWorks (committed db.works (Jobs.enqueueWork now db.works input))
  | .ingest now policyMeta input =>
      { db with
        tables := committed db.tables
          ((Conversations.ingestMessage config.sha256 now policyMeta db.tables input).map Prod.snd) }
  | .claim now ttl workId workerId tokenHash => claim now ttl workId workerId tokenHash db
  | .save now proof session => (save now proof session db).2
  | .settle now proof status error outcome => settle now proof status error outcome db
  | .cancel now identity => db.withWorks (Jobs.cancelRun now db.works identity).1
  | .revise now randomUUID identity text author =>
      committed db ((reviseRun now randomUUID identity text author db).map Prod.snd)
  | .continueInput now input _ => committed db ((continueInput now db input).map Prod.snd)
  | .reserve key fingerprint intent =>
      { db with ledger := (db.ledger.reserve key fingerprint intent).2 }
  | .record key result now => { db with ledger := (db.ledger.record key result now).2 }
  | .reconcile now identity actionKey =>
      committed db ((reconcileAction config.tools now db identity actionKey).map Prod.snd)
  | .recordResolution identity resolution => committed db (recordResolution db identity resolution)
  | .reopen now identity actionKey => reopenResolved now db identity actionKey

/-- `randomUUID()`: hexadecimal digits and hyphens. -/
def IsUUID (s : String) : Prop := ∀ c ∈ s.toList, c.isAlphanum = true ∨ c = '-'

/-- What a label says of the step it is on. -/
def Event.Admits (db : Database) : Event → Prop
  | .revise _ randomUUID _ _ _ => IsUUID randomUUID
  | .continueInput now input outcome => outcome = (App.continueInput now db input).map Prod.fst
  | _ => True

/-- The application, from a database without runs. -/
def system (config : AppConfig) : TransitionSystem Database Event where
  start db := db.works = .empty ∧ db.leases = .empty ∧ db.sessions = .empty ∧ db.requests = .empty
    ∧ db.ledger = .init
  step db event db' := event.Admits db ∧ db' = next config db event

/-! ## Rows -/

/-- What a run belongs to. -/
structure SameRun (work work' : JobRow) : Prop where
  tenantId : work'.tenantId = work.tenantId
  agentId : work'.agentId = work.agentId
  sessionId : work'.sessionId = work.sessionId
  principalId : work'.principalId = work.principalId
  threadId : work'.threadId = work.threadId
  conversation : work'.conversation = work.conversation

theorem SameRun.refl (work : JobRow) : SameRun work work := ⟨rfl, rfl, rfl, rfl, rfl, rfl⟩

theorem SameRun.trans {a b c : JobRow} (h : SameRun a b) (h' : SameRun b c) : SameRun a c :=
  ⟨h'.tenantId.trans h.tenantId, h'.agentId.trans h.agentId, h'.sessionId.trans h.sessionId,
    h'.principalId.trans h.principalId, h'.threadId.trans h.threadId,
    h'.conversation.trans h.conversation⟩

/-- A run with the inputs it had. -/
structure SameInputs (work work' : JobRow) : Prop where
  run : SameRun work work'
  inputs : work'.steerInputs = work.steerInputs

theorem SameInputs.refl (work : JobRow) : SameInputs work work := ⟨.refl work, rfl⟩

theorem SameInputs.trans {a b c : JobRow} (h : SameInputs a b) (h' : SameInputs b c) :
    SameInputs a c := ⟨h.run.trans h'.run, h'.inputs.trans h.inputs⟩

/-- Every run stays with its inputs, and a new one has none. -/
structure Keeps (works works' : JsMap String JobRow) : Prop where
  rows : ∀ {id work}, works.get? id = some work →
    ∃ work', works'.get? id = some work' ∧ SameInputs work work'
  inserted : ∀ {id work'}, works'.get? id = some work' →
    (works.get? id).isSome = true ∨ work'.steerInputs = []

namespace Keeps

variable {works works' works'' : JsMap String JobRow}

theorem refl (works : JsMap String JobRow) : Keeps works works :=
  ⟨fun {_ work} h => ⟨work, h, .refl work⟩, fun h => .inl (Option.isSome_iff_exists.2 ⟨_, h⟩)⟩

theorem trans (h : Keeps works works') (h' : Keeps works' works'') : Keeps works works'' := by
  constructor
  · intro id work hwork
    obtain ⟨work', hwork', hsame⟩ := h.rows hwork
    obtain ⟨work'', hwork'', hsame'⟩ := h'.rows hwork'
    exact ⟨work'', hwork'', hsame.trans hsame'⟩
  · intro id work'' hwork''
    obtain hsome | hnone := h'.inserted hwork''
    · obtain ⟨work', hwork'⟩ := Option.isSome_iff_exists.1 hsome
      obtain hsome | hnone := h.inserted hwork'
      · exact .inl hsome
      · obtain ⟨found, hfound, hsame⟩ := h'.rows hwork'
        obtain rfl := Option.some.inj (hfound.symm.trans hwork'')
        exact .inr (hsame.inputs.trans hnone)
    · exact .inr hnone

theorem set {id : String} {work changed : JobRow} (hwork : works.get? id = some work)
    (hsame : SameInputs work changed) : Keeps works (works.set id changed) := by
  constructor
  · intro other row hrow
    rw [JsMap.get?_set]
    split
    · rename_i hother
      subst hother
      obtain rfl := Option.some.inj (hrow.symm.trans hwork)
      exact ⟨changed, rfl, hsame⟩
    · exact ⟨row, hrow, .refl row⟩
  · intro other row hrow
    rw [JsMap.get?_set] at hrow
    split at hrow
    · rename_i hother
      exact .inl (by rw [hother, hwork]; rfl)
    · exact .inl (Option.isSome_iff_exists.2 ⟨row, hrow⟩)

theorem mapValues {f : String → JobRow → JobRow} (h : ∀ id work, SameInputs work (f id work)) :
    Keeps works (works.mapValues f) := by
  constructor
  · intro id work hwork
    exact ⟨f id work, by rw [JsMap.get?_mapValues, hwork, Option.map_some], h id work⟩
  · intro id work' hwork'
    rw [JsMap.get?_mapValues] at hwork'
    obtain ⟨work, hwork, -⟩ := Option.map_eq_some_iff.1 hwork'
    exact .inl (Option.isSome_iff_exists.2 ⟨work, hwork⟩)

theorem modify {f : JobRow → JobRow} (id : String) (h : ∀ work, SameInputs work (f work)) :
    Keeps works (works.modify id f) := by
  refine mapValues fun other work => ?_
  split
  · exact h work
  · exact .refl work

theorem enqueueWork {now : Int} {input : EnqueueWorkInput}
    (h : Jobs.enqueueWork now works input = .ok works') : Keeps works works' := by
  obtain ⟨-, hkept, hfound⟩ := Jobs.enqueueWork_ok h
  constructor
  · intro id work hwork
    exact ⟨work, hkept id work hwork, .refl work⟩
  · intro id work' hwork'
    obtain hold | ⟨-, rfl⟩ := hfound id work' hwork'
    · exact .inl (Option.isSome_iff_exists.2 ⟨work', hold⟩)
    · exact .inr rfl

theorem sameInputs_cancelled (now : Int) (gap : String) (work : JobRow) :
    SameInputs work (Jobs.cancelled now gap work) := ⟨⟨rfl, rfl, rfl, rfl, rfl, rfl⟩, rfl⟩

theorem cancelDescendants (now : Int) (works : JsMap String JobRow) (parentId : String) :
    Keeps works (Jobs.cancelDescendants now works parentId) := by
  unfold Jobs.cancelDescendants
  refine mapValues fun id work => ?_
  split
  · exact sameInputs_cancelled now _ work
  · exact .refl work

theorem cancelRun (now : Int) (works : JsMap String JobRow) (identity : StoredRunIdentity) :
    Keeps works (Jobs.cancelRun now works identity).1 := by
  unfold Jobs.cancelRun
  split
  · rename_i work hwork
    split
    · exact (set hwork (sameInputs_cancelled now _ work)).trans (cancelDescendants now _ _)
    · exact refl works
  · exact refl works

theorem supersede (now : Int) (works : JsMap String JobRow) (workId : String) :
    Keeps works (Conversations.supersede now works workId) := by
  unfold Conversations.supersede
  split
  · rename_i work hwork
    exact (cancelRun now works work.identity).trans
      (modify workId fun row => ⟨⟨rfl, rfl, rfl, rfl, rfl, rfl⟩, rfl⟩)
  · exact refl works

theorem foldl_supersede (now : Int) (ids : List String) (works : JsMap String JobRow) :
    Keeps works (ids.foldl (Conversations.supersede now) works) := by
  induction ids generalizing works with
  | nil => exact refl works
  | cons id ids ih => exact (supersede now works id).trans (ih _)

end Keeps

/-! ## Ingestion -/

/-- Tables with the same conversations, and every run. -/
structure KeepsTables (tables tables' : IngressTables) : Prop where
  works : Keeps tables.works tables'.works
  conversations : tables'.conversations = tables.conversations
  threads : tables'.threads = tables.threads

theorem KeepsTables.refl (tables : IngressTables) : KeepsTables tables tables :=
  ⟨.refl _, rfl, rfl⟩

theorem KeepsTables.trans {a b c : IngressTables} (h : KeepsTables a b) (h' : KeepsTables b c) :
    KeepsTables a c :=
  ⟨h.works.trans h'.works, h'.conversations.trans h.conversations, h'.threads.trans h.threads⟩

section

variable {now : Int} {policyMeta : JsonObject} {policy : Conversations.Policy}
  {audience : Conversations.Audience} {message : IMMessageInput} {tables tables' : IngressTables}

theorem keeps_cancelOlder (now : Int) (tables : IngressTables) (message : IMMessageInput) :
    KeepsTables tables (Conversations.cancelOlder now tables message) := by
  unfold Conversations.cancelOlder
  split
  · exact ⟨.foldl_supersede now _ _, rfl, rfl⟩
  · exact .refl tables

theorem keeps_createRun {run : StoredRunIdentity}
    (h : Conversations.createRun now policyMeta policy audience message tables run = .ok tables') :
    KeepsTables tables tables' := by
  simp only [Conversations.createRun, Except.bind_eq_ok_iff, Except.mapError_eq_ok_iff] at h
  obtain ⟨works, hworks, -, -, hresult⟩ := h
  cases hresult
  exact ⟨.enqueueWork hworks, rfl, rfl⟩

theorem keeps_ingestMessage {sha256 : String → String} {input : IMMessageInput}
    {outcome : Conversations.IMIngressResult}
    (h : Conversations.ingestMessage sha256 now policyMeta tables input = .ok (outcome, tables')) :
    KeepsTables tables tables' := by
  simp only [Conversations.ingestMessage, Except.bind_eq_ok_iff] at h
  obtain ⟨⟨⟩, -, message, -, policy, -, ⟨⟩, -, h⟩ := h
  cases hprior : tables.messages.get? input.key with
  | some prior =>
      simp only [hprior, Except.bind_eq_ok_iff] at h
      obtain ⟨-, -, hresult⟩ := h
      cases hresult
      exact .refl tables
  | none =>
      simp only [hprior, Except.bind_eq_ok_iff, Conversations.ingestNew] at h
      obtain ⟨audience, -, -, -, created, hcreated, hresult⟩ := h
      cases hresult
      have hruns := Except.foldlM_preserves
        (I := fun later => KeepsTables (Conversations.cancelOlder now tables message) later)
        (fun hkept hrun => hkept.trans (keeps_createRun hrun)) (KeepsTables.refl _) hcreated
      have hall := (keeps_cancelOlder now tables message).trans hruns
      exact ⟨hall.works, hall.conversations, hall.threads⟩

end

/-! ## Computed runs -/

/-- The labels of a computed run say what its steps do. -/
def Plays (config : AppConfig) (db : Database) : List Event → Prop
  | [] => True
  | event :: rest => event.Admits db ∧ Plays config (next config db event) rest

theorem run_play {config : AppConfig} {db : Database} {events : List Event}
    (h : Plays config db events) :
    (system config).Run db events (events.foldl (next config) db) := by
  induction events generalizing db with
  | nil => exact .refl db
  | cons event rest ih => exact .cons ⟨h.1, rfl⟩ (ih h.2)

theorem step_functional {config : AppConfig} {db db' db'' : Database} {event : Event}
    (h : (system config).step db event db') (h' : (system config).step db event db'') :
    db' = db'' :=
  h.2.trans h'.2.symm

/-- A database without runs, and without conversations. -/
def emptyDatabase : Database where
  tables := ⟨.empty, [], .empty, .empty, .empty, .empty⟩
  leases := .empty
  sessions := .empty
  requests := .empty
  ledger := .init

theorem emptyDatabase_start (config : AppConfig) : (system config).start emptyDatabase :=
  ⟨rfl, rfl, rfl, rfl, rfl⟩

/-- No tool can be reconciled. -/
def plainConfig : AppConfig := ⟨id, []⟩

end App

end LingxiOS
