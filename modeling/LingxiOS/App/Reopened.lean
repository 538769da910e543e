-- SUMMARY: Which runs are queued again when an unknown action is settled.
import LingxiOS.App.Persistence

/-! # Reopened Runs

`reconcileAction` queues a run that was neither cancelled nor revised. `resolveAction`
asks for the version of the outcome only, so it also queues a failed run that was
cancelled, revised while it was leased, or superseded by a newer message. -/

namespace LingxiOS

namespace App

open Jobs (JobRow StoredRunIdentity)

/-! ## Queued again -/

/-- The run a call sets back to queued. -/
def Event.requeues (config : AppConfig) (db : Database) : Event → Option String
  | .reconcile now identity actionKey =>
      match reconcileAction config.tools now db identity actionKey with
      | .ok (.queued, _) => some identity.runId
      | _ => none
  | .reopen now identity actionKey =>
      (resolvable now db identity actionKey).bind fun _ => (intentOf db actionKey).bind intentWork
  | _ => none

/-- A queued run that can be claimed, and whose action is of its current version. -/
structure Runnable (now : Int) (actionKey : String) (db : Database) (work : JobRow) : Prop where
  status : work.status = .queued
  cancel : work.cancelRequestedAt = none
  version : (intentOf db actionKey).bind intentVersion = some (requestVersion work)
  claimable : ∀ later, now ≤ later →
    ((db.leases.get? (sessionKey work)).all fun lease => lease.expiresAt ≤ later) = true →
    claimable later db.leases work = true

/-- Whatever the two calls set back to queued can run, and nothing else is changed. -/
def Sound (config : AppConfig) (db : Database) (event : Event) (db' : Database) : Prop :=
  match event with
  | .reconcile now _ actionKey =>
      match event.requeues config db with
      | some id => ∃ work, db'.works.get? id = some work ∧ Runnable now actionKey db' work
      | none => db' = db
  | .reopen now _ actionKey =>
      match event.requeues config db with
      | some id => ∃ work, db'.works.get? id = some work ∧ Runnable now actionKey db' work
          ∧ unsettledAction db' id = false
      | none => db' = db
  | _ => True

/-- A run with an outcome of its current version, and no cancel request. -/
def UpToDate (work : JobRow) : Prop :=
  ∀ outcome, work.goalOutcome = some outcome →
    work.cancelRequestedAt = none ∧ outcome.requestVersion = requestVersion work

/-- The run a resolution finds is up to date. -/
def Undisturbed (db : Database) : Event → Prop
  | .reopen now identity actionKey =>
      ∀ work, resolvable now db identity actionKey = some work → UpToDate work
  | _ => True

section

variable {config : AppConfig} {db : Database} {now : Int} {identity : StoredRunIdentity}
  {actionKey id : String} {intent : Json} {work : JobRow}

theorem runnable_reopened (hintent : intentOf db actionKey = some intent)
    (hcancel : work.cancelRequestedAt = none)
    (hversion : intentVersion intent = some (requestVersion work)) :
    Runnable now actionKey (db.withWorks (db.works.set id (reopened now work)))
      (reopened now work) where
  status := rfl
  cancel := hcancel
  version := (congrArg (Option.bind · intentVersion) hintent).trans hversion
  claimable later hle hfree := by
    have hstatus : (reopened now work).status = .queued := rfl
    have hopen : (reopened now work).cancelRequestedAt = none := hcancel
    have havailable : (reopened now work).availableAt ≤ later := hle
    simp only [App.claimable, hstatus, hopen, havailable, hfree, true_or, and_self, decide_true]

theorem sound_reconcile (config : AppConfig) (db : Database) (now : Int)
    (identity : StoredRunIdentity) (actionKey : String) :
    Sound config db (.reconcile now identity actionKey)
      (next config db (.reconcile now identity actionKey)) := by
  simp only [Sound, Event.requeues, next]
  cases hcall : reconcileAction config.tools now db identity actionKey with
  | error e => rfl
  | ok found =>
      obtain ⟨answer, db'⟩ := found
      obtain ⟨hanswer, rfl⟩ | ⟨rfl, intent, work, hintent, -, -, hcancel, hversion, rfl⟩ :=
        reconcileAction_ok hcall
      · cases answer with
        | queued => exact absurd rfl hanswer
        | settled | unavailable | busy => rfl
      · exact ⟨_, JsMap.get?_set_self .., runnable_reopened hintent hcancel hversion⟩

/-- What a resolution asks of the run it finds. -/
theorem resolvable_some {workId : String} (h : resolvable now db identity actionKey = some work)
    (hintent : intentOf db actionKey = some intent) (hwork : intentWork intent = some workId) :
    work.status = .failed ∧ unsettledAction db workId = false ∧
      ∃ outcome, work.goalOutcome = some outcome ∧
        intentVersion intent = some outcome.requestVersion := by
  simp only [resolvable, hintent, hwork, Option.bind_eq_bind, Option.bind_some,
    Option.filter_eq_some_iff, decide_eq_true_eq, Option.any_eq_true] at h
  obtain ⟨-, hstatus, ⟨outcome, houtcome, hversion⟩, hsettled, -⟩ := h
  exact ⟨hstatus, hsettled, outcome, houtcome, hversion.symm⟩

theorem sound_reopen_iff : Sound config db (.reopen now identity actionKey)
    (next config db (.reopen now identity actionKey))
      ↔ Undisturbed db (.reopen now identity actionKey) := by
  simp only [Sound, Event.requeues, next, Undisturbed, UpToDate]
  obtain ⟨hsame, hnone⟩ | ⟨intent, workId, work, hintent, hworkId, hresolvable, -, hset⟩ :=
    reopenResolved_cases now db identity actionKey
  · simp [hsame, hnone]
  · obtain ⟨-, hsettled, outcome, houtcome, hversion⟩ :=
      resolvable_some hresolvable hintent hworkId
    have hstored : (db.withWorks (db.works.set workId (reopened now work))).works.get? workId
        = some (reopened now work) := JsMap.get?_set_self ..
    simp only [hresolvable, hintent, hworkId, hset, Option.bind_some, Option.some.injEq,
      forall_eq', houtcome]
    constructor
    · rintro ⟨found, hfound, hrunnable, -⟩
      obtain rfl := Option.some.inj (hfound.symm.trans hstored)
      refine ⟨hrunnable.cancel, ?_⟩
      have hcurrent : (intentOf db actionKey).bind intentVersion
          = some (requestVersion work) := hrunnable.version
      rw [hintent, Option.bind_some, hversion] at hcurrent
      exact Option.some.inj hcurrent
    · rintro ⟨hcancel, hcurrent⟩
      exact ⟨_, hstored, runnable_reopened hintent hcancel (hcurrent ▸ hversion), hsettled⟩

theorem sound_iff {event : Event} :
    Sound config db event (next config db event) ↔ Undisturbed db event := by
  cases event with
  | reopen now identity actionKey => exact sound_reopen_iff
  | reconcile now identity actionKey =>
      exact iff_of_true (sound_reconcile config db now identity actionKey) trivial
  | enqueue | ingest | claim | save | settle | cancel | revise | continueInput | reserve | record
    | recordResolution => exact Iff.rfl

end

/-! ## Failed runs -/

/-- No run fails: one that has failed is as it was. -/
def FailsNone (works works' : JsMap String JobRow) : Prop :=
  ∀ id work, works'.get? id = some work → work.status = .failed → works.get? id = some work

namespace FailsNone

variable {works works' works'' : JsMap String JobRow}

theorem refl (works : JsMap String JobRow) : FailsNone works works := fun _ _ h _ => h

theorem trans (h : FailsNone works works') (h' : FailsNone works' works'') :
    FailsNone works works'' :=
  fun id work hwork hfailed => h id work (h' id work hwork hfailed) hfailed

theorem set {changed : JobRow} (id : String) (h : changed.status ≠ .failed) :
    FailsNone works (works.set id changed) := by
  intro other work hwork hfailed
  rw [JsMap.get?_set] at hwork
  split at hwork
  · obtain rfl := Option.some.inj hwork
    exact absurd hfailed h
  · exact hwork

theorem mapValues {f : String → JobRow → JobRow}
    (h : ∀ id work, works.get? id = some work → (f id work).status = .failed → f id work = work) :
    FailsNone works (works.mapValues f) := by
  intro id work hwork hfailed
  rw [JsMap.get?_mapValues] at hwork
  obtain ⟨before, hbefore, rfl⟩ := Option.map_eq_some_iff.1 hwork
  rw [hbefore, h id before hbefore hfailed]

theorem cancelled_not_failed (now : Int) (gap : String) (work : JobRow) :
    (Jobs.cancelled now gap work).status ≠ .failed := by
  unfold Jobs.cancelled
  dsimp only
  split <;> simp [*]

theorem cancelDescendants (now : Int) (works : JsMap String JobRow) (parentId : String) :
    FailsNone works (Jobs.cancelDescendants now works parentId) := by
  unfold Jobs.cancelDescendants
  refine mapValues fun id work _ hfailed => ?_
  split at hfailed
  · exact absurd hfailed (cancelled_not_failed now _ work)
  · rename_i hnot
    rw [if_neg hnot]

theorem cancelRun (now : Int) (works : JsMap String JobRow) (identity : StoredRunIdentity) :
    FailsNone works (Jobs.cancelRun now works identity).1 := by
  unfold Jobs.cancelRun
  split
  · split
    · exact (set _ (cancelled_not_failed now _ _)).trans (cancelDescendants now _ _)
    · exact refl works
  · exact refl works

theorem enqueueWork {now : Int} {input : Jobs.EnqueueWorkInput}
    (h : Jobs.enqueueWork now works input = .ok works') : FailsNone works works' := by
  obtain ⟨-, -, hfound⟩ := Jobs.enqueueWork_ok h
  intro id work hwork hfailed
  obtain hold | ⟨-, rfl⟩ := hfound id work hwork
  · exact hold
  · cases hfailed

theorem supersede {id : String} (now : Int)
    (h : ∀ work, works.get? id = some work → work.status ≠ .failed) :
    FailsNone works (Conversations.supersede now works id) := by
  unfold Conversations.supersede
  split
  · rename_i work hwork
    refine (cancelRun now works work.identity).trans (mapValues fun other row hrow hfailed => ?_)
    split at hfailed
    · rename_i hother
      subst hother
      exact absurd hfailed (h row (cancelRun now works work.identity _ row hrow hfailed))
    · rename_i hother
      rw [if_neg hother]
  · exact refl works

theorem foldl_supersede (now : Int) {ids : List String}
    (h : ∀ id ∈ ids, ∀ work, works.get? id = some work → work.status ≠ .failed) :
    FailsNone works (ids.foldl (Conversations.supersede now) works) := by
  induction ids generalizing works with
  | nil => exact refl works
  | cons id ids ih =>
      obtain ⟨hfirst, hrest⟩ := List.forall_mem_cons.1 h
      have hnone : FailsNone works (Conversations.supersede now works id) := supersede now hfirst
      refine hnone.trans (ih fun other hother work hwork hfailed => ?_)
      exact hrest other hother work (hnone other work hwork hfailed) hfailed

theorem ingestMessage {sha256 : String → String} {now : Int} {policyMeta : JsonObject}
    {tables tables' : Conversations.IngressTables} {input : Conversations.IMMessageInput}
    {outcome : Conversations.IMIngressResult}
    (h : Conversations.ingestMessage sha256 now policyMeta tables input = .ok (outcome, tables'))
    (holder : ∀ id ∈ Conversations.olderSlots tables input, ∀ work,
      tables.works.get? id = some work → work.status ≠ .failed) :
    FailsNone tables.works tables'.works := by
  simp only [Conversations.ingestMessage, Except.bind_eq_ok_iff] at h
  obtain ⟨⟨⟩, -, message, hmessage, policy, -, ⟨⟩, -, h⟩ := h
  simp only [Conversations.messageOf, Except.bind_eq_ok_iff] at hmessage
  obtain ⟨attachments, -, hmessage⟩ := hmessage
  cases hmessage
  cases hprior : tables.messages.get? input.key with
  | some prior =>
      simp only [hprior, Except.bind_eq_ok_iff] at h
      obtain ⟨-, -, hresult⟩ := h
      cases hresult
      exact refl _
  | none =>
      simp only [hprior, Except.bind_eq_ok_iff, Conversations.ingestNew] at h
      obtain ⟨audience, -, -, -, created, hcreated, hresult⟩ := h
      cases hresult
      refine trans ?_ (Except.foldlM_preserves
        (I := fun later => FailsNone (Conversations.cancelOlder now tables _).works later.works)
        (fun hkept hrun => hkept.trans ?_) (refl _) hcreated)
      · unfold Conversations.cancelOlder
        split
        · exact foldl_supersede now holder
        · exact refl _
      · simp only [Conversations.createRun, Except.bind_eq_ok_iff,
          Except.mapError_eq_ok_iff] at hrun
        obtain ⟨works, hworks, -, -, hresult⟩ := hrun
        cases hresult
        exact enqueueWork hworks

theorem reopened (now : Int) (id : String) (work : JobRow) :
    FailsNone works (works.set id (reopened now work)) := set id nofun

theorem applyInput (now : Int) (db : Database) (input : InputContinuation) (revision : SteerInput)
    (row : ContinuationRow) : FailsNone db.works (applyInput now db input revision row).works :=
  set _ nofun

theorem claim (now ttl : Int) (workId workerId tokenHash : String) (db : Database) :
    FailsNone db.works (claim now ttl workId workerId tokenHash db).works := by
  unfold App.claim
  split
  · split
    · exact set _ nofun
    · exact refl _
  · exact refl _

theorem reviseRun {now : Int} {randomUUID : String} {identity : StoredRunIdentity} {text : String}
    {author : SteerAuthor} {db db' : Database} {found : Bool}
    (h : reviseRun now randomUUID identity text author db = .ok (found, db')) :
    FailsNone db.works db'.works := by
  simp only [App.reviseRun, Except.bind_eq_ok_iff] at h
  obtain ⟨-, -, -, -, -, -, h⟩ := h
  split at h
  · split at h
    · rename_i work _ hwork
      cases h
      refine (set _ fun hfailed => ?_).trans (cancelDescendants now _ _)
      dsimp only [revised] at hfailed
      split at hfailed
      · cases hfailed
      · simp [hfailed, WorkStatus.isOpen] at hwork
    · cases h
      exact refl _
  · cases h
    exact refl _

end FailsNone

/-- A run fails under no cancel request and with an outcome of its current version, and no
    newer message finds it failed. -/
def Steady (db : Database) : Event → Prop
  | .settle _ proof .failed _ (some outcome) => ∀ work, db.works.get? proof.id = some work →
      work.cancelRequestedAt = none ∧ outcome.requestVersion = requestVersion work
  | .ingest _ _ input => ∀ id ∈ Conversations.olderSlots db.tables input, ∀ work,
      db.works.get? id = some work → work.status ≠ .failed
  | _ => True

/-- Failed runs are up to date. -/
def Current (works : JsMap String JobRow) : Prop :=
  ∀ id work, works.get? id = some work → work.status = .failed → UpToDate work

theorem FailsNone.current {works works' : JsMap String JobRow} (h : FailsNone works works')
    (hcurrent : Current works) : Current works' :=
  fun id work hwork hfailed => hcurrent id work (h id work hwork hfailed) hfailed

section

variable {config : AppConfig} {db : Database}

theorem current_settle {now : Int} {proof : LeaseProof} {status : WorkStatus}
    {error : Option String} {outcome : Option GoalOutcome}
    (hsteady : Steady db (.settle now proof status error outcome)) (hcurrent : Current db.works) :
    Current (settle now proof status error outcome db).works := by
  unfold settle
  split
  · rename_i work hwork
    split
    · have hset : Current (db.works.set proof.id (FanIn.settled now status error outcome work)) := by
        intro id found hfound hfailed
        rw [JsMap.get?_set] at hfound
        split at hfound
        · obtain rfl := Option.some.inj hfound
          obtain rfl : status = .failed := hfailed
          rintro outcome rfl
          exact hsteady work hwork
        · exact hcurrent id found hfound hfailed
      dsimp only [Database.works, Database.withWorks]
      split
      · exact hset
      · exact (FailsNone.cancelDescendants now _ _).current hset
    · exact hcurrent
  · exact hcurrent

theorem current_next {event : Event} (hsteady : Steady db event) (hcurrent : Current db.works) :
    Current (next config db event).works := by
  cases event with
  | settle now proof status error outcome => exact current_settle hsteady hcurrent
  | enqueue now input =>
      rw [next, Database.works_withWorks]
      exact committed_of hcurrent fun works hcall => (FailsNone.enqueueWork hcall).current hcurrent
  | ingest now policyMeta input =>
      refine committed_snd_of (P := fun tables : Conversations.IngressTables => Current tables.works) hcurrent
        fun outcome tables hcall => ?_
      exact (FailsNone.ingestMessage hcall hsteady).current hcurrent
  | claim now ttl workId workerId tokenHash => exact (FailsNone.claim _ _ _ _ _ db).current hcurrent
  | save now proof session =>
      obtain ⟨-, hsame⟩ | ⟨record, -, hsaved⟩ := save_cases now proof session db
      · rw [next, hsame]
        exact hcurrent
      · rw [next, hsaved]
        exact hcurrent
  | cancel now identity => exact (FailsNone.cancelRun now _ identity).current hcurrent
  | revise now randomUUID identity text author =>
      refine committed_snd_of (P := fun after : Database => Current after.works) hcurrent
        fun found db' hcall => ?_
      exact (FailsNone.reviseRun hcall).current hcurrent
  | continueInput now input outcome =>
      refine committed_snd_of (P := fun after : Database => Current after.works) hcurrent
        fun status db' hcall => ?_
      obtain ⟨row, -, ⟨_, -, -, -, -, rfl⟩ | ⟨-, -, -, rfl⟩⟩ := continueInput_ok_iff.1 hcall
      · exact hcurrent
      · exact (FailsNone.applyInput _ _ _ _ row).current hcurrent
  | reserve | record => exact hcurrent
  | reconcile now identity actionKey =>
      refine committed_snd_of (P := fun after : Database => Current after.works) hcurrent
        fun answer db' hcall => ?_
      obtain ⟨-, rfl⟩ | ⟨-, _, work, -, -, -, -, -, rfl⟩ := reconcileAction_ok hcall
      · exact hcurrent
      · exact (FailsNone.reopened now _ work).current hcurrent
  | recordResolution identity resolution =>
      refine committed_of (P := fun after : Database => Current after.works) hcurrent fun db' hcall => ?_
      obtain ⟨ledger, rfl⟩ := recordResolution_ok hcall
      exact hcurrent
  | reopen now identity actionKey =>
      rw [next]
      obtain ⟨hsame, -⟩ | ⟨_, _, work, -, -, -, -, hset⟩ :=
        reopenResolved_cases now db identity actionKey
      · rw [hsame]
        exact hcurrent
      · rw [hset]
        exact (FailsNone.reopened now _ work).current hcurrent

/-- Where every failed run is up to date, a resolution finds one. -/
theorem undisturbed_of_current (hcurrent : Current db.works) (event : Event) :
    Undisturbed db event := by
  cases event with
  | reopen now identity actionKey =>
      intro work hresolvable
      obtain ⟨hsame, hnone⟩ | ⟨_, workId, found, hintent, hworkId, hfound, hwork, -⟩ :=
        reopenResolved_cases now db identity actionKey
      · rw [hnone] at hresolvable
        cases hresolvable
      · obtain rfl := Option.some.inj (hfound.symm.trans hresolvable)
        exact hcurrent workId found hwork (resolvable_some hfound hintent hworkId).1
  | enqueue | ingest | claim | save | settle | cancel | revise | continueInput | reserve | record
    | reconcile | recordResolution => trivial

end

/-! ## Runs -/

private def asker : StoredRunIdentity := ⟨"run", "tenant", "agent", "session", some "user", none⟩

private def sendIntent : ActionIntent where
  workId := "run"
  tenantId := "tenant"
  principalId := some "user"
  agentId := "agent"
  sessionId := "session"
  threadId := none
  requestVersion := some 1
  action := ⟨"run", "cell", 0, "mail.send", [], "key"⟩

/-- A run that fails with an unknown action, which somebody then looks up. -/
private def failedRun (meanwhile : List Event) : List Event :=
  [.enqueue 0 ⟨"run", "tenant", "agent", "session", none, "turn", .interactive, "message",
      some "user", 0, none, none, none⟩,
    .claim 0 100 "run" "worker" "hash",
    .reserve "key" "print" sendIntent,
    .record "key" { ok := false, executionState := some .unknown } 1] ++ meanwhile ++
  [.settle 2 ⟨"run", 1, "hash"⟩ .failed (some "error") (some ⟨.blocked, .inconclusive, 1, none, none⟩),
    .recordResolution asker
      ⟨"found", "key", { ok := true, executionState := some .succeeded }, [], "operator"⟩]

private def played (meanwhile : List Event) : Database :=
  (failedRun meanwhile).foldl (next plainConfig) emptyDatabase

private def reopen : Event := .reopen 3 asker "key"

private theorem failedRun_run : (system plainConfig).Run emptyDatabase (failedRun []) (played []) :=
  run_play ⟨trivial, trivial, trivial, trivial, trivial, trivial, trivial⟩

private theorem cancelledRun_run : (system plainConfig).Run emptyDatabase
    (failedRun [.cancel 1 asker]) (played [.cancel 1 asker]) :=
  run_play ⟨trivial, trivial, trivial, trivial, trivial, trivial, trivial, trivial⟩

private theorem failedRun_steady : ((system plainConfig).restrict Steady).Run emptyDatabase
    (failedRun [] ++ [reopen]) (next plainConfig (played []) reopen) := by
  have hsteady : Steady ((failedRun []).take 4 |>.foldl (next plainConfig) emptyDatabase)
      (.settle 2 ⟨"run", 1, "hash"⟩ .failed (some "error")
        (some ⟨.blocked, .inconclusive, 1, none, none⟩)) := by
    intro work hwork
    have hrow : (((failedRun []).take 4 |>.foldl (next plainConfig) emptyDatabase).works.get?
        "run").map (fun work => (work.cancelRequestedAt, requestVersion work)) = some (none, 1) := by
      decide +kernel
    rw [hwork, Option.map_some, Option.some.injEq, Prod.mk.injEq] at hrow
    exact ⟨hrow.1, hrow.2.symm⟩
  exact .cons ⟨trivial, trivial, rfl⟩ <| .cons ⟨trivial, trivial, rfl⟩ <|
    .cons ⟨trivial, trivial, rfl⟩ <| .cons ⟨trivial, trivial, rfl⟩ <|
    .cons ⟨hsteady, trivial, rfl⟩ <| .cons ⟨trivial, trivial, rfl⟩ <|
    .single ⟨trivial, trivial, rfl⟩

end App

end LingxiOS
