-- SUMMARY: The rows a run's stream is read from.
import LingxiOS.App.Input
import LingxiOS.App.Reopen
import LingxiOS.App.RunStream

/-! # The Rows of a Run

The work item of one run, its results, their deliveries and its events, with the
statements that write them. A statement whose condition fails changes nothing. -/

namespace LingxiOS

namespace App

open Jobs (JobRow)

/-- A row of `agent_results`. -/
structure ResultRow where
  fence : Nat
  message : AssistantMessage

/-- A row of `agent_run_events`. -/
structure StoredEvent where
  event : RunEvent
  expiresAt : Option Int

structure RunTables where
  work : JobRow
  heartbeatAt : Option Int
  lastProgressAt : Option Int
  results : JsMap String ResultRow
  /-- `agent_delivery_outbox`, by result. -/
  outbox : JsMap String DeliveryState
  events : List StoredEvent

/-! ## Reading -/

/-- The result of a run, by the join on `work.result_id`. -/
def RunTables.result (tables : RunTables) : Option ResultRow :=
  tables.work.resultId.bind tables.results.get?

def runSnapshot (tables : RunTables) : RunSnapshot where
  id := tables.work.id
  fence := tables.work.fence
  resultId := tables.work.resultId
  resultFence := tables.result.map ResultRow.fence
  status := tables.work.status
  kind := tables.work.kind
  attempts := tables.work.attempts
  requestVersion := requestVersion tables.work
  createdAt := tables.work.createdAt
  availableAt := tables.work.availableAt
  heartbeatAt := tables.heartbeatAt
  lastProgressAt := tables.lastProgressAt
  goalOutcome := tables.work.goalOutcome
  error := tables.work.error

/-- `readRunState`: one snapshot of the run, its message and the delivery of it. -/
def readRunState (tables : RunTables) : RunState where
  run := runSnapshot tables
  message := tables.result.map ResultRow.message
  delivery := tables.work.resultId.map fun id => (tables.outbox.get? id).getD .notObserved

/-! ## Runs -/

/-- The statements that update a run. -/
inductive RunChange where
  | claim (ttl : Int) (workerId tokenHash : String)
  | heartbeat (ttl : Int) (proof : LeaseProof)
  | progress
  | settle (proof : LeaseProof) (completion : WorkCompletion)
  /-- `yieldWork`, and the sweep that takes a lease away. -/
  | yieldWork
  | requestPreempt
  | revise (revision : SteerInput)
  | continueInput (revision : SteerInput)
  /-- A run that is neither leased nor finished for good is queued again. -/
  | requeue
  | cancel (gap : String)
  /-- A queued run that cannot run, or one that has been tried too often. -/
  | giveUp (status : WorkStatus) (error : String) (outcome : Option GoalOutcome)
  | deliver (resultId : String) (delivery : DeliveryState)

/-- The lease of a proof is live. -/
def holdsLease (now : Int) (proof : LeaseProof) (work : JobRow) : Bool :=
  work.id = proof.id ∧ work.fence = proof.fence ∧ work.leaseTokenHash = some proof.leaseTokenHash
    ∧ work.status = .leased ∧ work.leaseExpiresAt.any (now < ·)

/-- A queued run, or one whose lease is over, can be claimed. -/
def isFree (now : Int) (work : JobRow) : Bool :=
  work.status = .queued ∨ work.status = .leased ∧ work.leaseExpiresAt.any (· ≤ now)

def yielded (now : Int) (work : JobRow) : JobRow :=
  { work with
    status := .queued
    fence := work.fence + 1
    leaseTokenHash := none
    leasedBy := none
    leaseExpiresAt := none
    preemptRequestedAt := none
    preemptions := work.preemptions + 1
    availableAt := now + 1000 }

def givenUp (now : Int) (status : WorkStatus) (error : String) (outcome : Option GoalOutcome)
    (work : JobRow) : JobRow :=
  { work with
    status := status
    error := some error
    goalOutcome := outcome.or work.goalOutcome
    finishedAt := some now }

namespace RunTables

/-- An update of the work item under a condition. -/
def updateWork (tables : RunTables) (condition : Bool) (update : JobRow → JobRow) : RunTables :=
  if condition then { tables with work := update tables.work } else tables

def change (now : Int) (tables : RunTables) : RunChange → RunTables
  | .claim ttl workerId tokenHash =>
      if isFree now tables.work ∧ tables.work.cancelRequestedAt = none
          ∧ tables.work.availableAt ≤ now then
        { tables with
          work := leased now ttl workerId tokenHash tables.work
          heartbeatAt := some now
          lastProgressAt := tables.lastProgressAt.or (some now) }
      else tables
  | .heartbeat ttl proof =>
      if holdsLease now proof tables.work then
        { tables with
          work := { tables.work with leaseExpiresAt := some (now + ttl) }
          heartbeatAt := some now }
      else tables
  | .progress => { tables with lastProgressAt := some now }
  | .settle proof completion =>
      tables.updateWork (tables.work.id = proof.id ∧ FanIn.maySettle now proof.fence
          proof.leaseTokenHash (workStatusOf completion) completion.goalOutcome tables.work)
        (FanIn.settled now (workStatusOf completion) completion.error completion.goalOutcome)
  | .yieldWork =>
      tables.updateWork (tables.work.status = .leased ∧ tables.work.preemptRequestedAt.isSome)
        (yielded now)
  | .requestPreempt =>
      tables.updateWork (tables.work.status = .leased) fun work =>
        { work with preemptRequestedAt := some now }
  | .revise revision =>
      tables.updateWork (tables.work.status.isOpen ∧ tables.work.cancelRequestedAt = none)
        (revised now revision)
  | .continueInput revision =>
      tables.updateWork (tables.work.status = .waiting) (resumedWork now revision)
  | .requeue =>
      tables.updateWork (["queued", "waiting", "blocked", "partial", "failed"].contains
        (FanIn.statusText tables.work.status)) (reopened now)
  | .cancel gap => tables.updateWork tables.work.status.isOpen (Jobs.cancelled now gap)
  | .giveUp status error outcome =>
      tables.updateWork (isFree now tables.work ∧ status.isOpen = false)
        (givenUp now status error outcome)
  | .deliver resultId delivery =>
      { tables with outbox := tables.outbox.modify resultId fun _ => delivery }

/-! ## Statements -/

/-- The transactions that write the rows of a run. -/
inductive Statement where
  | run (change : RunChange)
  /-- The insertion of `recordEvent`, with the time its data says it expires at. -/
  | recordEvent (proof : LeaseProof) (event : RunEvent) (expiresAt : Option Int)
  /-- The transaction of `deliverMessage`, with the data of its event. -/
  | commitResult (proof : LeaseProof) (resultId : String) (message : AssistantMessage)
      (data : JsonObject) (delivers : Bool)
  /-- The deletion of an expired event. -/
  | maintenance (seq : Nat)

/-- Only an answer that leaves something to do gives way to another one. -/
def replaceable (resultId : String) (tables : RunTables) : Bool :=
  tables.work.resultId = some resultId
    ∨ tables.result.all fun prior => prior.message.envelope.goalOutcome.status ≠ .satisfied

/-- What `deliverMessage` asks of the run. -/
def committable (now : Int) (proof : LeaseProof) (resultId : String) (message : AssistantMessage)
    (tables : RunTables) : Bool :=
  holdsLease now proof tables.work ∧ tables.work.cancelRequestedAt = none
    ∧ message.envelope.requestVersion = requestVersion tables.work ∧ replaceable resultId tables

/-- `COALESCE(MAX(seq), (fence - 1) * RUN_SEQUENCE_SPAN) + 1`. -/
def nextSeq (tables : RunTables) : Nat :=
  (tables.events.map fun stored => stored.event.seq).max?.getD (sequenceStart tables.work.fence) + 1

/-- The row of `agent_run_events` a statement inserts. -/
def inserted (now : Int) (tables : RunTables) : Statement → Option StoredEvent
  | .recordEvent proof event expiresAt =>
      if holdsLease now proof tables.work
          ∧ (checkEvent tables.work.id tables.work.fence event).isOk
          ∧ tables.events.all (fun stored => stored.event.seq ≠ event.seq) then
        some ⟨event, expiresAt⟩
      else none
  | .commitResult proof resultId message data _ =>
      if committable now proof resultId message tables then
        some ⟨⟨⟨"response.committed", .completed, .user, data, none⟩, tables.work.id,
          nextSeq tables⟩, none⟩
      else none
  | .run _ | .maintenance _ => none

def committedWork (now : Int) (resultId : String) (message : AssistantMessage) (work : JobRow) :
    JobRow :=
  let outcome := message.envelope.goalOutcome
  let status := workStatusOf { status := .completed, goalOutcome := some outcome }
  { work with
    status := status
    resultId := some resultId
    goalOutcome := some outcome
    leaseTokenHash := none
    leaseExpiresAt := none
    finishedAt := if status = .waiting then none else some now }

/-- A result stays as it was committed first, and so does its delivery. -/
def committedResult (now : Int) (resultId : String) (message : AssistantMessage) (delivers : Bool)
    (tables : RunTables) : RunTables :=
  { tables with
    work := committedWork now resultId message tables.work
    lastProgressAt := some now
    results := if tables.results.has resultId then tables.results
      else tables.results.set resultId ⟨tables.work.fence, message⟩
    outbox := if !delivers || tables.outbox.has resultId then tables.outbox
      else tables.outbox.set resultId .pending }

/-- The rows a statement writes, beside the event it inserts. -/
def written (now : Int) (tables : RunTables) : Statement → RunTables
  | .run change => tables.change now change
  | .recordEvent _ _ _ => tables
  | .commitResult proof resultId message _ delivers =>
      if committable now proof resultId message tables then
        committedResult now resultId message delivers tables
      else tables
  | .maintenance seq =>
      { tables with
        events := tables.events.filter fun stored =>
          !(stored.event.seq = seq && stored.expiresAt.any (· < now)) }

def execute (now : Int) (tables : RunTables) (statement : Statement) : RunTables :=
  let after := written now tables statement
  { after with events := after.events ++ (inserted now tables statement).toList }

end RunTables

/-! ## What follows -/

/-- A later state of a work: attempts and versions only grow, and a lease that has ended
    does not come back under its fence. -/
structure WorkFollows (work work' : JobRow) : Prop where
  id : work'.id = work.id
  fence : work.fence ≤ work'.fence
  inputs : work.steerInputs.length ≤ work'.steerInputs.length
  leased : work'.status = .leased → work'.fence = work.fence → work.status = .leased

namespace WorkFollows

theorem refl (work : JobRow) : WorkFollows work work :=
  ⟨rfl, Nat.le_refl _, Nat.le_refl _, fun h _ => h⟩

/-- An update that leaves the attempt, and does not start one. -/
theorem of_left {work work' : JobRow} (hid : work'.id = work.id)
    (hfence : work.fence ≤ work'.fence)
    (hinputs : work.steerInputs.length ≤ work'.steerInputs.length)
    (hstatus : work'.status = work.status ∨ work'.status ≠ .leased) : WorkFollows work work' where
  id := hid
  fence := hfence
  inputs := hinputs
  leased hleased _ := by
    rcases hstatus with hsame | hother
    · exact hsame.symm.trans hleased
    · exact absurd hleased hother

end WorkFollows

/-- The results are of attempts that have ended, and attempts and events are numbered from
    one. -/
structure RunTables.Valid (tables : RunTables) : Prop where
  attempt : tables.work.status = .leased → 1 ≤ tables.work.fence
  results : ∀ {id row}, tables.results.get? id = some row → row.fence ≤ tables.work.fence ∧
    (tables.work.status = .leased → row.fence < tables.work.fence)
  numbered : ∀ stored ∈ tables.events, 1 ≤ stored.event.seq
  distinct : tables.events.Pairwise fun a b => a.event.seq ≠ b.event.seq

namespace RunTables

variable {now : Int} {tables : RunTables}

theorem updateWork_follows {condition : Bool} {update : JobRow → JobRow}
    (h : condition = true → WorkFollows tables.work (update tables.work)) :
    WorkFollows tables.work (tables.updateWork condition update).work := by
  unfold updateWork
  split
  · rename_i hcondition
    exact h hcondition
  · exact .refl _

theorem change_follows (now : Int) (tables : RunTables) (change : RunChange) :
    WorkFollows tables.work (tables.change now change).work := by
  cases change with
  | claim ttl workerId tokenHash =>
      simp only [RunTables.change]
      split
      · refine ⟨rfl, Nat.le_succ _, Nat.le_refl _, fun _ hfence => ?_⟩
        exact absurd hfence (Nat.succ_ne_self _)
      · exact .refl _
  | heartbeat ttl proof =>
      simp only [RunTables.change]
      split
      · exact .of_left rfl (Nat.le_refl _) (Nat.le_refl _) (.inl rfl)
      · exact .refl _
  | progress => exact .refl _
  | settle proof completion =>
      exact updateWork_follows fun _ =>
        .of_left rfl (Nat.le_refl _) (Nat.le_refl _) (.inr (workStatusOf_ne_leased completion))
  | yieldWork =>
      exact updateWork_follows fun _ =>
        .of_left rfl (Nat.le_succ _) (Nat.le_refl _) (.inr WorkStatus.noConfusion)
  | requestPreempt =>
      exact updateWork_follows fun _ => .of_left rfl (Nat.le_refl _) (Nat.le_refl _) (.inl rfl)
  | revise revision =>
      refine updateWork_follows fun _ => .of_left rfl (Nat.le_refl _) ?_ ?_
      · simp [revised]
      · unfold revised
        split
        · exact .inr WorkStatus.noConfusion
        · exact .inl rfl
  | continueInput revision =>
      refine updateWork_follows fun _ => .of_left rfl (Nat.le_refl _) ?_
        (.inr WorkStatus.noConfusion)
      simp [resumedWork]
  | requeue =>
      exact updateWork_follows fun _ =>
        .of_left rfl (Nat.le_refl _) (Nat.le_refl _) (.inr WorkStatus.noConfusion)
  | cancel gap =>
      refine updateWork_follows fun _ => .of_left rfl (Nat.le_refl _) (Nat.le_refl _) ?_
      unfold Jobs.cancelled
      split
      · exact .inl rfl
      · exact .inr WorkStatus.noConfusion
  | giveUp status error outcome =>
      refine updateWork_follows fun hgiven => .of_left rfl (Nat.le_refl _) (Nat.le_refl _) (.inr ?_)
      simp only [decide_eq_true_eq] at hgiven
      rintro (hleased : status = .leased)
      rw [hleased] at hgiven
      cases hgiven.2
  | deliver resultId delivery => exact .refl _

theorem updateWork_rows (tables : RunTables) (condition : Bool) (update : JobRow → JobRow) :
    (tables.updateWork condition update).results = tables.results ∧
      (tables.updateWork condition update).events = tables.events := by
  unfold updateWork
  split
  · exact ⟨rfl, rfl⟩
  · exact ⟨rfl, rfl⟩

/-- An update of the run leaves its results and events. -/
theorem change_rows (now : Int) (tables : RunTables) (change : RunChange) :
    (tables.change now change).results = tables.results ∧
      (tables.change now change).events = tables.events := by
  cases change with
  | claim ttl workerId tokenHash =>
      simp only [RunTables.change]
      split
      · exact ⟨rfl, rfl⟩
      · exact ⟨rfl, rfl⟩
  | heartbeat ttl proof =>
      simp only [RunTables.change]
      split
      · exact ⟨rfl, rfl⟩
      · exact ⟨rfl, rfl⟩
  | progress | deliver => exact ⟨rfl, rfl⟩
  | settle | yieldWork | requestPreempt | revise | continueInput | requeue | cancel | giveUp =>
      exact updateWork_rows tables _ _

theorem committedWork_left (now : Int) (resultId : String) (message : AssistantMessage)
    (work : JobRow) : (committedWork now resultId message work).status ≠ .leased := by
  have hstatus : (committedWork now resultId message work).status = workStatusOf
      { status := .completed, goalOutcome := some message.envelope.goalOutcome } := rfl
  exact hstatus ▸ workStatusOf_ne_leased _

theorem execute_follows (now : Int) (tables : RunTables) (statement : Statement) :
    WorkFollows tables.work (tables.execute now statement).work := by
  cases statement with
  | run change => exact change_follows now tables change
  | recordEvent proof event expiresAt => exact .refl _
  | commitResult proof resultId message data delivers =>
      simp only [execute, written]
      split
      · exact .of_left rfl (Nat.le_refl _) (Nat.le_refl _)
          (.inr (committedWork_left now resultId message tables.work))
      · exact .refl _
  | maintenance seq => exact .refl _

/-! ## Validity -/

/-- The next number is above every number of the run. -/
theorem lt_nextSeq {stored : StoredEvent} (h : stored ∈ tables.events) :
    stored.event.seq < tables.nextSeq := by
  unfold nextSeq
  have hmem : stored.event.seq ∈ tables.events.map fun stored => stored.event.seq :=
    List.mem_map_of_mem h
  cases hmax : (tables.events.map fun stored => stored.event.seq).max? with
  | none => simp [List.max?_eq_none_iff.1 hmax] at hmem
  | some last => exact Nat.lt_succ_of_le ((List.max?_eq_some_iff.1 hmax).2 _ hmem)

/-- An inserted event has a number that is free. -/
theorem inserted_free {statement : Statement} {row : StoredEvent}
    (h : inserted now tables statement = some row) :
    1 ≤ row.event.seq ∧ ∀ stored ∈ tables.events, stored.event.seq ≠ row.event.seq := by
  cases statement with
  | recordEvent proof event expiresAt =>
      simp only [inserted, Option.ite_none_right_eq_some, List.all_eq_true, decide_eq_true_eq] at h
      obtain ⟨⟨-, hcheck, hfree⟩, hrow⟩ := h
      cases hrow
      cases hevent : checkEvent tables.work.id tables.work.fence event with
      | error e => rw [hevent] at hcheck; cases hcheck
      | ok checked =>
          have hrange := (checkEvent_range hevent).2.1
          exact ⟨Nat.one_le_iff_ne_zero.2 (Nat.ne_zero_of_lt hrange), hfree⟩
  | commitResult proof resultId message data delivers =>
      simp only [inserted, Option.ite_none_right_eq_some] at h
      obtain ⟨-, hrow⟩ := h
      cases hrow
      exact ⟨Nat.le_add_left 1 _, fun stored hstored => Nat.ne_of_lt (lt_nextSeq hstored)⟩
  | run change => cases h
  | maintenance seq => cases h

theorem written_events (now : Int) (tables : RunTables) (statement : Statement) :
    (written now tables statement).events.Sublist tables.events := by
  cases statement with
  | run change => exact (change_rows now tables change).2 ▸ List.Sublist.refl _
  | recordEvent proof event expiresAt => exact List.Sublist.refl _
  | commitResult proof resultId message data delivers =>
      simp only [written]
      split
      · exact List.Sublist.refl _
      · exact List.Sublist.refl _
  | maintenance seq => exact List.filter_sublist

/-- A stored result is an earlier one, or is of the attempt that has just ended. -/
theorem execute_results {statement : Statement} {id : String} {row : ResultRow}
    (h : (tables.execute now statement).results.get? id = some row) :
    tables.results.get? id = some row ∨ row.fence = tables.work.fence ∧
      (tables.execute now statement).work.status ≠ .leased := by
  cases statement with
  | run change =>
      have hsame : (tables.execute now (.run change)).results = tables.results :=
        (change_rows now tables change).1
      exact .inl (hsame ▸ h)
  | recordEvent proof event expiresAt => exact .inl h
  | commitResult proof resultId message data delivers =>
      simp only [execute, written] at h ⊢
      split at h
      · rename_i hcommittable
        rw [if_pos hcommittable]
        simp only [committedResult] at h
        split at h
        · exact .inl h
        · rw [JsMap.get?_set] at h
          split at h
          · cases h
            exact .inr ⟨rfl, committedWork_left now resultId message tables.work⟩
          · exact .inl h
      · exact .inl h
  | maintenance seq => exact .inl h

theorem Valid.execute (h : tables.Valid) (statement : Statement) :
    (tables.execute now statement).Valid := by
  have hfollows := execute_follows now tables statement
  have hsub := written_events now tables statement
  have hfence := hfollows.fence
  constructor
  · intro hleased
    rcases Nat.lt_or_eq_of_le hfence with hlater | hsame
    · exact Nat.one_le_of_lt hlater
    · exact hsame ▸ h.attempt (hfollows.leased hleased hsame.symm)
  · intro id row hrow
    rcases execute_results hrow with hold | ⟨hnew, hleft⟩
    · obtain ⟨hle, hlt⟩ := h.results hold
      refine ⟨Nat.le_trans hle hfence, fun hleased => ?_⟩
      rcases Nat.lt_or_eq_of_le hfence with hlater | hsame
      · exact Nat.lt_of_le_of_lt hle hlater
      · exact hsame ▸ hlt (hfollows.leased hleased hsame.symm)
    · exact ⟨hnew ▸ hfence, fun hleased => absurd hleased hleft⟩
  · intro stored hstored
    rcases List.mem_append.1 hstored with hold | hnew
    · exact h.numbered stored (hsub.subset hold)
    · exact (inserted_free (Option.mem_toList.1 hnew)).1
  · refine List.pairwise_append.2 ⟨h.distinct.sublist hsub, ?_, ?_⟩
    · cases inserted now tables statement <;> simp
    · intro stored hstored row hrow
      exact (inserted_free (Option.mem_toList.1 hrow)).2 stored (hsub.subset hstored)

end RunTables

end App

end LingxiOS
