-- SUMMARY: Which runs of a model call record every reservation they were granted.
import LingxiOS.Model.Execution

/-! # Settlement

A reservation that was allowed is charged to the budget of the root until it is
recorded. Between the answer of the host and the provider call an attempt may
still end: when its time has run out, and when its announcement fails. Every
other run records each of its reservations exactly once. -/

namespace LingxiOS.ModelExecution

open Program

/-! ## What a run says about its calls -/

/-- The call id and the answer of a reservation that was allowed. -/
def reservedBy : ModelEvent → Option (String × ModelBudgetReservation)
  | ⟨.reserveModelCall callId _, .ok reservation⟩ =>
      if reservation.allowed then some (callId, reservation) else none
  | _ => none

/-- The event is an attempt to record the usage of a call, successful or not. -/
def recordsCall (callId : String) : ModelEvent → Bool
  | ⟨.recordModelUsage id _ _ _ _, _⟩ => id == callId
  | _ => false

/-- The announcement of a call failed. -/
def failsStarted (callId : String) : ModelEvent → Bool
  | ⟨.emit (.started id _ _ _), .error _⟩ => id == callId
  | _ => false

/-- The clock reading a run goes on with lies before a deadline. -/
def readsBefore (deadline : Option Int) : List ModelEvent → Prop
  | ⟨.now, .ok now⟩ :: _ => ∃ at_, deadline = some at_ ∧ now < at_
  | _ => False

/-- Every allowed reservation is followed by exactly one attempt to record it. -/
def Settled : List ModelEvent → Prop
  | [] => True
  | event :: rest =>
      (∀ callId reservation, reservedBy event = some (callId, reservation) →
        rest.countP (recordsCall callId) = 1) ∧ Settled rest

/-- After every allowed reservation the clock still reads before the deadline it
    was answered with, and the announcement of its call does not fail. -/
def Undisturbed : List ModelEvent → Prop
  | [] => True
  | event :: rest =>
      (∀ callId reservation, reservedBy event = some (callId, reservation) →
        readsBefore reservation.deadlineAt rest ∧ rest.all (fun e => !failsStarted callId e))
        ∧ Undisturbed rest

instance decidableReadsBefore (deadline : Option Int) (events : List ModelEvent) :
    Decidable (readsBefore deadline events) :=
  match events with
  | [] => isFalse id
  | ⟨.now, .ok now⟩ :: _ =>
      match deadline with
      | none => isFalse (by simp [readsBefore])
      | some at_ => decidable_of_iff (now < at_) (by simp [readsBefore])
  | ⟨.now, .error _⟩ :: _ => isFalse id
  | ⟨.counters, _⟩ :: _ | ⟨.addCounters _ _ _, _⟩ :: _ | ⟨.throwIfAborted, _⟩ :: _
  | ⟨.requestAborted, _⟩ :: _ | ⟨.signalAborted, _⟩ :: _ | ⟨.reserveModelCall _ _, _⟩ :: _
  | ⟨.recordModelUsage _ _ _ _ _, _⟩ :: _ | ⟨.emit _, _⟩ :: _ | ⟨.operation _, _⟩ :: _
  | ⟨.delay _, _⟩ :: _ => isFalse id

instance decidableSettled : (events : List ModelEvent) → Decidable (Settled events)
  | [] => isTrue trivial
  | event :: rest =>
      have := decidableSettled rest
      match h : reservedBy event with
      | none => decidable_of_iff (Settled rest) (by simp [Settled, h])
      | some (callId, _) =>
          decidable_of_iff (rest.countP (recordsCall callId) = 1 ∧ Settled rest)
            (by simp [Settled, h])

instance decidableUndisturbed : (events : List ModelEvent) → Decidable (Undisturbed events)
  | [] => isTrue trivial
  | event :: rest =>
      have := decidableUndisturbed rest
      match h : reservedBy event with
      | none => decidable_of_iff (Undisturbed rest) (by simp [Undisturbed, h])
      | some (callId, reservation) =>
          decidable_of_iff ((readsBefore reservation.deadlineAt rest ∧
            rest.all (fun e => !failsStarted callId e)) ∧ Undisturbed rest)
            (by simp [Undisturbed, h])

/-- Reading the clock, a counter or a signal and updating a counter never throw. -/
def Behaves (event : ModelEvent) : Prop :=
  match event with
  | ⟨.now, .error _⟩ | ⟨.counters, .error _⟩ | ⟨.addCounters _ _ _, .error _⟩
  | ⟨.requestAborted, .error _⟩ | ⟨.signalAborted, .error _⟩ => False
  | _ => True

/-! ## One call id for each attempt -/

/-- What an attempt adds to the logical call id. -/
private def retrySuffix (attempt : Nat) : String :=
  if attempt = 1 then "" else ":retry:" ++ toString attempt

theorem callId_ne (env : ModelExecution) (request : ModelRequest) {a b : Nat} (ha : 0 < a)
    (hab : a < b) (hb : b ≤ 3) : env.callId request a ≠ env.callId request b := by
  have hsuffix : ∀ attempt, env.callId request attempt
      = env.logicalCallId request ++ retrySuffix attempt := by
    intro attempt
    unfold callId retrySuffix
    split
    · simp
    · rw [String.append_assoc]
  intro h
  rw [hsuffix, hsuffix] at h
  have hcancel : retrySuffix a = retrySuffix b := by simpa using h
  obtain ⟨rfl, rfl⟩ | ⟨rfl, rfl⟩ | ⟨rfl, rfl⟩ : (a = 1 ∧ b = 2) ∨ (a = 1 ∧ b = 3) ∨ (a = 2 ∧ b = 3) := by
    omega
  · exact absurd hcancel (by decide)
  · exact absurd hcancel (by decide)
  · exact absurd hcancel (by decide)

/-! ## The parts of an attempt -/

theorem runs_await_op_iff {op : ModelOp} {α : Type} {f : op.Value → ModelProgram α}
    {events : List ModelEvent} {outcome : Except ModelFailure α} :
    Runs (await op >>= f) events outcome ↔
      (∃ e, events = [⟨op, .error e⟩] ∧ outcome = .error e) ∨
        ∃ a rest, events = ⟨op, .ok a⟩ :: rest ∧ Runs (f a) rest outcome :=
  runs_perform_bind_iff

/-- An event of another attempt than the given one, or of none. -/
def Concerns (callId : String) (event : ModelEvent) : Prop :=
  ∀ other, other ≠ callId → recordsCall other event = false ∧ failsStarted other event = false ∧
    ∀ reservation, reservedBy event ≠ some (other, reservation)

/-- The event neither reserves nor records a call. -/
def Quiet (event : ModelEvent) : Prop :=
  reservedBy event = none ∧ ∀ callId, recordsCall callId event = false

/-- What an announcement does: it ends before a reservation is allowed, or it
    reserves its call and succeeds if the run is not disturbed. -/
inductive Announced (env : ModelExecution) (request : ModelRequest) (attempt : Nat) :
    List ModelEvent → Except ModelFailure Unit → Prop
  | refused {events : List ModelEvent} {failure : ModelFailure} (hquiet : ∀ e ∈ events, Quiet e)
      (hown : ∀ e ∈ events, Concerns (env.callId request attempt) e) :
      Announced env request attempt events (.error failure)
  | reserved {before after : List ModelEvent} {limits : ModelBudgetLimits}
      {reservation : ModelBudgetReservation} {outcome : Except ModelFailure Unit}
      (hallowed : reservation.allowed = true) (hbefore : ∀ e ∈ before, Quiet e)
      (hafter : ∀ e ∈ after, Quiet e)
      (hown : ∀ e ∈ before ++ after, Concerns (env.callId request attempt) e)
      (hdisturbed : outcome = .ok () ↔ readsBefore reservation.deadlineAt after ∧
        after.all (fun e => !failsStarted (env.callId request attempt) e) = true) :
      Announced env request attempt
        (before ++ ⟨.reserveModelCall (env.callId request attempt) limits, .ok reservation⟩ :: after)
        outcome

/-- An event that is about no call. -/
def Plain (event : ModelEvent) : Prop :=
  reservedBy event = none ∧ ∀ callId, recordsCall callId event = false ∧
    failsStarted callId event = false

theorem Plain.quiet {event : ModelEvent} (h : Plain event) : Quiet event :=
  ⟨h.1, fun callId => (h.2 callId).1⟩

theorem Plain.concerns {event : ModelEvent} (h : Plain event) (callId : String) :
    Concerns callId event := by
  intro other _
  exact ⟨(h.2 other).1, (h.2 other).2, by simp [h.1]⟩

theorem Announced.of_plain {env : ModelExecution} {request : ModelRequest} {attempt : Nat}
    {events : List ModelEvent} (failure : ModelFailure) (h : ∀ e ∈ events, Plain e) :
    Announced env request attempt events (.error failure) :=
  .refused (fun e he => (h e he).quiet) (fun e he => (h e he).concerns _)

section

attribute [local simp] reservedBy recordsCall failsStarted

@[simp] theorem plain_throwIfAborted (answer) : Plain ⟨.throwIfAborted, answer⟩ := by
  simp [Plain]

@[simp] theorem plain_counters (answer) : Plain ⟨.counters, answer⟩ := by
  simp [Plain]

@[simp] theorem plain_now (answer) : Plain ⟨.now, answer⟩ := by
  simp [Plain]

@[simp] theorem plain_addCounters (calls tokens cost : Int) (answer) :
    Plain ⟨.addCounters calls tokens cost, answer⟩ := by
  simp [Plain]

@[simp] theorem plain_operation (callId : String) (answer) :
    Plain ⟨.operation callId, answer⟩ := by
  simp [Plain]

@[simp] theorem plain_requestAborted (answer) : Plain ⟨.requestAborted, answer⟩ := by
  simp [Plain]

@[simp] theorem plain_signalAborted (answer) : Plain ⟨.signalAborted, answer⟩ := by
  simp [Plain]

@[simp] theorem plain_delay (ms : Nat) (answer) : Plain ⟨.delay ms, answer⟩ := by
  simp [Plain]

/-- A reservation that failed or was not allowed. -/
theorem Announced.of_reserve {env : ModelExecution} {request : ModelRequest} {attempt : Nat}
    {before : List ModelEvent} {limits : ModelBudgetLimits}
    {answer : Except ModelFailure ModelBudgetReservation} (failure : ModelFailure)
    (hbefore : ∀ e ∈ before, Plain e)
    (hrefused : ∀ reservation, answer = .ok reservation → reservation.allowed = false) :
    Announced env request attempt
      (before ++ [⟨.reserveModelCall (env.callId request attempt) limits, answer⟩])
      (.error failure) := by
  have hreserve : Plain ⟨.reserveModelCall (env.callId request attempt) limits, answer⟩ := by
    cases answer with
    | error e => simp [Plain]
    | ok reservation =>
        simp [Plain, hrefused reservation rfl]
  apply Announced.of_plain
  intro e he
  rcases List.mem_append.1 he with he | he
  · exact hbefore e he
  · rw [List.mem_singleton.1 he]
    exact hreserve

/-- An event that only announces a call. -/
theorem quiet_emit (event : ModelRunEvent) (answer) : Quiet ⟨.emit event, answer⟩ := by
  simp [Quiet]

end

theorem runs_emit_iff {env : ModelExecution} {event : ModelRunEvent} {events : List ModelEvent}
    {outcome : Except ModelFailure Unit} : (env.emit event).Runs events outcome ↔
      if env.emits then events = [⟨.emit event, outcome⟩] else events = [] ∧ outcome = .ok () := by
  unfold emit
  split
  · constructor
    · intro h
      obtain ⟨answer, rest, rfl, hrest⟩ := runs_await_iff.1 h
      obtain ⟨rfl, rfl⟩ := runs_done_iff.1 hrest
      rfl
    · rintro rfl
      exact .await (.done _)
  · exact runs_done_iff

theorem not_lt_of_no_time {deadline now : Int} (h : decide (deadline - now ≤ 0) = true) :
    ¬ now < deadline := by
  have hpassed : deadline - now ≤ 0 := by simpa using h
  omega

/-- What an attempt does once its reservation was allowed. -/
theorem announce_reserved {env : ModelExecution} {request : ModelRequest} {attempt : Nat}
    {before after : List ModelEvent} {limits : ModelBudgetLimits}
    {reservation : ModelBudgetReservation} {outcome : Except ModelFailure Unit}
    (hallowed : reservation.allowed = true) (hbefore : ∀ e ∈ before, Plain e)
    (hbehaves : ∀ e ∈ after, Behaves e)
    (h : Runs (do
        let now ← await .now
        if reservation.deadlineAt.any (fun deadline => decide (deadline - now ≤ 0)) then
          exceeded "root work execution time exhausted"
        else do
          await (.addCounters 1 (request.input + request.output)
            (cost env.limits request.input request.output))
          if reservation.deadlineAt.isNone then
            .done (.error (.other (.error "The value of \"delay\" is out of range.")))
          else
            env.emit (.started (env.callId request attempt) (env.logicalCallId request)
              request.purpose env.modelName)) after outcome) :
    Announced env request attempt
      (before ++ ⟨.reserveModelCall (env.callId request attempt) limits, .ok reservation⟩ :: after)
      outcome := by
  -- Without an announcement, only the clock decides.
  have hplain : (∀ e ∈ after, Plain e) →
      (outcome = .ok () ↔ readsBefore reservation.deadlineAt after) →
      Announced env request attempt
        (before ++ ⟨.reserveModelCall (env.callId request attempt) limits, .ok reservation⟩ :: after)
        outcome := by
    intro hafter hdisturbed
    have hannounced : after.all (fun e => !failsStarted (env.callId request attempt) e) = true := by
      rw [List.all_eq_true]
      intro e he
      simp [((hafter e he).2 (env.callId request attempt)).2]
    apply Announced.reserved hallowed (fun e he => (hbefore e he).quiet)
      (fun e he => (hafter e he).quiet)
    · intro e he
      rcases List.mem_append.1 he with he | he
      · exact (hbefore e he).concerns _
      · exact (hafter e he).concerns _
    · simpa [hannounced] using hdisturbed
  obtain ⟨e, rfl, rfl⟩ | ⟨now, rest, rfl, hnow⟩ := runs_await_op_iff.1 h
  · exact absurd (hbehaves _ List.mem_cons_self) (by simp [Behaves])
  by_cases hlate : reservation.deadlineAt.any (fun deadline => decide (deadline - now ≤ 0)) = true
  · rw [if_pos hlate] at hnow
    obtain ⟨rfl, rfl⟩ := runs_done_iff.1 hnow
    obtain ⟨deadline, hdeadline, hpast⟩ := (Option.any_eq_true _ _).1 hlate
    have hpast' : ¬ now < deadline := not_lt_of_no_time hpast
    apply hplain
    · simp
    · simp [readsBefore, hdeadline, hpast']
  rw [if_neg hlate] at hnow
  obtain ⟨e, rfl, rfl⟩ | ⟨_, rest', rfl, hadd⟩ := runs_await_op_iff.1 hnow
  · have hthrown := hbehaves _ (List.mem_cons_of_mem _ List.mem_cons_self)
    exact absurd hthrown (by simp [Behaves])
  cases hdeadline : reservation.deadlineAt with
  | none =>
      rw [hdeadline] at hadd
      obtain ⟨rfl, rfl⟩ := runs_done_iff.1 hadd
      apply hplain
      · simp
      · simp [readsBefore, hdeadline]
  | some deadline =>
      have htime : now < deadline := by
        rw [hdeadline] at hlate
        simpa using hlate
      rw [hdeadline] at hadd
      have hemit := runs_emit_iff.1 hadd
      split at hemit
      · subst hemit
        -- The announcement is the last thing that can go wrong.
        apply Announced.reserved hallowed (fun e he => (hbefore e he).quiet)
        · intro e he
          simp only [List.mem_cons, List.not_mem_nil, or_false] at he
          rcases he with rfl | rfl | rfl
          · exact (plain_now _).quiet
          · exact (plain_addCounters _ _ _ _).quiet
          · exact quiet_emit _ _
        · intro e he
          simp only [List.mem_append, List.mem_cons, List.not_mem_nil, or_false] at he
          rcases he with he | rfl | rfl | rfl
          · exact (hbefore e he).concerns _
          · exact (plain_now _).concerns _
          · exact (plain_addCounters _ _ _ _).concerns _
          · intro other hother
            cases outcome <;> simp [reservedBy, recordsCall, failsStarted, Ne.symm hother]
        · cases outcome with
          | error failure => simp [failsStarted]
          | ok _ => simp [failsStarted, readsBefore, hdeadline, htime]
      · obtain ⟨rfl, rfl⟩ := hemit
        apply hplain
        · simp
        · simp [readsBefore, hdeadline, htime]

theorem announce_runs {env : ModelExecution} {request : ModelRequest} {attempt : Nat}
    {events : List ModelEvent} {outcome : Except ModelFailure Unit}
    (h : (env.announce request attempt).Runs events outcome) (hbehaves : ∀ e ∈ events, Behaves e) :
    Announced env request attempt events outcome := by
  unfold announce at h
  -- Until the reservation every way out is a refusal.
  obtain ⟨e, rfl, rfl⟩ | ⟨_, es₁, rfl, h₁⟩ := runs_await_op_iff.1 h
  · exact .of_plain _ (by simp)
  obtain ⟨e, rfl, rfl⟩ | ⟨counters, es₂, rfl, h₂⟩ := runs_await_op_iff.1 h₁
  · exact .of_plain _ (by simp)
  split at h₂
  · obtain ⟨rfl, rfl⟩ := runs_done_iff.1 h₂
    exact .of_plain _ (by simp)
  obtain ⟨e, rfl, rfl⟩ | ⟨now₁, es₃, rfl, h₃⟩ := runs_await_op_iff.1 h₂
  · exact .of_plain _ (by simp)
  split at h₃
  · obtain ⟨rfl, rfl⟩ := runs_done_iff.1 h₃
    exact .of_plain _ (by simp)
  obtain ⟨e, rfl, rfl⟩ | ⟨now₂, es₄, rfl, h₄⟩ := runs_await_op_iff.1 h₃
  · exact .of_plain _ (by simp)
  let before : List ModelEvent :=
    [⟨.throwIfAborted, .ok ()⟩, ⟨.counters, .ok counters⟩, ⟨.now, .ok now₁⟩, ⟨.now, .ok now₂⟩]
  have hbefore : ∀ e ∈ before, Plain e := by simp [before]
  obtain ⟨e, rfl, rfl⟩ | ⟨reservation, es₅, rfl, h₅⟩ := runs_await_op_iff.1 h₄
  · exact .of_reserve e hbefore (by simp)
  split at h₅
  · rename_i hrefused
    obtain ⟨rfl, rfl⟩ := runs_done_iff.1 h₅
    apply Announced.of_reserve (ModelFailure.other _) hbefore
    intro reservation' heq
    cases heq
    simpa using hrefused
  · rename_i hallowed
    exact announce_reserved (by simpa using hallowed) hbefore
      (fun e he => hbehaves e (by simp [he])) h₅

/-- The events record a call once, reserve none, and are about no other call. -/
structure RecordedOnce (callId : String) (events : List ModelEvent) : Prop where
  once : events.countP (recordsCall callId) = 1
  quiet : ∀ e ∈ events, reservedBy e = none
  own : ∀ e ∈ events, Concerns callId e
  calm : ∀ e ∈ events, failsStarted callId e = false

theorem countP_recordsCall_of_quiet {events : List ModelEvent} (callId : String)
    (h : ∀ e ∈ events, recordsCall callId e = false) : events.countP (recordsCall callId) = 0 := by
  rw [List.countP_eq_zero]
  intro e he
  simp [h e he]

theorem RecordedOnce.of_record {callId : String} {rest : List ModelEvent}
    (inputTokens outputTokens costMicros : Nat) (observed : ModelCallObservation)
    (answer : Except ModelFailure Unit) (hrest : ∀ e ∈ rest, Plain e) : RecordedOnce callId
      (⟨.recordModelUsage callId inputTokens outputTokens costMicros observed, answer⟩ :: rest) := by
  constructor
  · rw [List.countP_cons, countP_recordsCall_of_quiet callId fun e he => ((hrest e he).2 callId).1]
    simp [recordsCall]
  · intro e he
    rcases List.mem_cons.1 he with rfl | he
    · rfl
    · exact (hrest e he).1
  · intro e he
    rcases List.mem_cons.1 he with rfl | he
    · intro other hother
      simp [recordsCall, failsStarted, reservedBy, Ne.symm hother]
    · exact (hrest e he).concerns callId
  · intro e he
    rcases List.mem_cons.1 he with rfl | he
    · rfl
    · exact ((hrest e he).2 callId).2

theorem RecordedOnce.cons {callId : String} {event : ModelEvent} {events : List ModelEvent}
    (hevent : Plain event) (h : RecordedOnce callId events) :
    RecordedOnce callId (event :: events) := by
  constructor
  · rw [List.countP_cons, h.once, (hevent.2 callId).1]
    rfl
  · intro e he
    rcases List.mem_cons.1 he with rfl | he
    · exact hevent.1
    · exact h.quiet e he
  · intro e he
    rcases List.mem_cons.1 he with rfl | he
    · exact hevent.concerns callId
    · exact h.own e he
  · intro e he
    rcases List.mem_cons.1 he with rfl | he
    · exact (hevent.2 callId).2
    · exact h.calm e he

/-- A settlement records its call once and is about no other. -/
theorem settle_runs {env : ModelExecution} {request : ModelRequest} {attempt : Nat}
    {events : List ModelEvent} {outcome : Except ModelFailure (Except ModelFailure ModelResult)}
    (h : (env.settle request attempt).Runs events outcome) (hbehaves : ∀ e ∈ events, Behaves e) :
    RecordedOnce (env.callId request attempt) events := by
  unfold settle at h
  obtain ⟨answer, es₁, rfl, h₁⟩ := runs_attempt_bind_iff.1 h
  obtain ⟨e, rfl, rfl⟩ | ⟨_, es₂, rfl, h₂⟩ := runs_await_op_iff.1 h₁
  · have hthrown := hbehaves _ (List.mem_cons_of_mem _ List.mem_cons_self)
    exact absurd hthrown (by simp [Behaves])
  apply RecordedOnce.cons (plain_operation _ _)
  apply RecordedOnce.cons (plain_addCounters _ _ _ _)
  obtain ⟨e, rfl, rfl⟩ | ⟨_, es₃, rfl, h₃⟩ := runs_await_op_iff.1 h₂
  · exact .of_record _ _ _ _ _ (by simp)
  apply RecordedOnce.of_record
  obtain ⟨e, rfl, rfl⟩ | ⟨aborted, es₄, rfl, h₄⟩ := runs_await_op_iff.1 h₃
  · simp
  split at h₄
  · obtain ⟨rfl, rfl⟩ := runs_done_iff.1 h₄
    simp
  · have hfinished : ∀ {es : List ModelEvent} {o : Except ModelFailure Unit},
        (env.emit (.finished (env.observation request attempt answer))).Runs es o →
          ∀ e ∈ es, Plain e := by
      intro es o hemit
      have hcases := runs_emit_iff.1 hemit
      split at hcases
      · subst hcases
        simp [Plain, reservedBy, recordsCall, failsStarted]
      · simp [hcases.1]
    rcases runs_bind_iff.1 h₄ with ⟨e, hemit, rfl⟩ | ⟨_, es, rest, rfl, hemit, hdone⟩
    · simpa using hfinished hemit
    · obtain ⟨rfl, rfl⟩ := runs_done_iff.1 hdone
      simpa using hfinished hemit

/-! ## Lists of events -/

theorem settled_append {first rest : List ModelEvent} (h : ∀ e ∈ first, reservedBy e = none) :
    Settled (first ++ rest) ↔ Settled rest := by
  induction first with
  | nil => rfl
  | cons event first ih =>
      simp only [List.cons_append, Settled, h event List.mem_cons_self, reduceCtorEq,
        false_implies, implies_true, true_and]
      exact ih fun e he => h e (List.mem_cons_of_mem _ he)

theorem undisturbed_append {first rest : List ModelEvent} (h : ∀ e ∈ first, reservedBy e = none) :
    Undisturbed (first ++ rest) ↔ Undisturbed rest := by
  induction first with
  | nil => rfl
  | cons event first ih =>
      simp only [List.cons_append, Undisturbed, h event List.mem_cons_self, reduceCtorEq,
        false_implies, implies_true, true_and]
      exact ih fun e he => h e (List.mem_cons_of_mem _ he)

/-- A list without reservations. -/
theorem settled_iff_of_quiet {events : List ModelEvent} (h : ∀ e ∈ events, reservedBy e = none) :
    Settled events ↔ Undisturbed events := by
  have hsettled := @settled_append events [] h
  have hundisturbed := @undisturbed_append events [] h
  rw [List.append_nil] at hsettled hundisturbed
  rw [hsettled, hundisturbed]
  rfl

theorem readsBefore_append {deadline : Option Int} {events : List ModelEvent}
    (h : readsBefore deadline events) (rest : List ModelEvent) :
    readsBefore deadline (events ++ rest) := by
  cases events with
  | nil => exact h.elim
  | cons event events =>
      unfold readsBefore at h ⊢
      split at h
      · simp_all
      · exact h.elim

/-! ## Every attempt -/

/-- A run of the attempts that are left is about their call ids only, and settles
    what it reserves exactly when it is not disturbed. -/
structure AttemptsRun (env : ModelExecution) (request : ModelRequest) (left : Nat)
    (events : List ModelEvent) : Prop where
  own : ∀ callId, (∀ attempt, 3 - left ≤ attempt → attempt ≤ 3 →
    callId ≠ env.callId request attempt) →
      ∀ e ∈ events, recordsCall callId e = false ∧ failsStarted callId e = false
  settled_iff : Settled events ↔ Undisturbed events

section

variable {env : ModelExecution} {request : ModelRequest} {left : Nat}

/-- An attempt that ended before it was announced. -/
theorem AttemptsRun.of_announce {events : List ModelEvent} {failure : ModelFailure}
    (h : Announced env request (3 - left) events (.error failure)) :
    AttemptsRun env request left events := by
  cases h with
  | refused hquiet hown =>
      refine ⟨?_, settled_iff_of_quiet fun e he => (hquiet e he).1⟩
      intro callId hother e he
      obtain ⟨hrecords, hfails, -⟩ := hown e he callId (hother _ le_rfl (Nat.sub_le 3 left))
      exact ⟨hrecords, hfails⟩
  | @reserved before after limits reservation _ hallowed hbefore hafter hown hdisturbed =>
      constructor
      · intro callId hother e he
        have hne := hother _ le_rfl (Nat.sub_le 3 left)
        rcases List.mem_append.1 he with he | he
        · obtain ⟨hrecords, hfails, -⟩ := hown e (List.mem_append_left _ he) callId hne
          exact ⟨hrecords, hfails⟩
        · rcases List.mem_cons.1 he with rfl | he
          · exact ⟨rfl, rfl⟩
          · obtain ⟨hrecords, hfails, -⟩ := hown e (List.mem_append_right _ he) callId hne
            exact ⟨hrecords, hfails⟩
      · -- Nothing records the call, and something disturbed it.
        have hnone : after.countP (recordsCall (env.callId request (3 - left))) = 0 :=
          countP_recordsCall_of_quiet _ fun e he => (hafter e he).2 _
        have hbefore' : ∀ e ∈ before, reservedBy e = none := fun e he => (hbefore e he).1
        rw [settled_append hbefore', undisturbed_append hbefore']
        have hfailed := hdisturbed.not.1 (by simp)
        constructor
        · rintro ⟨hsettled, -⟩
          have hone := hsettled (env.callId request (3 - left)) reservation
            (by simp [reservedBy, hallowed])
          omega
        · rintro ⟨hundisturbed, -⟩
          exact absurd (hundisturbed _ reservation (by simp [reservedBy, hallowed])) hfailed

/-- An attempt that was announced and settled, and what follows it. -/
theorem AttemptsRun.of_settle {announced settled rest : List ModelEvent}
    (hannounced : Announced env request (3 - left) announced (.ok ()))
    (hsettled : RecordedOnce (env.callId request (3 - left)) settled)
    (hown : ∀ callId, (∀ attempt, 3 - left < attempt → attempt ≤ 3 →
      callId ≠ env.callId request attempt) →
        ∀ e ∈ rest, recordsCall callId e = false ∧ failsStarted callId e = false)
    (hrest : Settled rest ↔ Undisturbed rest) (hleft : left ≤ 2) :
    AttemptsRun env request left (announced ++ (settled ++ rest)) := by
  cases hannounced with
  | @reserved before after limits reservation _ hallowed hbefore hafter hownAnnounced hdisturbed =>
      -- No later attempt runs under this attempt's call id.
      have hlater : ∀ e ∈ rest, recordsCall (env.callId request (3 - left)) e = false ∧
          failsStarted (env.callId request (3 - left)) e = false := by
        apply hown
        intro attempt hlt hle
        exact callId_ne env request (by omega) hlt hle
      constructor
      · intro callId hother e he
        have hne := hother _ le_rfl (Nat.sub_le 3 left)
        simp only [List.append_assoc, List.mem_append, List.cons_append, List.mem_cons] at he
        rcases he with he | rfl | he | he | he
        · obtain ⟨hrecords, hfails, -⟩ := hownAnnounced e (List.mem_append_left _ he) callId hne
          exact ⟨hrecords, hfails⟩
        · exact ⟨rfl, rfl⟩
        · obtain ⟨hrecords, hfails, -⟩ := hownAnnounced e (List.mem_append_right _ he) callId hne
          exact ⟨hrecords, hfails⟩
        · obtain ⟨hrecords, hfails, -⟩ := hsettled.own e he callId hne
          exact ⟨hrecords, hfails⟩
        · exact hown callId (fun attempt hlt hle => hother attempt hlt.le hle) e he
      · obtain ⟨hclock, hstarted⟩ := hdisturbed.1 rfl
        -- The reservation is recorded once: in the settlement, and nowhere else.
        have honce : (after ++ (settled ++ rest)).countP
            (recordsCall (env.callId request (3 - left))) = 1 := by
          rw [List.countP_append, List.countP_append, hsettled.once,
            countP_recordsCall_of_quiet _ fun e he => (hafter e he).2 _,
            countP_recordsCall_of_quiet _ fun e he => (hlater e he).1]
        have hcalm : (after ++ (settled ++ rest)).all
            (fun e => !failsStarted (env.callId request (3 - left)) e) = true := by
          rw [List.all_append, hstarted, Bool.true_and, List.all_eq_true]
          intro e he
          rcases List.mem_append.1 he with he | he
          · simp [hsettled.calm e he]
          · simp [(hlater e he).2]
        have hquiet : ∀ e ∈ after ++ settled, reservedBy e = none := by
          intro e he
          rcases List.mem_append.1 he with he | he
          · exact (hafter e he).1
          · exact hsettled.quiet e he
        have hbefore' : ∀ e ∈ before, reservedBy e = none := fun e he => (hbefore e he).1
        have hreserved : ∀ {callId : String} {answered : ModelBudgetReservation},
            reservedBy ⟨.reserveModelCall (env.callId request (3 - left)) limits, .ok reservation⟩
              = some (callId, answered) →
                callId = env.callId request (3 - left) ∧ answered = reservation := by
          intro callId answered h
          simp only [reservedBy, hallowed, if_true, Option.some.injEq, Prod.mk.injEq] at h
          exact ⟨h.1.symm, h.2.symm⟩
        rw [List.append_assoc, settled_append hbefore', undisturbed_append hbefore',
          List.cons_append, Settled, Undisturbed, ← List.append_assoc, settled_append hquiet,
          undisturbed_append hquiet, List.append_assoc]
        constructor
        · rintro ⟨-, h⟩
          refine ⟨?_, hrest.1 h⟩
          intro callId answered hreserve
          obtain ⟨rfl, rfl⟩ := hreserved hreserve
          exact ⟨readsBefore_append hclock _, hcalm⟩
        · rintro ⟨-, h⟩
          refine ⟨?_, hrest.2 h⟩
          intro callId answered hreserve
          obtain ⟨rfl, rfl⟩ := hreserved hreserve
          exact honce

/-- One attempt: announced, settled, and after a failure whatever comes next. -/
theorem attempt_runs {next : ModelFailure → ModelProgram ModelOutcome} {result : ModelResult → ModelOutcome}
    {events : List ModelEvent} {outcome : Except ModelFailure ModelOutcome} (hleft : left ≤ 2)
    (hnext : ∀ failure events, (next failure).Runs events outcome → (∀ e ∈ events, Behaves e) →
      (∀ callId, (∀ attempt, 3 - left < attempt → attempt ≤ 3 →
        callId ≠ env.callId request attempt) →
          ∀ e ∈ events, recordsCall callId e = false ∧ failsStarted callId e = false) ∧
        (Settled events ↔ Undisturbed events))
    (h : Runs (do
      env.announce request (3 - left)
      match ← env.settle request (3 - left) with
      | .ok answered => pure (result answered)
      | .error failure => next failure) events outcome)
    (hbehaves : ∀ e ∈ events, Behaves e) : AttemptsRun env request left events := by
  rcases runs_bind_iff.1 h with ⟨e, hannounce, rfl⟩ | ⟨_, announced, es₁, rfl, hannounce, h₁⟩
  · exact .of_announce (announce_runs hannounce hbehaves)
  have hannounced := announce_runs hannounce fun e he => hbehaves e (List.mem_append_left _ he)
  have hbehaves₁ : ∀ e ∈ es₁, Behaves e := fun e he => hbehaves e (List.mem_append_right _ he)
  rcases runs_bind_iff.1 h₁ with ⟨e, hsettle, rfl⟩ | ⟨answer, settled, es₂, rfl, hsettle, h₂⟩
  · have hsettled := settle_runs hsettle hbehaves₁
    have hwhole : AttemptsRun env request left (announced ++ (es₁ ++ [])) :=
      .of_settle hannounced hsettled (by simp) Iff.rfl hleft
    simpa using hwhole
  have hsettled := settle_runs hsettle fun e he => hbehaves₁ e (List.mem_append_left _ he)
  have hbehaves₂ : ∀ e ∈ es₂, Behaves e := fun e he => hbehaves₁ e (List.mem_append_right _ he)
  cases answer with
  | ok answered =>
      obtain ⟨rfl, rfl⟩ := runs_done_iff.1 h₂
      exact .of_settle hannounced hsettled (by simp) Iff.rfl hleft
  | error failure =>
      obtain ⟨hown, hrest⟩ := hnext failure es₂ h₂ hbehaves₂
      exact .of_settle hannounced hsettled hown hrest hleft

end

/-- What an attempt goes on with after a failure. -/
def goOn (env : ModelExecution) (request : ModelRequest) (left : Nat) (failure : ModelFailure) :
    ModelProgram ModelOutcome :=
  if !failure.isDriver then .done (.error failure)
  else match left with
    | 0 => .done (.error failure)
    | left + 1 => do
        let aborted ← await .signalAborted
        if aborted || !retriable failure then .done (.error failure)
        else do
          await (.delay (min 2000 (250 * 2 ^ (3 - (left + 1) - 1))))
          env.attempts request left

theorem attempts_eq (env : ModelExecution) (request : ModelRequest) (left : Nat) :
    env.attempts request left = (do
      env.announce request (3 - left)
      match ← env.settle request (3 - left) with
      | .ok answered =>
          pure ⟨answered, env.callId request (3 - left), env.logicalCallId request⟩
      | .error failure => goOn env request left failure) := by
  rw [attempts.eq_def]
  apply congrArg (env.announce request (3 - left) >>= ·)
  funext _
  apply congrArg (env.settle request (3 - left) >>= ·)
  funext answer
  cases answer with
  | ok answered => rfl
  | error failure => cases left <;> rfl

/-- What follows an attempt that failed is about later call ids only. -/
theorem goOn_runs {env : ModelExecution} {request : ModelRequest} {left : Nat}
    {failure : ModelFailure} {events : List ModelEvent}
    {outcome : Except ModelFailure ModelOutcome} (hleft : left ≤ 2)
    (hnext : ∀ left' events, left = left' + 1 → (env.attempts request left').Runs events outcome →
      (∀ e ∈ events, Behaves e) → AttemptsRun env request left' events)
    (h : (goOn env request left failure).Runs events outcome) (hbehaves : ∀ e ∈ events, Behaves e) :
    (∀ callId, (∀ attempt, 3 - left < attempt → attempt ≤ 3 →
      callId ≠ env.callId request attempt) →
        ∀ e ∈ events, recordsCall callId e = false ∧ failsStarted callId e = false) ∧
      (Settled events ↔ Undisturbed events) := by
  have hplain : ∀ {es rest : List ModelEvent}, (∀ e ∈ es, Plain e) →
      ((∀ callId, (∀ attempt, 3 - left < attempt → attempt ≤ 3 →
        callId ≠ env.callId request attempt) →
          ∀ e ∈ rest, recordsCall callId e = false ∧ failsStarted callId e = false) ∧
        (Settled rest ↔ Undisturbed rest)) →
      (∀ callId, (∀ attempt, 3 - left < attempt → attempt ≤ 3 →
        callId ≠ env.callId request attempt) →
          ∀ e ∈ es ++ rest, recordsCall callId e = false ∧ failsStarted callId e = false) ∧
        (Settled (es ++ rest) ↔ Undisturbed (es ++ rest)) := by
    rintro es rest hes ⟨hown, hrest⟩
    refine ⟨?_, ?_⟩
    · intro callId hother e he
      rcases List.mem_append.1 he with he | he
      · exact (hes e he).2 callId
      · exact hown callId hother e he
    · rw [settled_append fun e he => (hes e he).1, undisturbed_append fun e he => (hes e he).1]
      exact hrest
  have hended : ∀ {es : List ModelEvent}, (∀ e ∈ es, Plain e) →
      (∀ callId, (∀ attempt, 3 - left < attempt → attempt ≤ 3 →
        callId ≠ env.callId request attempt) →
          ∀ e ∈ es, recordsCall callId e = false ∧ failsStarted callId e = false) ∧
        (Settled es ↔ Undisturbed es) := by
    intro es hes
    exact ⟨fun callId _ e he => (hes e he).2 callId, settled_iff_of_quiet fun e he => (hes e he).1⟩
  unfold goOn at h
  split at h
  · obtain ⟨rfl, rfl⟩ := runs_done_iff.1 h
    exact hended (by simp)
  cases left with
  | zero =>
      obtain ⟨rfl, rfl⟩ := runs_done_iff.1 h
      exact hended (by simp)
  | succ left =>
      obtain ⟨e, rfl, rfl⟩ | ⟨aborted, es₁, rfl, h₁⟩ := runs_await_op_iff.1 h
      · exact hended (by simp)
      split at h₁
      · obtain ⟨rfl, rfl⟩ := runs_done_iff.1 h₁
        exact hended (by simp)
      obtain ⟨e, rfl, rfl⟩ | ⟨_, es₂, rfl, h₂⟩ := runs_await_op_iff.1 h₁
      · exact hended (by simp)
      have hlater := hnext left es₂ rfl h₂ fun e he => hbehaves e (by simp [he])
      have hown : ∀ callId, (∀ attempt, 3 - (left + 1) < attempt → attempt ≤ 3 →
          callId ≠ env.callId request attempt) →
            ∀ e ∈ es₂, recordsCall callId e = false ∧ failsStarted callId e = false := by
        intro callId hother
        apply hlater.own callId
        intro attempt hge hle
        exact hother attempt (by omega) hle
      exact @hplain [_, _] es₂ (by simp) ⟨hown, hlater.settled_iff⟩

theorem attempts_runs {env : ModelExecution} {request : ModelRequest} {left : Nat}
    {events : List ModelEvent} {outcome : Except ModelFailure ModelOutcome} (hleft : left ≤ 2)
    (h : (env.attempts request left).Runs events outcome) (hbehaves : ∀ e ∈ events, Behaves e) :
    AttemptsRun env request left events := by
  induction left generalizing events with
  | zero =>
      rw [attempts_eq] at h
      apply attempt_runs hleft _ h hbehaves
      intro failure events hrun hbehaves'
      exact goOn_runs hleft (fun left' events hzero => absurd hzero (by omega)) hrun hbehaves'
  | succ left ih =>
      rw [attempts_eq] at h
      apply attempt_runs hleft _ h hbehaves
      intro failure events hrun hbehaves'
      apply goOn_runs hleft _ hrun hbehaves'
      rintro left' es heq h' hes
      obtain rfl : left = left' := by omega
      exact ih (by omega) h' hes

/-! ## Every run of a call -/

private def trialExecution : ModelExecution where
  workId := "work"
  fence := 1
  modelId := none
  limits := {}
  started := 0
  emits := true

private def trialCall : ModelRequest where
  purpose := .agentTurn
  instructionsSha256 := none
  prompt := none
  input := 3
  output := 2
  sequence := 1

/-- A host that allows every reservation until a deadline, and a provider that
    answers, at some reading of the clock. -/
private def trialHost (clock deadline : Int) : (op : ModelOp) → Except ModelFailure op.Value
  | .now => .ok clock
  | .counters => .ok ⟨0, 0, 0⟩
  | .reserveModelCall _ _ => .ok ⟨true, 1, .ofInt 5, .ofInt 0, some deadline⟩
  | .operation _ => .ok ⟨none, ⟨true, 3, 1⟩, .null⟩
  | .requestAborted => .ok false
  | .signalAborted => .ok false
  | .addCounters _ _ _ => .ok ()
  | .throwIfAborted => .ok ()
  | .recordModelUsage _ _ _ _ _ => .ok ()
  | .emit _ => .ok ()
  | .delay _ => .ok ()

private theorem trialHost_behaves (clock deadline : Int) (op : ModelOp) :
    Behaves ⟨op, trialHost clock deadline op⟩ := by
  cases op <;> exact trivial

end LingxiOS.ModelExecution
