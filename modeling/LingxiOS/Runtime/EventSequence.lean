-- SUMMARY: When no event of an attempt is dropped for another.
import LingxiOS.Base.Increasing
import LingxiOS.Runtime.EventOrder

/-! # The Events of an Attempt

The recovery runs on the control plane while the runtime awaits it; its answer may
be lost, and it may go on after the runtime has given up on it. What either of them
submits is recorded later, possibly twice. -/

namespace LingxiOS

open Program

/-! ## Runs of one attempt -/

/-- One attempt: what is stored of the run, what was submitted, the recovery, if one
    was begun, and the runtime. -/
structure AttemptState (H : Type) (V : H → Type) where
  events : MemoryEventStore
  submitted : List RunEvent
  recovery : Option (Call RecoverOp RecoverOp.Value Failure Bool)
  runtime : Call (NumberedOp H) (NumberedOp.Value V) Failure Unit

inductive AttemptStep (H : Type) (V : H → Type) where
  /-- A request of the runtime reaches the control plane. -/
  | recover
  | recovery (event : RecoverEvent)
  | runtime (event : NumberedEvent H V)
  | record (event : RunEvent)

section Runs

variable {H : Type} {V : H → Type}

/-- An event handed to `recordEvent` is submitted; a call that fails may not have been sent. -/
def Submits {ε : Type} (event : RunEvent) (answer : Except ε Unit) (before after : List RunEvent) :
    Prop :=
  after = before ++ [event] ∨ (∃ e, answer = .error e) ∧ after = before

def RecoverEvent.Submits : RecoverEvent → List RunEvent → List RunEvent → Prop
  | ⟨.recordEvent event, answer⟩, before, after => LingxiOS.Submits event answer before after
  | _, before, after => after = before

def NumberedEvent.Submits : NumberedEvent H V → List RunEvent → List RunEvent → Prop
  | ⟨.emitEvent event, answer⟩, before, after => LingxiOS.Submits event answer before after
  | _, before, after => after = before

namespace AttemptState

/-- No recovery is under way. -/
def Idle (s : AttemptState H V) : Prop :=
  ∀ call, s.recovery = some call → ∃ outcome, call.rest = .done outcome

/-- What the runtime may hear of the recovery: how it ended, or any error. Without a
    recovery the control plane has none to offer. -/
def MayHear (s : AttemptState H V) : NumberedEvent H V → Prop
  | ⟨.call .recoverWork, .ok answer⟩ =>
      (∃ call, s.recovery = some call ∧ call.rest = .done (.ok answer))
        ∨ s.recovery = none ∧ answer = false
  | _ => True

end AttemptState

/-- Every interleaving of the recovery, the runtime and the recording of events. -/
def attempts (work : WorkItem) (proof : LeaseProof) (processor : Processor H V) :
    TransitionSystem (AttemptState H V) (AttemptStep H V) where
  start s := s.submitted = [] ∧ s.recovery = none ∧ s.runtime = ⟨[], numberedWork work processor⟩
    ∧ ∀ seq, sequenceStart work.fence < seq → seq ≤ work.fence * RUN_SEQUENCE_SPAN →
      s.events.stored work.id seq = none
  step s label s' := match label with
    | .recover => s.runtime.trace = [] ∧ s.Idle
        ∧ s' = { s with recovery := some ⟨[], recoverWork proof⟩ }
    | .recovery event => ∃ trace next submitted, s.recovery = some ⟨trace, .await event.op next⟩
        ∧ (recording work.fence).trusts (recording work.fence |>.after false trace) event
        ∧ RecoverEvent.Submits event s.submitted submitted
        ∧ s' = { s with
            submitted := submitted
            recovery := some ⟨trace ++ [event], next event.answer⟩ }
    | .runtime event => ∃ trace next submitted, s.runtime = ⟨trace, .await event.op next⟩
        ∧ s.MayHear event ∧ NumberedEvent.Submits event s.submitted submitted
        ∧ s' = { s with
            submitted := submitted
            runtime := ⟨trace ++ [event], next event.answer⟩ }
    | .record event => event ∈ s.submitted ∧ checkEvent work.id work.fence event = .ok ()
        ∧ s' = { s with events := (s.events.append event).2 }

/-- A recovery that has submitted its event settles the attempt: no other one begins
    after it, and the runtime is told that the work is settled. -/
def RecoverySettles (s : AttemptState H V) : AttemptStep H V → Prop
  | .recover => s.submitted = []
  | .runtime ⟨.call .recoverWork, answer⟩ => answer = .ok true ∨ s.submitted = [] ∧ s.Idle
  | _ => True

/-! ## The invariant -/

/-- What the runtime was told, and the number of its last event. -/
def AttemptState.counted (work : WorkItem) (s : AttemptState H V) : Counted :=
  counting.after ⟨none, sequenceStart work.fence⟩ s.runtime.trace

structure AttemptSound (work : WorkItem) (s : AttemptState H V) : Prop where
  runtime : Call.Obeys counting (fun _ _ => True) ⟨none, sequenceStart work.fence⟩ s.runtime
  recovery : ∀ call, s.recovery = some call →
    Call.Obeys (recording work.fence) (fun _ _ => True) false call
  /-- Before the runtime is told anything, the only event is the one of the recovery. -/
  before : (s.counted work).heard = none → (s.counted work).seq = sequenceStart work.fence ∧
    ∀ event ∈ s.submitted, ∃ call, s.recovery = some call ∧
      (recording work.fence).after false call.trace = true
  heard : (s.counted work).heard ≠ none → s.Idle
  /-- A runtime that goes on has submitted every event itself. -/
  after : (s.counted work).heard.GoesOn → ∀ event ∈ s.submitted, event.seq ≤ (s.counted work).seq
  increasing : s.submitted.Pairwise (fun a b => a.seq < b.seq)
  stored : ∀ seq event, sequenceStart work.fence < seq → seq ≤ work.fence * RUN_SEQUENCE_SPAN →
    s.events.stored work.id seq = some event → event ∈ s.submitted ∧ event.seq = seq

variable {work : WorkItem} {proof : LeaseProof} {processor : Processor H V}
  {s s' : AttemptState H V} {label : AttemptStep H V}

theorem AttemptSound.start (h : (attempts work proof processor).start s) : AttemptSound work s := by
  obtain ⟨hsubmitted, hrecovery, hruntime, hstored⟩ := h
  have hcounted : s.counted work = ⟨none, sequenceStart work.fence⟩ := by
    rw [AttemptState.counted, hruntime]
    rfl
  constructor
  · rw [hruntime]
    exact numberedWork_counting
  · intro call hcall
    rw [hrecovery] at hcall
    cases hcall
  · intro _
    rw [hcounted, hsubmitted]
    exact ⟨rfl, fun event hevent => absurd hevent List.not_mem_nil⟩
  · intro hheard
    rw [hcounted] at hheard
    exact absurd rfl hheard
  · rintro ⟨answer, hanswer, -⟩
    rw [hcounted] at hanswer
    cases hanswer
  · rw [hsubmitted]
    exact List.Pairwise.nil
  · intro seq event hlow hhigh hevent
    rw [hstored seq hlow hhigh] at hevent
    cases hevent

theorem RecoverEvent.submits_cases {event : RecoverEvent} {before after : List RunEvent}
    (h : RecoverEvent.Submits event before after) : after = before ∨
      ∃ submitted, event.op = .recordEvent submitted ∧ after = before ++ [submitted] := by
  obtain ⟨op, answer⟩ := event
  cases op with
  | recordEvent submitted =>
      rcases h with h | ⟨-, h⟩
      · exact .inr ⟨submitted, rfl, h⟩
      · exact .inl h
  | _ => exact .inl h

theorem recording_mono {fence : Nat} {event : RecoverEvent} :
    (recording fence).next true event = true := by
  obtain ⟨op, answer⟩ := event
  cases op <;> rfl

theorem recording_of_record {fence : Nat} {recorded : Bool} {event : RecoverEvent}
    {submitted : RunEvent} (h : event.op = .recordEvent submitted) :
    (recording fence).next recorded event = true := by
  obtain ⟨op, answer⟩ := event
  cases h
  rfl

theorem not_recorded_of_allows {fence : Nat} {recorded : Bool} {op : RecoverOp} {submitted : RunEvent}
    (hop : op = .recordEvent submitted) (h : (recording fence).allows recorded op) :
    recorded = false := by
  cases hop
  exact h.1

/-! ## Steps -/

theorem AttemptSound.recover (h : AttemptSound work s) (hcurrent : s.submitted = [])
    (htrace : s.runtime.trace = []) :
    AttemptSound work { s with recovery := some ⟨[], recoverWork proof⟩ } := by
  have hcounted : s.counted work = ⟨none, sequenceStart work.fence⟩ := by
    rw [AttemptState.counted, htrace]
    rfl
  have hnone : (s.counted work).heard = none := by rw [hcounted]
  constructor
  · exact h.runtime
  · intro call hcall
    cases hcall
    exact recoverWork_recording
  · intro _
    refine ⟨(h.before hnone).1, fun event hevent => ?_⟩
    rw [show s.submitted = [] from hcurrent] at hevent
    cases hevent
  · exact fun hheard => absurd hnone hheard
  · rintro ⟨answer, hanswer, -⟩
    cases hnone.symm.trans hanswer
  · exact h.increasing
  · exact h.stored

/-- A recovery records its one event while the runtime still waits for it. -/
theorem AttemptSound.recovers (h : AttemptSound work s) {event : RecoverEvent}
    {trace : List RecoverEvent} {next : Except Failure event.op.Value → Recovery Bool}
    {submitted : List RunEvent} (hrecovery : s.recovery = some ⟨trace, .await event.op next⟩)
    (htrust : (recording work.fence).trusts ((recording work.fence).after false trace) event)
    (hsubmits : RecoverEvent.Submits event s.submitted submitted) :
    AttemptSound work { s with
      submitted := submitted
      recovery := some ⟨trace ++ [event], next event.answer⟩ } := by
  have hnone : (s.counted work).heard = none := by
    by_contra hheard
    obtain ⟨outcome, hdone⟩ := h.heard hheard _ hrecovery
    cases hdone
  have hobeys := h.recovery _ hrecovery
  have hstate : ∀ event' ∈ s.submitted, (recording work.fence).after false trace = true := by
    intro event' hevent'
    obtain ⟨call, hcall, hrecorded⟩ := (h.before hnone).2 event' hevent'
    rw [hrecovery] at hcall
    cases hcall
    exact hrecorded
  constructor
  · exact h.runtime
  · intro call hcall
    cases hcall
    exact hobeys.step htrust
  · intro _
    refine ⟨(h.before hnone).1, fun event' hevent' => ⟨_, rfl, ?_⟩⟩
    rw [Monitor.after_concat]
    rcases RecoverEvent.submits_cases hsubmits with hsame | ⟨recorded, hop, -⟩
    · rw [hstate event' (hsame ▸ hevent')]
      exact recording_mono
    · exact recording_of_record hop
  · exact fun hheard => absurd hnone hheard
  · rintro ⟨answer, hanswer, -⟩
    cases hnone.symm.trans hanswer
  · rcases RecoverEvent.submits_cases hsubmits with hsame | ⟨recorded, hop, hsubmitted⟩
    · rw [show submitted = s.submitted from hsame]
      exact h.increasing
    · -- Nothing was submitted before a recovery records its event.
      have hempty : s.submitted = [] := by
        rw [List.eq_nil_iff_forall_not_mem]
        intro event' hevent'
        have hfresh := not_recorded_of_allows hop hobeys.1
        exact Bool.false_ne_true (hfresh.symm.trans (hstate event' hevent'))
      rw [show submitted = s.submitted ++ [recorded] from hsubmitted, hempty]
      exact List.pairwise_singleton _ _
  · intro seq stored hlow hhigh hstored
    obtain ⟨hmem, hseq⟩ := h.stored seq stored hlow hhigh hstored
    refine ⟨?_, hseq⟩
    rcases RecoverEvent.submits_cases hsubmits with hsame | ⟨recorded, -, hsubmitted⟩
    · exact hsame ▸ hmem
    · exact hsubmitted ▸ List.mem_append_left _ hmem

/-- What a runtime step changes, once its number and what it was told are known. -/
theorem AttemptSound.runs (h : AttemptSound work s) {runtime : Call (NumberedOp H)
      (NumberedOp.Value V) Failure Unit} {submitted : List RunEvent} {counted : Counted}
    (hobeys : Call.Obeys counting (fun _ _ => True) ⟨none, sequenceStart work.fence⟩ runtime)
    (hcounted : counting.after ⟨none, sequenceStart work.fence⟩ runtime.trace = counted)
    (hheard : counted.heard ≠ none → s.Idle)
    (hbefore : counted.heard = none → counted = s.counted work ∧ submitted = s.submitted)
    (hafter : counted.heard.GoesOn → ∀ event ∈ submitted, event.seq ≤ counted.seq)
    (hincreasing : submitted.Pairwise (fun a b => a.seq < b.seq))
    (hkept : ∀ event ∈ s.submitted, event ∈ submitted) :
    AttemptSound work { s with submitted := submitted, runtime := runtime } := by
  have hstate : AttemptState.counted work { s with submitted := submitted, runtime := runtime }
      = counted := hcounted
  constructor
  · exact hobeys
  · exact h.recovery
  · intro hnone
    rw [hstate] at hnone ⊢
    obtain ⟨rfl, rfl⟩ := hbefore hnone
    exact h.before hnone
  · intro hsome
    rw [hstate] at hsome
    exact hheard hsome
  · intro hgoes
    rw [hstate] at hgoes ⊢
    exact hafter hgoes
  · exact hincreasing
  · intro seq event hlow hhigh hstored
    obtain ⟨hmem, hseq⟩ := h.stored seq event hlow hhigh hstored
    exact ⟨hkept event hmem, hseq⟩

/-- The runtime emits an event, under the next number. -/
theorem AttemptSound.emits (h : AttemptSound work s) {event : RunEvent}
    {answer : Except Failure Unit} {trace : List (NumberedEvent H V)}
    {next : Except Failure Unit → Numbered H V Unit} {submitted : List RunEvent}
    (hruntime : s.runtime = ⟨trace, .await (.emitEvent event) next⟩)
    (hsubmits : Submits event answer s.submitted submitted) :
    AttemptSound work { s with
      submitted := submitted
      runtime := ⟨trace ++ [⟨.emitEvent event, answer⟩], next answer⟩ } := by
  have hobeys := h.runtime
  rw [hruntime] at hobeys
  have hstate : s.counted work = counting.after ⟨none, sequenceStart work.fence⟩ trace := by
    rw [AttemptState.counted, hruntime]
  obtain ⟨hgoes, hseq⟩ : (s.counted work).heard.GoesOn ∧ event.seq = (s.counted work).seq + 1 := by
    rw [hstate]
    exact hobeys.1
  have hsome : (s.counted work).heard ≠ none := by
    obtain ⟨answer, hanswer, -⟩ := hgoes
    rw [hanswer]
    exact Option.some_ne_none _
  have hbelow := h.after hgoes
  have hnext : counting.after ⟨none, sequenceStart work.fence⟩
      (trace ++ [⟨.emitEvent event, answer⟩])
      = ⟨(s.counted work).heard, (s.counted work).seq + 1⟩ := by
    rw [Monitor.after_concat, ← hstate]
    rfl
  apply h.runs (hobeys.step trivial) hnext
  · exact h.heard
  · exact fun hnone => absurd hnone hsome
  · intro _ event' hevent'
    rcases hsubmits with rfl | ⟨-, rfl⟩
    · rcases List.mem_append.1 hevent' with hold | hnew
      · exact Nat.le_succ_of_le (hbelow event' hold)
      · rw [List.mem_singleton.1 hnew, hseq]
    · exact Nat.le_succ_of_le (hbelow event' hevent')
  · rcases hsubmits with rfl | ⟨-, rfl⟩
    · rw [List.pairwise_append]
      refine ⟨h.increasing, List.pairwise_singleton _ _, fun a ha b hb => ?_⟩
      rw [List.mem_singleton.1 hb, hseq]
      exact Nat.lt_succ_of_le (hbelow a ha)
    · exact h.increasing
  · intro event' hevent'
    rcases hsubmits with rfl | ⟨-, rfl⟩
    · exact List.mem_append_left _ hevent'
    · exact hevent'

/-- The runtime awaits a call of the host, which submits nothing. -/
theorem AttemptSound.calls (h : AttemptSound work s) {op : RuntimeCall H}
    {answer : Except Failure (op.Value V)} {trace : List (NumberedEvent H V)}
    {next : Except Failure (op.Value V) → Numbered H V Unit}
    (hruntime : s.runtime = ⟨trace, .await (.call op) next⟩)
    (hsettles : RecoverySettles s (.runtime ⟨.call op, answer⟩)) (hhear : s.MayHear ⟨.call op, answer⟩) :
    AttemptSound work { s with
      submitted := s.submitted
      runtime := ⟨trace ++ [⟨.call op, answer⟩], next answer⟩ } := by
  have hobeys := h.runtime
  rw [hruntime] at hobeys
  have hstate : s.counted work = counting.after ⟨none, sequenceStart work.fence⟩ trace := by
    rw [AttemptState.counted, hruntime]
  have hnext : counting.after ⟨none, sequenceStart work.fence⟩ (trace ++ [⟨.call op, answer⟩])
      = ⟨(s.counted work).heard.next op answer, (s.counted work).seq⟩ := by
    rw [Monitor.after_concat, ← hstate]
    rfl
  cases op with
  | recoverWork =>
      apply h.runs (hobeys.step trivial) hnext
      · intro _ call hcall
        rcases hsettles with hanswer | ⟨-, hidle⟩
        · obtain ⟨call', hcall', hdone⟩ | ⟨-, hfalse⟩ : (∃ call, s.recovery = some call
              ∧ call.rest = .done (.ok true)) ∨ s.recovery = none ∧ true = false := by
            rw [hanswer] at hhear
            exact hhear
          · rw [hcall] at hcall'
            cases hcall'
            exact ⟨_, hdone⟩
          · cases hfalse
        · exact hidle call hcall
      · exact fun hnone => nomatch hnone
      · rintro ⟨answer', hanswer, hne⟩ event hevent
        cases hanswer
        obtain ⟨hempty, -⟩ := hsettles.resolve_left hne
        rw [hempty] at hevent
        cases hevent
      · exact h.increasing
      · exact fun event hevent => hevent
  | now | flags | saveSession session | yieldWork | completeWork completion | turn op =>
      exact h.runs (hobeys.step trivial) hnext h.heard (fun _ => ⟨rfl, rfl⟩) h.after h.increasing
        (fun event hevent => hevent)

/-- What is recorded was submitted. -/
theorem AttemptSound.records (h : AttemptSound work s) {event : RunEvent}
    (hevent : event ∈ s.submitted) :
    AttemptSound work { s with events := (s.events.append event).2 } := by
  refine ⟨h.runtime, h.recovery, h.before, h.heard, h.after, h.increasing, ?_⟩
  intro seq stored hlow hhigh hstored
  rw [MemoryEventStore.stored_append] at hstored
  split at hstored
  · rename_i hsame
    obtain ⟨-, rfl⟩ := hsame
    cases hold : s.events.stored work.id event.seq with
    | none =>
        rw [hold] at hstored
        cases hstored
        exact ⟨hevent, rfl⟩
    | some taken =>
        rw [hold] at hstored
        cases hstored
        exact h.stored event.seq _ hlow hhigh hold
  · exact h.stored seq stored hlow hhigh hstored

theorem AttemptSound.step (h : AttemptSound work s) (hsettles : RecoverySettles s label)
    (hstep : (attempts work proof processor).step s label s') : AttemptSound work s' := by
  cases label with
  | recover =>
      obtain ⟨htrace, -, rfl⟩ := hstep
      exact h.recover hsettles htrace
  | recovery event =>
      obtain ⟨trace, next, submitted, hrecovery, htrust, hsubmits, rfl⟩ := hstep
      exact h.recovers hrecovery htrust hsubmits
  | record event =>
      obtain ⟨hevent, -, rfl⟩ := hstep
      exact h.records hevent
  | runtime event =>
      obtain ⟨trace, next, submitted, hruntime, hhear, hsubmits, rfl⟩ := hstep
      obtain ⟨op, answer⟩ := event
      cases op with
      | emitEvent event => exact h.emits hruntime hsubmits
      | call op =>
          obtain rfl : submitted = s.submitted := hsubmits
          exact h.calls hruntime hsettles hhear

/-- The event an operation of the recovery submits. -/
def RecoverEvent.submission (event : RecoverEvent) : Option RunEvent :=
  match event.op with
  | .recordEvent submitted => some submitted
  | _ => none

theorem RecoverEvent.submits_submission (event : RecoverEvent) (before : List RunEvent) :
    RecoverEvent.Submits event before (before ++ event.submission.toList) := by
  obtain ⟨op, answer⟩ := event
  cases op with
  | recordEvent submitted => exact .inl rfl
  | _ => exact List.append_nil before

/-- A recovery that runs to its end is a run of the attempt. -/
theorem recovery_run {s : AttemptState H V} {trace events : List RecoverEvent}
    {p : Recovery Bool} {outcome : Except Failure Bool} (hrun : p.Runs events outcome)
    (htrust : ∀ event ∈ events, ∀ m, (recording work.fence).trusts m event)
    (hrecovery : s.recovery = some ⟨trace, p⟩) :
    ((attempts work proof processor).restrict RecoverySettles).Run s (events.map .recovery)
      { s with
        submitted := s.submitted ++ events.filterMap RecoverEvent.submission
        recovery := some ⟨trace ++ events, .done outcome⟩ } := by
  induction hrun generalizing s trace with
  | done outcome =>
      have hsame : { s with
          submitted := s.submitted ++ ([] : List RecoverEvent).filterMap RecoverEvent.submission
          recovery := some ⟨trace ++ [], .done outcome⟩ } = s := by
        obtain ⟨events, submitted, recovery, runtime⟩ := s
        obtain rfl : recovery = _ := hrecovery
        simp
      rw [hsame]
      exact .refl s
  | @await op next answer rest outcome hrest ih =>
      have hstep : ((attempts work proof processor).restrict RecoverySettles).step s
          (.recovery ⟨op, answer⟩) { s with
            submitted := s.submitted ++ (RecoverEvent.submission ⟨op, answer⟩).toList
            recovery := some ⟨trace ++ [⟨op, answer⟩], next answer⟩ } :=
        ⟨trivial, trace, next, _, hrecovery, htrust _ List.mem_cons_self _,
          RecoverEvent.submits_submission _ _, rfl⟩
      have htail := ih (s := { s with
          submitted := s.submitted ++ (RecoverEvent.submission ⟨op, answer⟩).toList
          recovery := some ⟨trace ++ [⟨op, answer⟩], next answer⟩ })
        (fun event hevent => htrust event (List.mem_cons_of_mem _ hevent)) rfl
      have hmap : s.submitted ++ (RecoverEvent.submission ⟨op, answer⟩).toList
          ++ rest.filterMap RecoverEvent.submission
          = s.submitted ++ (⟨op, answer⟩ :: rest).filterMap RecoverEvent.submission := by
        rw [List.filterMap_cons]
        cases RecoverEvent.submission ⟨op, answer⟩ <;> simp
      simp only [hmap, List.append_assoc, List.singleton_append] at htail
      exact TransitionSystem.Run.cons hstep htail

end Runs

/-! ## A question that was asked before the attempt

The last call of the session asked the user, and the work was not parked. The
recovery records that it waits and parks the work, or fails to. -/

section Asked

private def askWork : WorkItem where
  id := "w"
  fence := 1
  homeEpoch := 0
  tenantId := "t"
  agentId := "a"
  sessionId := "s"
  threadId := none
  kind := "turn"
  lane := .interactive
  triggerRef := "m1"
  principalId := some "u"
  createdAt := 0
  availableAt := none
  attempts := 1
  preemptions := 0
  leaseToken := "token"
  meta_ := none

private def askTurnWork : TurnWork where
  id := "w"
  tenantId := "t"
  agentId := "a"
  sessionId := "s"
  threadId := none
  kind := "turn"
  lane := .interactive
  triggerRef := "m1"
  principalId := some "u"
  meta_ := {}

private def askProof : LeaseProof := ⟨"w", 1, "token"⟩

private def askCall : FunctionCall where
  callId := "c"
  name := "ask"
  arguments := ⟨"", none⟩

private def askSession : SessionRecord where
  key := askTurnWork.sessionKey
  tenantId := "t"
  agentId := "a"
  sessionId := "s"
  threadId := none
  history := [.functionCall askCall]
  request := some {
    version := 1
    workId := "w"
    tenantId := "t"
    sessionId := "s"
    authorId := "u"
    sourceRef := "m1"
    originalText := "Book a table"
    revisions := []
    attachments := []
    evidence := ⟨1, "w:evidence:1", []⟩ }

private def askQuestion : JsonObject := [("question", .str "For how many?")]

private def askRecorded : RecordedAction where
  action := ⟨"w", "c", 0, "task.ask", askQuestion, actionKeyOf "w" "c" 0⟩
  result := some { ok := true, directive := some ⟨.defer, some "user", some askQuestion⟩ }

/-- The recovery's answers, where the work store parks the work or refuses to. -/
private def askHandler (parked : Except Failure Unit) : (op : RecoverOp) → Except Failure op.Value
  | .service (.getLeased _) => .ok (some ⟨askTurnWork, 1, false⟩)
  | .service (.heartbeat _) => .ok (some ⟨false, false, []⟩)
  | .service (.authorizeWork _) | .service (.authorizeRequest _ _) => .ok ()
  | .service (.getSession _ _) => .ok (some askSession)
  | .service _ => .error (.error "not awaited")
  | .selectRecorded _ _ => .ok [askRecorded]
  | .selectChild _ _ => .ok none
  | .selectActiveChild _ _ => .ok false
  | .waitWork _ => parked
  | .throwIfAborted | .reconcilePending | .executeDecidedApprovals | .saveSession _
    | .recordEvent _ | .complete _ => .ok ()

private def askOutcome : GoalOutcome := ⟨.awaitingInput, .notRun, 1, none, some "For how many?"⟩

private def askEvent : RunEvent := Recovery.waitEvent askTurnWork 1 askCall askOutcome

private abbrev AskState := AttemptState Empty (fun _ => Unit)

private def askAttempts : TransitionSystem AskState (AttemptStep Empty (fun _ => Unit)) :=
  attempts askWork askProof .missing

private def askStart : AskState := ⟨{}, [], none, ⟨[], numberedWork askWork .missing⟩⟩

/-- The attempt once the recovery has come to its end. -/
private def askRecovered (parked : Except Failure Unit) : AskState :=
  { askStart with
    submitted := [askEvent]
    recovery := some ⟨((recoverWork askProof).exec (askHandler parked)).1,
      .done (parked.map (fun _ => true))⟩ }

private theorem askRecovered_reachable {parked : Except Failure Unit}
    (houtcome : ((recoverWork askProof).exec (askHandler parked)).2 = parked.map (fun _ => true))
    (hsubmitted : ((recoverWork askProof).exec (askHandler parked)).1.filterMap
      RecoverEvent.submission = [askEvent]) :
    (askAttempts.restrict RecoverySettles).Reachable (askRecovered parked) := by
  have hbegun : (askAttempts.restrict RecoverySettles).step askStart .recover
      { askStart with recovery := some ⟨[], recoverWork askProof⟩ } :=
    ⟨rfl, rfl, fun call hcall => by (cases hcall), rfl⟩
  have htrust : ∀ event ∈ ((recoverWork askProof).exec (askHandler parked)).1,
      ∀ m, (recording 1).trusts m event := by
    apply exec_forall
    intro op m
    cases op with
    | service op => cases op <;> trivial
    | _ => trivial
  have hrun : (askAttempts.restrict RecoverySettles).Run
      { askStart with recovery := some ⟨[], recoverWork askProof⟩ } _
      { askStart with
        submitted := [] ++ ((recoverWork askProof).exec (askHandler parked)).1.filterMap
          RecoverEvent.submission
        recovery := some ⟨[] ++ ((recoverWork askProof).exec (askHandler parked)).1,
          .done ((recoverWork askProof).exec (askHandler parked)).2⟩ } :=
    recovery_run (runs_exec (askHandler parked) (recoverWork askProof)) htrust rfl
  rw [hsubmitted, houtcome] at hrun
  exact ⟨askStart, _, ⟨rfl, rfl, rfl, fun _ _ _ => rfl⟩, TransitionSystem.Run.cons hbegun hrun⟩

private def askRefusal : Failure := .controlPlane ⟨409, "work is no longer leased", none⟩

/-- Parked or refused, the recovery records the one event, and the store takes it. -/
private theorem ask_recovery :
    (((recoverWork askProof).exec (askHandler (.ok ()))).2 = .ok true ∧
      ((recoverWork askProof).exec (askHandler (.ok ()))).1.filterMap
        RecoverEvent.submission = [askEvent]) ∧
    (((recoverWork askProof).exec (askHandler (.error askRefusal))).2 = .error askRefusal ∧
      ((recoverWork askProof).exec (askHandler (.error askRefusal))).1.filterMap
        RecoverEvent.submission = [askEvent]) ∧
    checkEvent askWork.id askWork.fence askEvent = .ok () ∧
    (MemoryEventStore.append {} askEvent).2.stored "w" 1 = some askEvent := by
  decide +kernel

private theorem ask_parks : (askAttempts.restrict RecoverySettles).Reachable (askRecovered (.ok ())) :=
  askRecovered_reachable ask_recovery.1.1 ask_recovery.1.2

private theorem ask_fails :
    (askAttempts.restrict RecoverySettles).Reachable (askRecovered (.error askRefusal)) :=
  askRecovered_reachable ask_recovery.2.1.1 ask_recovery.2.1.2

private theorem askEvent_accepted : checkEvent askWork.id askWork.fence askEvent = .ok () :=
  ask_recovery.2.2.1

private def askFlags : AttemptFlags := ⟨false, false, false, false, none⟩

private def askFailed : RunEvent :=
  { failedEvent false askRefusal with runId := "w", seq := 1 }

/-- The failure is well formed, and the store holds the ask under its number already. -/
private theorem askFailed_dropped : askEvent ≠ askFailed ∧
    checkEvent askWork.id askWork.fence askFailed = .ok () ∧
    ((MemoryEventStore.append {} askEvent).2.append askFailed).1 = false ∧
    (MemoryEventStore.append {} askEvent).2.stored askFailed.runId askFailed.seq = some askEvent := by
  decide +kernel

/-- One step of the runtime. -/
private theorem askNext (event : NumberedEvent Empty (fun _ => Unit)) {s : AskState}
    {trace : List (NumberedEvent Empty (fun _ => Unit))}
    {next : Except Failure (event.op.Value (fun _ => Unit)) → Numbered Empty (fun _ => Unit) Unit}
    {submitted : List RunEvent} (h : askAttempts.Reachable s)
    (hruntime : s.runtime = ⟨trace, .await event.op next⟩) (hhear : s.MayHear event)
    (hsubmits : NumberedEvent.Submits event s.submitted submitted) :
    askAttempts.Reachable { s with
      submitted := submitted
      runtime := ⟨trace ++ [event], next event.answer⟩ } := by
  have hstep : askAttempts.step s (.runtime event) { s with
      submitted := submitted
      runtime := ⟨trace ++ [event], next event.answer⟩ } :=
    ⟨trace, next, submitted, hruntime, hhear, hsubmits, rfl⟩
  exact h.next hstep

end Asked

end LingxiOS
