-- SUMMARY: The numbers of the events of one attempt.
import LingxiOS.ControlPlane.Admission
import LingxiOS.ControlPlane.RecoverWait
import LingxiOS.Runtime.Attempt

/-! # The Order of an Attempt's Events

Two writers number the events of an attempt: the recovery takes the first number,
and the runtime counts from it on. Each of them is followed by a monitor. -/

namespace LingxiOS

open Program

section Events

variable {H : Type} {V : H → Type}

/-! ## The runtime -/

/-- What the runtime was told of the recovery, if it was told yet. -/
abbrev Heard := Option (Except Failure Bool)

/-- The runtime goes on by itself. -/
def Heard.GoesOn (heard : Heard) : Prop := ∃ answer, heard = some answer ∧ answer ≠ .ok true

def Heard.next (heard : Heard) : (op : RuntimeCall H) → Except Failure (op.Value V) → Heard
  | .recoverWork, answer => some answer
  | _, _ => heard

/-- The recovery is awaited once and first, and events are emitted after it only. -/
def RuntimeCall.Follows (heard : Heard) : RuntimeCall H → Prop
  | .recoverWork => heard = none
  | _ => True

/-- The monitor of the runtime before its events are numbered. -/
def hearing : Monitor (RunOp H) (RunOp.Value V) Failure Heard where
  allows heard op := match op with
    | .event _ => heard.GoesOn
    | .call op => op.Follows heard
  trusts _ _ := True
  next heard event := match event with
    | ⟨.event _, _⟩ => heard
    | ⟨.call op, answer⟩ => heard.next op answer

/-- What the runtime was told, and the number of its last event. -/
structure Counted where
  heard : Heard
  seq : Nat

/-- The monitor of the runtime: every event takes the next number. -/
def counting : Monitor (NumberedOp H) (NumberedOp.Value V) Failure Counted where
  allows m op := match op with
    | .emitEvent event => m.heard.GoesOn ∧ event.seq = m.seq + 1
    | .call op => op.Follows m.heard
  trusts _ _ := True
  next m event := match event with
    | ⟨.emitEvent _, _⟩ => { m with seq := m.seq + 1 }
    | ⟨.call op, answer⟩ => { m with heard := m.heard.next op answer }

/-- Numbering keeps what a program obeys, whatever its events are answered with. -/
theorem numbered_counting {α : Type} {runId : String} {heard : Heard} {seq : Nat}
    {p : Attempt H V α} (h : p.Obeys hearing (fun _ _ => True) heard) :
    (numbered runId seq p).Obeys counting (fun _ _ => True) ⟨heard, seq⟩ := by
  induction p generalizing heard seq with
  | done outcome => trivial
  | await op next ih =>
      cases op with
      | event body => exact ⟨⟨h.1, rfl⟩, fun answer _ => ih _ (h.2 _ trivial)⟩
      | call op => exact ⟨h.1, fun answer _ => ih _ (h.2 _ trivial)⟩

namespace Attempt

variable {heard : Heard}

/-- A turn only emits events and awaits what is its own. -/
theorem turn_hearing (hgoes : heard.GoesOn) {turn : Turn H V} {post : Heard → Except Failure Unit → Prop}
    (hpost : ∀ outcome, post heard outcome) : (turn.interpret serveTurn).Obeys hearing post heard := by
  induction turn with
  | done outcome => exact hpost outcome
  | await op next ih =>
      cases op with
      | event body => exact ⟨hgoes, fun answer _ => ih answer⟩
      | other op => exact ⟨trivial, fun answer _ => ih answer⟩

theorem trySave_hearing {session : Option SessionRecord} {post : Heard → Except Failure Unit → Prop}
    (hpost : post heard (.ok ())) : (trySave (H := H) (V := V) session).Obeys hearing post heard := by
  cases session with
  | none => exact hpost
  | some session => exact ⟨trivial, fun _ _ => hpost⟩

theorem finishWithError_hearing (hgoes : heard.GoesOn) {lane : WorkLane} {flags : AttemptFlags}
    {failure : Failure} :
    (finishWithError (H := H) (V := V) lane flags failure).Obeys hearing (fun _ _ => True) heard := by
  unfold finishWithError
  split
  · apply Obeys.bind
    apply trySave_hearing
    exact ⟨hgoes, fun _ _ => ⟨trivial, fun _ _ => trivial⟩⟩
  · split
    · trivial
    · exact ⟨hgoes, fun _ _ => ⟨trivial, fun _ _ => trivial⟩⟩

theorem catchError_hearing (hgoes : heard.GoesOn) {lane : WorkLane} {failure : Failure} :
    (catchError (H := H) (V := V) lane failure).Obeys hearing (fun _ _ => True) heard := by
  apply Obeys.perform_bind
  · trivial
  · exact fun _ _ => trivial
  · intro flags _
    split
    · apply Obeys.bind
      apply trySave_hearing
      exact ⟨trivial, fun _ _ => trivial⟩
    · exact finishWithError_hearing hgoes

/-- The try block ends without an error, or the runtime goes on by itself. -/
theorem tryWork_hearing {work : WorkItem} {processor : Processor H V} :
    (tryWork work processor).Obeys hearing (fun heard outcome => outcome = .ok () ∨ heard.GoesOn)
      none := by
  apply Obeys.perform_bind
  · rfl
  · exact fun e _ => .inr ⟨_, rfl, by simp⟩
  · intro recovered _
    cases recovered with
    | true => exact .inl rfl
    | false =>
        have hgoes : Heard.GoesOn (some (.ok false)) := ⟨_, rfl, by simp⟩
        refine ⟨trivial, fun now _ => ?_⟩
        cases now with
        | error e => exact .inr hgoes
        | ok now =>
            refine ⟨hgoes, fun emitted _ => ?_⟩
            cases emitted with
            | error e => exact .inr hgoes
            | ok seq =>
                cases processor with
                | missing => exact .inr hgoes
                | conversation turn => exact turn_hearing hgoes (fun _ => .inr hgoes)
                | custom process =>
                    show Obeys hearing _ (some (.ok false)) (process.interpret serveTurn >>= _)
                    apply Obeys.bind
                    apply turn_hearing hgoes
                    intro outcome
                    cases outcome with
                    | error e => exact .inr hgoes
                    | ok =>
                        refine ⟨hgoes, fun emitted _ => ?_⟩
                        cases emitted with
                        | error e => exact .inr hgoes
                        | ok seq => exact ⟨trivial, fun _ _ => .inr hgoes⟩

end Attempt

theorem runWork_hearing {work : WorkItem} {processor : Processor H V} :
    (runWork work processor).Obeys hearing (fun _ _ => True) none := by
  apply Obeys.bind
  apply Obeys.attempt
  apply Obeys.mono Attempt.tryWork_hearing
  intro heard outcome hended
  cases outcome with
  | ok => trivial
  | error failure =>
      apply Attempt.catchError_hearing
      exact hended.resolve_left (by simp)

theorem numberedWork_counting {work : WorkItem} {processor : Processor H V} :
    (numberedWork work processor).Obeys counting (fun _ _ => True)
      ⟨none, sequenceStart work.fence⟩ :=
  numbered_counting runWork_hearing

end Events

/-! ## The recovery -/

/-- The monitor of a recovery, whose state is whether it has recorded its event: it
    records one, under the attempt's first number. -/
def recording (fence : Nat) : Monitor RecoverOp RecoverOp.Value Failure Bool where
  allows recorded op := match op with
    | .recordEvent event => recorded = false ∧ event.seq = sequenceStart fence + 1
    | _ => True
  trusts _ event := match event with
    | ⟨.service op, answer⟩ => ServiceEvent.Leases (fun leased => leased.fence = fence) ⟨op, answer⟩
    | _ => True
  next recorded event := match event with
    | ⟨.recordEvent _, _⟩ => true
    | _ => recorded

section Recover

variable {work : TurnWork} {proof : LeaseProof} {fence : Nat} {recorded : Bool}

namespace Recovery

/-- A call of the control plane records nothing. -/
theorem service_recording {α : Type} (p : Service α) {post : Bool → Except Failure α → Prop}
    (hpost : ∀ outcome, post recorded outcome) :
    (p.interpret serve).Obeys (recording fence) post recorded := by
  induction p with
  | done outcome => exact hpost outcome
  | await op next ih => exact ⟨trivial, fun answer _ => ih answer⟩

/-- Any operation but the recording of an event, and what follows it. -/
theorem await_recording {α : Type} {op : RecoverOp} (hop : ∀ event, op ≠ .recordEvent event)
    {f : op.Value → Recovery α}
    (h : ∀ a, (f a).Obeys (recording fence) (fun _ _ => True) recorded) :
    (await op >>= f).Obeys (recording fence) (fun _ _ => True) recorded := by
  have hallows : (recording fence).allows recorded op := by
    cases op with
    | recordEvent event => exact absurd rfl (hop event)
    | _ => trivial
  have hnext : ∀ answer, (recording fence).next recorded ⟨op, answer⟩ = recorded := by
    intro answer
    cases op with
    | recordEvent event => exact absurd rfl (hop event)
    | _ => rfl
  refine ⟨hallows, fun answer _ => ?_⟩
  rw [hnext]
  cases answer with
  | error e => trivial
  | ok a => exact h a

/-- The recording of the event, and what follows it. -/
theorem record_recording {event : RunEvent} (hseq : event.seq = sequenceStart fence + 1)
    {op : RecoverOp} (hop : ∀ event, op ≠ .recordEvent event) {f : op.Value → Recovery Bool}
    (hf : ∀ a, (f a).Obeys (recording fence) (fun _ _ => True) true) :
    (await (.recordEvent event) >>= fun _ => await op >>= f).Obeys (recording fence)
      (fun _ _ => True) false := by
  refine ⟨⟨rfl, hseq⟩, fun answer _ => ?_⟩
  cases answer with
  | error e => trivial
  | ok => exact await_recording hop hf

theorem block_recording {requestVersion : Nat} {continued : Bool} :
    (block work fence requestVersion continued).Obeys (recording fence) (fun _ _ => True) false :=
  record_recording rfl (by simp) (fun _ => trivial)

theorem waitEvent_seq {call : FunctionCall} {outcome : GoalOutcome} :
    (waitEvent work fence call outcome).seq = sequenceStart fence + 1 := by
  unfold waitEvent
  split <;> rfl

theorem park_recording {session : SessionRecord} {call : FunctionCall} {after : List ModelItem}
    {outcome : GoalOutcome} {receipts : List (HostAction × HostActionResult)} :
    (park work fence session call after outcome receipts).Obeys (recording fence)
      (fun _ _ => True) false := by
  apply await_recording (by simp)
  intro _
  dsimp only
  split
  · exact record_recording waitEvent_seq (by simp) (fun _ => trivial)
  · apply await_recording (by simp)
    intro _
    exact record_recording waitEvent_seq (by simp) (fun _ => trivial)

theorem childSettled_recording {outcome : GoalOutcome} {requestVersion : Nat}
    {post : Bool → Except Failure Bool → Prop} (hpost : ∀ outcome, post recorded outcome) :
    (childSettled outcome requestVersion).Obeys (recording fence) post recorded := by
  unfold childSettled
  split
  · apply Obeys.perform_bind
    · trivial
    · exact fun _ _ => hpost _
    · intro status _
      cases status with
      | none => exact hpost _
      | some status =>
          dsimp only
          split
          · exact hpost _
          · apply Obeys.perform_bind
            · trivial
            · exact fun _ _ => hpost _
            · exact fun _ _ => hpost _
  · exact hpost _

theorem settle_recording {session : SessionRecord} {requestVersion : Nat} {call : FunctionCall}
    {after : List ModelItem} {rows : List RecordedAction} :
    (settle work fence session requestVersion call after rows).Obeys (recording fence)
      (fun _ _ => True) false := by
  unfold settle
  split
  · trivial
  · apply await_recording (by simp)
    intro _
    split
    · exact block_recording
    · split
      · trivial
      · split
        · trivial
        · apply Obeys.bind
          apply childSettled_recording
          intro settled
          cases settled with
          | error e => trivial
          | ok settled =>
              dsimp only
              split
              · trivial
              · exact park_recording

end Recovery

theorem recoverWait_recording :
    (recoverWait proof work fence).Obeys (recording fence) (fun _ _ => True) false := by
  apply Recovery.await_recording (by simp)
  intro _
  apply Obeys.bind
  apply Recovery.service_recording
  intro outcome
  cases outcome with
  | error e => trivial
  | ok session =>
      cases session with
      | none => trivial
      | some session =>
          dsimp only
          split
          · trivial
          · apply Obeys.perform_bind
            · trivial
            · exact fun _ _ => trivial
            · intro current _
              cases current with
              | none => trivial
              | some current =>
                  dsimp only
                  split
                  · trivial
                  · split
                    · trivial
                    · apply Recovery.await_recording (by simp)
                      exact fun rows => Recovery.settle_recording

/-- A lease is one of the attempt. -/
theorem requireLease_recording {rejectCancelled : Bool} :
    ((Service.requireLease proof rejectCancelled).interpret Recovery.serve).Obeys (recording fence)
      (fun recorded outcome => recorded = false ∧ ∀ leased, outcome = .ok leased →
        leased.fence = fence) false := by
  apply Obeys.mono (Obeys.interpret (I := fun _ recorded => recorded = false) _
    Service.requireLease_leases rfl)
  · rintro recorded outcome ⟨_, rfl, hleased⟩
    exact ⟨rfl, hleased⟩
  · rintro _ op _ - rfl
    exact ⟨trivial, fun answer htrust => ⟨htrust, rfl⟩⟩

theorem recoverWork_recording :
    (recoverWork proof).Obeys (recording fence) (fun _ _ => True) false := by
  apply Obeys.bind
  apply Obeys.mono requireLease_recording
  rintro _ leased ⟨rfl, hleased⟩
  cases leased with
  | error e => trivial
  | ok leased =>
      dsimp only
      rw [hleased leased rfl]
      apply Recovery.await_recording (by simp)
      intro _
      apply Recovery.await_recording (by simp)
      intro _
      apply Recovery.await_recording (by simp)
      intro _
      apply Recovery.await_recording (by simp)
      exact fun _ => recoverWait_recording

end Recover

end LingxiOS
