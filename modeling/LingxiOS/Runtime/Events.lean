-- SUMMARY: Run events: how they are numbered and recorded.
import LingxiOS.ControlPlane.Awaits

/-! # Run Events

Every lease attempt of a run has a range of event numbers of its own. The runtime
counts its events up from the start of the range; the control plane drops an event
whose number it has stored before. -/

namespace LingxiOS

/-! ## Events -/

inductive RunStage where
  | started | delta | completed | failed | cancelled
  deriving DecidableEq

inductive EventVisibility where
  | user | internal
  deriving DecidableEq

/-- An event before it is numbered. Of its data, the control plane reads the artifacts
    of a finished cell. -/
structure EventBody where
  kind : String
  stage : RunStage
  visibility : EventVisibility
  data : JsonObject
  artifacts : Option (List KernelArtifact) := none
  deriving DecidableEq

structure RunEvent extends EventBody where
  runId : String
  seq : Nat
  deriving DecidableEq

def RUN_SEQUENCE_SPAN : Nat := 100000

/-- The number before the first one of an attempt. -/
def sequenceStart (fence : Nat) : Nat := (fence - 1) * RUN_SEQUENCE_SPAN

/-! ## The store -/

structure MemoryEventStore where
  byRun : JsMap String (JsMap Nat RunEvent) := .empty

namespace MemoryEventStore

variable {store : MemoryEventStore} {event : RunEvent} {runId : String} {seq : Nat}

def stored (store : MemoryEventStore) (runId : String) (seq : Nat) : Option RunEvent :=
  (store.byRun.get? runId).bind (fun run => run.get? seq)

/-- Whether the event was inserted; one whose number is taken is dropped. -/
def append (store : MemoryEventStore) (event : RunEvent) : Bool × MemoryEventStore :=
  let run := (store.byRun.get? event.runId).getD .empty
  if run.has event.seq then (false, store)
  else (true, { byRun := store.byRun.set event.runId (run.set event.seq event) })

theorem stored_eq_getD :
    store.stored runId seq = ((store.byRun.get? runId).getD .empty).get? seq := by
  unfold stored
  cases store.byRun.get? runId <;> rfl

/-- An event is inserted under its own number, if that is free. -/
theorem stored_append : (store.append event).2.stored runId seq =
    if runId = event.runId ∧ seq = event.seq then some ((store.stored runId seq).getD event)
    else store.stored runId seq := by
  unfold append
  dsimp only
  split
  · rename_i htaken
    split
    · rename_i hsame
      obtain ⟨rfl, rfl⟩ := hsame
      rw [JsMap.has, ← stored_eq_getD, Option.isSome_iff_exists] at htaken
      obtain ⟨taken, htaken⟩ := htaken
      rw [htaken]
      rfl
    · rfl
  · rename_i hfree
    have hnone : store.stored event.runId event.seq = none := by
      rw [JsMap.has, ← stored_eq_getD, Bool.not_eq_true, Option.isSome_eq_false_iff,
        Option.isNone_iff_eq_none] at hfree
      exact hfree
    rcases eq_or_ne runId event.runId with rfl | hrun
    · rcases eq_or_ne seq event.seq with rfl | hseq
      · rw [if_pos ⟨rfl, rfl⟩, hnone]
        simp [stored]
      · rw [if_neg (fun h => hseq h.2)]
        simp only [stored, JsMap.get?_set_self, Option.bind_some, JsMap.get?_set_of_ne _ hseq]
        exact stored_eq_getD.symm
    · rw [if_neg (fun h => hrun h.1)]
      simp [stored, JsMap.get?_set_of_ne _ hrun]

/-- An event that is dropped finds another one, or itself, under its number. -/
theorem append_eq_false_iff :
    (store.append event).1 = false ↔ (store.stored event.runId event.seq).isSome = true := by
  rw [stored_eq_getD, ← JsMap.has]
  unfold append
  dsimp only
  split
  · rename_i htaken
    simp [htaken]
  · rename_i hfree
    simp [hfree]

end MemoryEventStore

/-! ## Recording -/

/-- The artifacts of a finished cell must be a list of them. -/
def validCellArtifacts (body : EventBody) : Bool :=
  body.kind != "ipython.completed" || match body.artifacts with
    | none => false
    | some artifacts => (snapshotArtifacts artifacts).toOption.isSome

/-- What an event must be before it is recorded under a lease. -/
def checkEvent (workId : String) (fence : Nat) (event : RunEvent) :
    Except ControlPlaneError Unit :=
  let rangeStart := sequenceStart fence
  let rangeEnd := fence * RUN_SEQUENCE_SPAN
  if event.runId != workId || !isSafeInteger event.seq || event.kind.isEmpty
      || 160 < Text.length event.kind then
    rejectWith 400 "invalid run event envelope"
  else if event.seq ≤ rangeStart ∨ rangeEnd < event.seq then
    rejectWith 400 ("event seq " ++ toString event.seq ++ " is outside this attempt's range ("
      ++ toString rangeStart ++ ", " ++ toString rangeEnd ++ "]")
  else if !validCellArtifacts event.toEventBody then
    rejectWith 400 "invalid kernel artifact event"
  else .ok ()

/-- An accepted event lands inside its own attempt's range. -/
theorem checkEvent_range {workId : String} {fence : Nat} {event : RunEvent}
    (h : checkEvent workId fence event = .ok ()) : event.runId = workId ∧
      sequenceStart fence < event.seq ∧ event.seq ≤ fence * RUN_SEQUENCE_SPAN := by
  unfold checkEvent at h
  dsimp only at h
  split at h
  · cases h
  · rename_i henvelope
    simp only [Bool.or_eq_true, bne_iff_ne, not_or, not_not] at henvelope
    split at h
    · cases h
    · rename_i hrange
      rw [not_or, Nat.not_le, Nat.not_lt] at hrange
      exact ⟨henvelope.1.1.1, hrange⟩

end LingxiOS
