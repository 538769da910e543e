-- SUMMARY: What a subscriber of a run's stream is sent.
import LingxiOS.App.Realtime
import LingxiOS.Base.Increasing

/-! # Subscribers

A connection reads the events above the last number it has sent. So it sends every event
that is inserted above that number, and each of them once. An event that is inserted below
it, or after the last poll has read the events, is never sent. -/

namespace LingxiOS

namespace App

namespace Realtime

open Increasing (last last_append last_le_last le_last mem_of_le_last)
open RunTables (Statement)

/-! ## Reading events -/

section

variable {now : Int} {after : Nat} {events : List StoredEvent}

theorem mem_eventsAfter {event : RunEvent} (h : event ∈ eventsAfter now after events) :
    ∃ stored ∈ events, stored.event = event ∧ isVisible now stored ∧ after < event.seq := by
  have hsorted := List.mem_of_mem_take h
  rw [List.mem_insertionSort, List.mem_map] at hsorted
  obtain ⟨stored, hstored, rfl⟩ := hsorted
  simp only [List.mem_filter, Bool.and_eq_true, decide_eq_true_eq] at hstored
  exact ⟨stored, hstored.1, rfl, hstored.2⟩

/-- All the events a poll could read, in order. -/
theorem sorted_increasing (hdistinct : events.Pairwise fun a b => a.event.seq ≠ b.event.seq)
    (readable : StoredEvent → Bool) :
    (((events.filter readable).map StoredEvent.event).insertionSort
      fun a b => a.seq ≤ b.seq).Pairwise fun a b => a.seq < b.seq := by
  have hfound : ((events.filter readable).map StoredEvent.event).Pairwise
      fun a b => a.seq ≠ b.seq :=
    List.pairwise_map.2 (hdistinct.filter readable)
  have hne := ((List.perm_insertionSort (fun a b : RunEvent => a.seq ≤ b.seq) _).pairwise_iff
    fun h => h.symm).2 hfound
  have hle := List.pairwise_insertionSort (fun a b : RunEvent => a.seq ≤ b.seq)
    ((events.filter readable).map StoredEvent.event)
  exact hle.imp₂ (fun _ _ => lt_of_le_of_ne) hne

theorem eventsAfter_increasing
    (hdistinct : events.Pairwise fun a b => a.event.seq ≠ b.event.seq) :
    (eventsAfter now after events).Pairwise fun a b => a.seq < b.seq :=
  (sorted_increasing hdistinct _).sublist (List.take_sublist _ _)

/-- A page that is not full has everything, and a full one everything up to its end. -/
theorem mem_eventsAfter_of (hdistinct : events.Pairwise fun a b => a.event.seq ≠ b.event.seq)
    {stored : StoredEvent} (hstored : stored ∈ events) (hvisible : isVisible now stored)
    (hafter : after < stored.event.seq)
    (hpage : (eventsAfter now after events).length ≠ 100
      ∨ stored.event.seq ≤ last RunEvent.seq (eventsAfter now after events)) :
    stored.event ∈ eventsAfter now after events := by
  have hincreasing := sorted_increasing hdistinct
    fun stored => isVisible now stored && after < stored.event.seq
  have hmem : stored.event ∈ ((events.filter fun stored => isVisible now stored
      && after < stored.event.seq).map StoredEvent.event).insertionSort
        fun a b => a.seq ≤ b.seq := by
    rw [List.mem_insertionSort]
    refine List.mem_map_of_mem (List.mem_filter.2 ⟨hstored, ?_⟩)
    simp [hvisible, hafter]
  unfold eventsAfter at hpage ⊢
  generalize List.insertionSort (fun a b : RunEvent => a.seq ≤ b.seq) _ = sorted at *
  rcases hpage with hshort | hle
  · rw [List.length_take] at hshort
    rwa [List.take_of_length_le (by omega)]
  · rw [← List.take_append_drop 100 sorted] at hincreasing hmem
    exact mem_of_le_last hincreasing hmem hle (Nat.zero_lt_of_lt hafter)

end

/-! ## What is sent -/

namespace Stream

variable {stream stream' : Stream} {event : Event}

@[simp] theorem eventsOf_append (items items' : List RunStreamEvent) :
    eventsOf (items ++ items') = eventsOf items ++ eventsOf items' :=
  List.filterMap_append

@[simp] theorem eventsOf_events (rows : List RunEvent) : eventsOf (rows.map .event) = rows := by
  simp [eventsOf, List.filterMap_map]

theorem eventsOf_sendPreview (runId : String) (last : Option (Option Preview.PreviewSnapshot))
    (preview : Option Preview.PreviewSnapshot) : eventsOf (sendPreview runId last preview).1 = [] := by
  unfold sendPreview
  split
  · split <;> rfl
  · split <;> rfl

/-- A connection is at the last event that has been sent and not lost. -/
structure Ordered (stream : Stream) : Prop where
  tables : stream.server.tables.Valid
  position : stream.conn.after = last RunEvent.seq stream.sentEvents
  increasing : stream.sentEvents.Pairwise fun a b => a.seq < b.seq

/-- The poll ends the stream. -/
def closing (stream : Stream) : Bool :=
  match stream.conn.phase with
  | .listed state rows => rows.length ≠ 100 && !state.run.status.isOpen
  | _ => false

/-- Nothing below the position of a connection has been left out, nor above it when it is
    about to end. -/
structure Complete (stream : Stream) : Prop extends Ordered stream where
  sent : ∀ stored ∈ stream.server.tables.events, isVisible stream.server.now stored →
    stored.event.seq ≤ stream.conn.after → stored.event ∈ stream.sentEvents
  closing : stream.closing = true → ∀ stored ∈ stream.server.tables.events,
    isVisible stream.server.now stored → stored.event.seq ≤ stream.conn.after

/-- An event that can be seen is inserted above what a connection has read, and not after
    the last poll has read the events. -/
def InTime (stream : Stream) : Event → Prop
  | .server (.execute statement) => ∀ row,
      RunTables.inserted stream.server.now stream.server.tables statement = some row →
      isVisible stream.server.now row → stream.conn.after < row.event.seq ∧ stream.closing = false
  | _ => True

/-- What a step does to what has been sent. -/
inductive Moved (stream : Stream) : Event → Stream → Prop
  | server (change : ServerChange) :
      Moved stream (.server change) { stream with server := stream.server.next change }
  | kept {event : Event} {stream' : Stream} (hserver : stream'.server = stream.server)
      (hafter : stream'.conn.after = stream.conn.after)
      (hsent : stream'.sentEvents = stream.sentEvents)
      (hclosing : stream'.closing = true → stream.closing = true) : Moved stream event stream'
  | read {event : Event} {stream' : Stream} {rows : List RunEvent}
      (hrows : rows = eventsAfter stream.server.now stream.conn.after stream.server.tables.events)
      (hserver : stream'.server = stream.server)
      (hafter : stream'.conn.after = (rows.getLast?.map RunEvent.seq).getD stream.conn.after)
      (hsent : stream'.sentEvents = stream.sentEvents ++ rows)
      (hclosing : stream'.closing = true → rows.length ≠ 100) : Moved stream event stream'
  | reconnected {event : Event} {stream' : Stream} {lost : List RunEvent}
      (hlost : stream.sentEvents = stream'.sentEvents ++ lost)
      (hserver : stream'.server = stream.server)
      (hafter : stream'.conn.after = last RunEvent.seq stream'.sentEvents)
      (hclosing : stream'.closing = false) : Moved stream event stream'

theorem moved_readRecord (event : Event) : Moved stream event stream.readRecord := by
  unfold readRecord
  split
  · refine .kept rfl rfl ?_ (fun h => by simp [Stream.closing] at h)
    simp only [sentEvents, eventsOf_append]
    split <;> simp [eventsOf]
  · exact .kept rfl rfl rfl id

theorem moved_readEvents (event : Event) : Moved stream event stream.readEvents := by
  unfold readEvents
  split
  · refine .read rfl rfl rfl ?_ ?_
    · simp [sentEvents]
    · simp only [Stream.closing, Bool.and_eq_true, decide_eq_true_eq]
      exact And.left
  · exact .kept rfl rfl rfl id

theorem moved_readPreview (allowed : Bool) (event : Event) :
    Moved stream event (stream.readPreview allowed) := by
  unfold readPreview
  split
  · refine .kept rfl rfl ?_ ?_
    · simp [sentEvents, eventsOf_sendPreview]
    · intro h
      simp only [Stream.closing] at h
      split at h
      · rename_i hphase
        split at hphase <;> cases hphase
      · cases h
  · exact .kept rfl rfl rfl id

theorem moved_reconnect (event : Event) : Moved stream event stream.reconnect := by
  have hsent : stream.reconnect.sentEvents = stream.arrivedEvents := List.append_nil _
  refine @Moved.reconnected _ _ _ (eventsOf (stream.sent.drop stream.arrived)) ?_ rfl ?_ rfl
  · rw [hsent, sentEvents, arrivedEvents, List.append_assoc, ← eventsOf_append,
      List.take_append_drop]
  · rw [hsent]
    rfl

theorem moved_of_step (h : streams.step stream event stream') : Moved stream event stream' := by
  cases h
  cases event with
  | server change => exact .server change
  | readRecord => exact moved_readRecord _
  | readEvents => exact moved_readEvents _
  | readPreview allowed => exact moved_readPreview allowed _
  | arrive => exact .kept rfl rfl rfl id
  | reconnect => exact moved_reconnect _

/-! ## One step -/

theorem next_valid {server : Server} (h : server.tables.Valid) (change : ServerChange) :
    (server.next change).tables.Valid := by
  cases change with
  | tick now => exact h
  | execute statement => exact h.execute statement
  | upload fence frame =>
      simp only [Server.next, Server.upload]
      split
      · exact h
      · exact h
  | reset => exact h

theorem isVisible_mono {now now' : Int} (hnow : now ≤ now') {stored : StoredEvent}
    (h : isVisible now' stored) : isVisible now stored := by
  simp only [isVisible, decide_eq_true_eq] at h ⊢
  refine ⟨h.1, ?_⟩
  cases hexpires : stored.expiresAt with
  | none => rfl
  | some expires =>
      have hlater := h.2
      simp only [hexpires, Option.all_some, decide_eq_true_eq] at hlater ⊢
      exact Int.lt_of_le_of_lt hnow hlater

/-- An event that can be seen after a change could be seen before it, or is inserted. -/
theorem next_events {server : Server} {change : ServerChange} {stored : StoredEvent}
    (hstored : stored ∈ (server.next change).tables.events)
    (hvisible : isVisible (server.next change).now stored) :
    stored ∈ server.tables.events ∧ isVisible server.now stored
      ∨ ∃ statement, change = .execute statement
        ∧ RunTables.inserted server.now server.tables statement = some stored
        ∧ isVisible server.now stored := by
  cases change with
  | tick now => exact .inl ⟨hstored, isVisible_mono (Int.le_max_left _ _) hvisible⟩
  | execute statement =>
      rcases List.mem_append.1 hstored with hold | hnew
      · exact .inl ⟨(RunTables.written_events _ _ _).subset hold, hvisible⟩
      · exact .inr ⟨statement, rfl, Option.mem_toList.1 hnew, hvisible⟩
  | upload fence frame =>
      simp only [Server.next, Server.upload] at hstored hvisible
      split at hstored
      · rename_i haccepted
        rw [if_pos haccepted] at hvisible
        exact .inl ⟨hstored, hvisible⟩
      · rename_i hrefused
        rw [if_neg hrefused] at hvisible
        exact .inl ⟨hstored, hvisible⟩
  | reset => exact .inl ⟨hstored, hvisible⟩

theorem Ordered.step (h : Ordered stream) (hstep : streams.step stream event stream') :
    Ordered stream' := by
  cases moved_of_step hstep with
  | server change => exact ⟨next_valid h.tables change, h.position, h.increasing⟩
  | kept hserver hafter hsent _ =>
      refine ⟨hserver ▸ h.tables, ?_, ?_⟩
      · rw [hafter, hsent]
        exact h.position
      · rw [hsent]
        exact h.increasing
  | read hrows hserver hafter hsent _ =>
      subst hrows
      refine ⟨hserver ▸ h.tables, ?_, ?_⟩
      · rw [hafter, hsent, last_append, ← h.position]
      · rw [hsent]
        refine List.pairwise_append.2 ⟨h.increasing, eventsAfter_increasing h.tables.distinct, ?_⟩
        intro sent hsent row hrow
        obtain ⟨-, -, -, -, hlater⟩ := mem_eventsAfter hrow
        have hle := le_last h.increasing hsent
        rw [← h.position] at hle
        exact Nat.lt_of_le_of_lt hle hlater
  | reconnected hlost hserver hafter _ =>
      have hparts := h.increasing
      rw [hlost] at hparts
      exact ⟨hserver ▸ h.tables, hafter, (List.pairwise_append.1 hparts).1⟩

/-- What a poll has read up to the new position of the connection, it sends. -/
theorem Complete.read (h : Complete stream) {sent : List RunEvent}
    (hsent : sent = stream.sentEvents
      ++ eventsAfter stream.server.now stream.conn.after stream.server.tables.events)
    {stored : StoredEvent} (hstored : stored ∈ stream.server.tables.events)
    (hvisible : isVisible stream.server.now stored)
    (hpage : (eventsAfter stream.server.now stream.conn.after
        stream.server.tables.events).length ≠ 100 ∨ stored.event.seq ≤ last RunEvent.seq sent) :
    stored.event ∈ sent := by
  rcases Nat.lt_or_ge stream.conn.after stored.event.seq with hafter | hbefore
  · rw [hsent]
    refine List.mem_append_right _ (mem_eventsAfter_of h.tables.distinct hstored hvisible hafter
      (hpage.imp_right fun hle => ?_))
    -- The last event that is sent is one that is read, as this one comes after the position.
    rw [hsent, last_append, ← h.position] at hle
    rw [last]
    cases hlast : (eventsAfter stream.server.now stream.conn.after
        stream.server.tables.events).getLast? with
    | none =>
        rw [hlast] at hle
        exact absurd hle (Nat.not_le_of_lt hafter)
    | some row =>
        rw [hlast] at hle
        exact hle
  · rw [hsent]
    exact List.mem_append_left _ (h.sent stored hstored hvisible hbefore)

theorem Complete.step (h : Complete stream) (hin : InTime stream event)
    (hstep : streams.step stream event stream') : Complete stream' := by
  have hordered := h.toOrdered.step hstep
  cases moved_of_step hstep with
  | server change =>
      refine { toOrdered := hordered, sent := ?_, closing := ?_ }
      · intro stored hstored hvisible hle
        rcases next_events hstored hvisible with ⟨hold, hsaw⟩ | ⟨statement, rfl, hnew, hsaw⟩
        · exact h.sent stored hold hsaw hle
        · exact absurd hle (Nat.not_le_of_lt (hin stored hnew hsaw).1)
      · intro hclosing stored hstored hvisible
        rcases next_events hstored hvisible with ⟨hold, hsaw⟩ | ⟨statement, rfl, hnew, hsaw⟩
        · exact h.closing hclosing stored hold hsaw
        · exact absurd hclosing (Bool.eq_false_iff.1 (hin stored hnew hsaw).2)
  | kept hserver hafter hsent hkept =>
      refine { toOrdered := hordered, sent := ?_, closing := ?_ }
      · rw [hserver, hafter, hsent]
        exact h.sent
      · rw [hserver, hafter]
        exact fun hclosing => h.closing (hkept hclosing)
  | read hrows hserver hafter hsent hpage =>
      subst hrows
      refine { toOrdered := hordered, sent := ?_, closing := ?_ }
      · rw [hserver, hordered.position]
        exact fun stored hstored hvisible hle => h.read hsent hstored hvisible (.inr hle)
      · rw [hserver, hordered.position]
        intro hclosing stored hstored hvisible
        exact le_last hordered.increasing
          (h.read hsent hstored hvisible (.inl (hpage hclosing)))
  | reconnected hlost hserver hafter hopen =>
      have hparts := h.increasing
      rw [hlost] at hparts
      refine { toOrdered := hordered, sent := ?_, closing := ?_ }
      · rw [hserver, hafter]
        intro stored hstored hvisible hle
        have hposition : stored.event.seq ≤ stream.conn.after := by
          rw [h.position, hlost]
          exact Nat.le_trans hle (last_le_last hparts)
        have hsent := h.sent stored hstored hvisible hposition
        rw [hlost] at hsent
        exact mem_of_le_last hparts hsent hle (h.tables.numbered stored hstored)
      · exact fun hclosing => absurd hclosing (Bool.eq_false_iff.1 hopen)

/-! ## Runs -/

theorem Starts.complete (h : Starts stream) : Complete stream := by
  have hnone : stream.sentEvents = [] := by
    rw [sentEvents, h.earlier, h.sent]
    rfl
  have hvalid : stream.server.tables.Valid := by
    refine ⟨fun hleased => absurd hleased h.status, ?_, ?_, ?_⟩
    · intro id row hrow
      rw [h.results] at hrow
      cases hrow
    · rw [h.events]
      exact fun stored hstored => absurd hstored List.not_mem_nil
    · rw [h.events]
      exact .nil
  refine { tables := hvalid, position := ?_, increasing := ?_, sent := ?_, closing := ?_ }
  · rw [h.conn, hnone]
    rfl
  · rw [hnone]
    exact .nil
  · rw [h.events]
    exact fun stored hstored => absurd hstored List.not_mem_nil
  · rw [h.events]
    exact fun _ stored hstored => absurd hstored List.not_mem_nil

/-- Only the last poll ends a stream. -/
theorem closing_of_ended (hopen : stream.conn.phase ≠ .ended)
    (hstep : streams.step stream event stream') (hended : stream'.conn.phase = .ended) :
    stream.closing = true ∧ stream'.server = stream.server
      ∧ stream'.sentEvents = stream.sentEvents := by
  cases hstep
  cases event with
  | server change => exact absurd hended hopen
  | arrive => exact absurd hended hopen
  | reconnect => cases hended
  | readRecord =>
      simp only [Stream.next, readRecord] at hended
      split at hended
      · cases hended
      · exact absurd hended hopen
  | readEvents =>
      simp only [Stream.next, readEvents] at hended
      split at hended
      · cases hended
      · exact absurd hended hopen
  | readPreview allowed =>
      simp only [Stream.next, readPreview] at hended ⊢
      split at hended
      · rename_i state rows hphase
        simp only at hended
        split at hended
        · cases hended
        · rename_i hlast
          rw [not_or] at hlast
          refine ⟨?_, rfl, ?_⟩
          · simp [Stream.closing, hphase, hlast.1, hlast.2]
          · simp [sentEvents, eventsOf_sendPreview]
      · exact absurd hended hopen

/-- A subscriber is sent the events of a run in increasing order, and, when its stream ends,
    has been sent each of them that can be seen, once, if none was inserted below the position
    of the connection or after the last poll had read the events. -/
theorem subscriber_misses_none (h : (streams.restrict InTime).Reachable stream) :
    stream.sentEvents.Pairwise (fun a b => a.seq < b.seq) ∧
      ∀ event stream', stream.conn.phase ≠ .ended →
        (streams.restrict InTime).step stream event stream' → stream'.conn.phase = .ended →
        ∀ stored ∈ stream'.server.tables.events, isVisible stream'.server.now stored →
          (stream'.sentEvents.filter fun sent => sent.seq = stored.event.seq)
            = [stored.event] := by
  have hcomplete : Complete stream :=
    h.invariant Starts.complete fun hcomplete hstep => hcomplete.step hstep.1 hstep.2
  refine ⟨hcomplete.increasing, fun event stream' hopen hstep hended stored hstored hvisible => ?_⟩
  obtain ⟨hclosing, hserver, hsent⟩ := closing_of_ended hopen hstep.2 hended
  rw [hserver] at hstored hvisible
  rw [hsent]
  exact Increasing.filter_index_eq hcomplete.increasing (hcomplete.sent stored hstored hvisible
    (hcomplete.closing hclosing stored hstored hvisible))

/-! ## A run whose start is stored last -/

private def shownRun : Stream where
  server :=
    { now := 0
      tables :=
        { work := Jobs.EnqueueWorkInput.row
            { id := "run", tenantId := "tenant", agentId := "agent", sessionId := "session",
              threadId := none, kind := "conversation", lane := .interactive, triggerRef := "user",
              principalId := none, meta_ := none, conversation := none } 0
          heartbeatAt := none
          lastProgressAt := none
          results := .empty
          outbox := .empty
          events := [] }
      snapshot := none
      uploaded := fun _ => 0 }
  conn := { after := 0 }
  sent := []
  arrived := 0
  earlier := []

private def runProof : LeaseProof := ⟨"run", 1, "token"⟩

private def claimRun : Event := .server (.execute (.run (.claim 60000 "worker" "token")))

private def recordStarted : Event := .server (.execute
  (.recordEvent runProof ⟨⟨"run.started", .started, .user, [], none⟩, "run", 1⟩ none))

private def recordFailed : Event := .server (.execute
  (.recordEvent runProof ⟨⟨"run.failed", .failed, .user, [], none⟩, "run", 2⟩ none))

private def settleFailed : Event :=
  .server (.execute (.run (.settle runProof { status := .failed, error := some "timeout" })))

private def poll : List Event := [.readRecord, .readEvents, .readPreview false]

theorem run_foldl (stream : Stream) (events : List Event) :
    streams.Run stream events (events.foldl Stream.next stream) := by
  induction events generalizing stream with
  | nil => exact .refl stream
  | cons event events ih => exact .cons rfl (ih (stream.next event))

/-- The last poll of a run whose events are stored in order. -/
private def orderlyRun : List Event :=
  [claimRun, recordStarted] ++ poll ++ [recordFailed, settleFailed, .readRecord, .readEvents]

private theorem inTime_recorded {stream : Stream} {statement : Statement} {stored : StoredEvent}
    (h : RunTables.inserted stream.server.now stream.server.tables statement = some stored)
    (hafter : stream.conn.after < stored.event.seq) (hopen : stream.closing = false) :
    InTime stream (.server (.execute statement)) := by
  intro row hrow _
  obtain rfl := Option.some.inj (h.symm.trans hrow)
  exact ⟨hafter, hopen⟩

private theorem orderlyRun_run : (streams.restrict InTime).Run shownRun orderlyRun
    (orderlyRun.foldl Stream.next shownRun) :=
  .cons ⟨fun _ h => (nomatch h), rfl⟩ <|
  .cons ⟨inTime_recorded rfl (by decide) rfl, rfl⟩ <|
  .cons ⟨trivial, rfl⟩ <| .cons ⟨trivial, rfl⟩ <| .cons ⟨trivial, rfl⟩ <|
  .cons ⟨inTime_recorded rfl (by decide) rfl, rfl⟩ <|
  .cons ⟨fun _ h => (nomatch h), rfl⟩ <|
  .cons ⟨trivial, rfl⟩ <| .cons ⟨trivial, rfl⟩ <| .refl _

theorem subscriber_misses_none_failed :
    ∃ stream : Stream, stream.conn.phase = .ended ∧ stream.server.tables.events.length = 2
      ∧ ∀ stored ∈ stream.server.tables.events, isVisible stream.server.now stored →
        (stream.sentEvents.filter fun sent => sent.seq = stored.event.seq) = [stored.event] :=
  ⟨(orderlyRun.foldl Stream.next shownRun).next (.readPreview false), rfl, rfl,
    (subscriber_misses_none ⟨shownRun, orderlyRun,
      ⟨rfl, WorkStatus.noConfusion, rfl, rfl, rfl, rfl, rfl, rfl⟩, orderlyRun_run⟩).2
      (.readPreview false) _ Phase.noConfusion ⟨trivial, rfl⟩ rfl⟩

/-- The start of the run is stored after its end, and nobody is sent it. -/
private def lateRun : List Event :=
  [claimRun, recordFailed] ++ poll ++ [recordStarted, settleFailed, .readRecord, .readEvents]

theorem late_event_missed : ∃ stream stream', streams.Reachable stream
    ∧ stream.conn.phase ≠ .ended ∧ streams.step stream (.readPreview false) stream'
    ∧ stream'.conn.phase = .ended
    ∧ ∃ stored ∈ stream'.server.tables.events, isVisible stream'.server.now stored
      ∧ stored.event ∉ stream'.sentEvents := by
  refine ⟨lateRun.foldl Stream.next shownRun, _,
    ⟨shownRun, lateRun, ⟨rfl, WorkStatus.noConfusion, rfl, rfl, rfl, rfl, rfl, rfl⟩, run_foldl _ _⟩,
    Phase.noConfusion, rfl, rfl, ⟨⟨⟨"run.started", .started, .user, [], none⟩, "run", 1⟩, none⟩,
    ?_, rfl, ?_⟩
  · exact List.mem_cons_of_mem _ List.mem_cons_self
  · decide

end Stream

end Realtime

end App

end LingxiOS
