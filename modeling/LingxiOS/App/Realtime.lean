-- SUMMARY: The response loop of a run's stream.
import LingxiOS.App.RunTables

/-! # Realtime

A translation of the response loop of `createRealtime`. A poll reads the run, its events
and the preview one after another, and anything may happen between two reads. A
connection sends what a poll finds new; a subscriber that reconnects names the last event
it has, and what was on the way is lost. Frames of one attempt are numbered upwards by
its buffer. -/

namespace LingxiOS

namespace App

namespace Realtime

open Preview (PreviewSnapshot PreviewFrame isPreviewFrame receive)
open RunTables (Statement)

/-! ## The server -/

structure Server where
  now : Int
  tables : RunTables
  /-- The snapshot of the entry, or of the store. -/
  snapshot : Option PreviewSnapshot
  /-- The last frame of each attempt. -/
  uploaded : Nat → Nat

/-- What happens while a stream is open. -/
inductive ServerChange where
  | tick (now : Int)
  | execute (statement : Statement)
  /-- A frame of an upload whose lease and version have been checked. -/
  | upload (fence : Nat) (frame : PreviewFrame)
  /-- `reset`, also at the end of an upload. -/
  | reset

namespace Server

def upload (server : Server) (fence : Nat) (frame : PreviewFrame) : Server :=
  if isPreviewFrame frame ∧ fence ≤ server.tables.work.fence ∧ server.uploaded fence < frame.seq then
    { server with
      snapshot := receive fence server.snapshot frame
      uploaded := fun attempt => if attempt = fence then frame.seq else server.uploaded attempt }
  else server

def next (server : Server) : ServerChange → Server
  | .tick now => { server with now := max server.now now }
  | .execute statement => { server with tables := server.tables.execute server.now statement }
  | .upload fence frame => server.upload fence frame
  | .reset => { server with snapshot := none }

end Server

/-! ## Polls -/

/-- `visibility='user' AND (expires_at IS NULL OR expires_at>NOW())`. -/
def isVisible (now : Int) (stored : StoredEvent) : Bool :=
  stored.event.visibility = .user ∧ stored.expiresAt.all (now < ·)

/-- The events a poll reads. -/
def eventsAfter (now : Int) (after : Nat) (events : List StoredEvent) : List RunEvent :=
  (((events.filter fun stored => isVisible now stored && after < stored.event.seq).map
    StoredEvent.event).insertionSort fun a b => a.seq ≤ b.seq).take 100

/-- Where a connection is in its loop, with what the poll has read. -/
inductive Phase where
  | idle
  | recorded (state : RunState)
  | listed (state : RunState) (rows : List RunEvent)
  | ended

structure Connection where
  after : Nat
  lastState : Option RunState := none
  /-- `undefined`, `null`, or the preview that was sent last. -/
  lastPreview : Option (Option PreviewSnapshot) := none
  phase : Phase := .idle

/-- The preview of the run's attempt and version, if the host allows it and it is fresh. -/
def visiblePreview (state : RunState) (allowed : Bool) (current : Option PreviewSnapshot) :
    Option PreviewSnapshot :=
  current.filter fun preview => allowed && state.run.status = .leased
    && preview.fence = state.run.fence && (preview.requestVersion : Int) = state.run.requestVersion

/-- The preview only adds to the one that was sent last. -/
def continues (last preview : PreviewSnapshot) : Bool :=
  last.attemptId = preview.attemptId && last.fence = preview.fence
    && last.requestVersion = preview.requestVersion && last.draft.isPrefixOf preview.draft

def updateOf (runId : String) (preview : PreviewSnapshot) (text : PreviewText) : PreviewUpdate :=
  ⟨runId, preview.fence, preview.requestVersion, preview.attemptId, preview.seq, text⟩

/-- A delta against the last preview, or the whole draft. -/
def previewText (last : Option PreviewSnapshot) (preview : PreviewSnapshot) : PreviewText :=
  match last with
  | some last =>
      if continues last preview then .delta (preview.draft.drop last.draft.length) last.seq
      else .snapshot preview.draft
  | none => .snapshot preview.draft

/-- The preview is not the one that was sent last. -/
def isNewPreview (last : Option PreviewSnapshot) (preview : PreviewSnapshot) : Bool :=
  last.all fun last => preview.seq ≠ last.seq || preview.fence ≠ last.fence

/-- What a poll sends of a preview, and what it remembers. -/
def sendPreview (runId : String) (last : Option (Option PreviewSnapshot))
    (preview : Option PreviewSnapshot) :
    List RunStreamEvent × Option (Option PreviewSnapshot) :=
  match preview with
  | none =>
      if last = some none then ([], last)
      else ([.reset runId (if last.join.isSome then .superseded else .unavailable)], some none)
  | some preview =>
      if isNewPreview last.join preview then
        ([.preview (updateOf runId preview (previewText last.join preview))], some (some preview))
      else ([], last)

/-! ## Streams -/

structure Stream where
  server : Server
  conn : Connection
  /-- What the connection has sent. -/
  sent : List RunStreamEvent
  /-- How much of that has arrived. -/
  arrived : Nat
  /-- The events that arrived over earlier connections. -/
  earlier : List RunEvent

/-- The events among the items of a stream. -/
def eventsOf (items : List RunStreamEvent) : List RunEvent :=
  items.filterMap fun
    | .event event => some event
    | _ => none

inductive Event where
  | server (change : ServerChange)
  | readRecord
  | readEvents
  | readPreview (allowed : Bool)
  /-- An item arrives. -/
  | arrive
  | reconnect

namespace Stream

/-- The events that have been sent and not lost. -/
def sentEvents (stream : Stream) : List RunEvent := stream.earlier ++ eventsOf stream.sent

def arrivedEvents (stream : Stream) : List RunEvent :=
  stream.earlier ++ eventsOf (stream.sent.take stream.arrived)

def readRecord (stream : Stream) : Stream :=
  match stream.conn.phase with
  | .idle =>
      let state := readRunState stream.server.tables
      { stream with
        conn := { stream.conn with lastState := some state, phase := .recorded state }
        sent := stream.sent ++ if stream.conn.lastState = some state then [] else [.state state] }
  | _ => stream

def readEvents (stream : Stream) : Stream :=
  match stream.conn.phase with
  | .recorded state =>
      let rows := eventsAfter stream.server.now stream.conn.after stream.server.tables.events
      { stream with
        conn := { stream.conn with
          after := (rows.getLast?.map RunEvent.seq).getD stream.conn.after
          phase := .listed state rows }
        sent := stream.sent ++ rows.map .event }
  | _ => stream

/-- The last read of a poll. A full page is followed by the next one, and a run that is
    not open ends the stream. -/
def readPreview (allowed : Bool) (stream : Stream) : Stream :=
  match stream.conn.phase with
  | .listed state rows =>
      let (items, last) := sendPreview state.run.id stream.conn.lastPreview
        (visiblePreview state allowed stream.server.snapshot)
      { stream with
        conn := { stream.conn with
          lastPreview := last
          phase := if rows.length = 100 ∨ state.run.status.isOpen then .idle else .ended }
        sent := stream.sent ++ items }
  | _ => stream

/-- A new connection, after the last event that has arrived. -/
def reconnect (stream : Stream) : Stream :=
  { stream with
    conn := { after := (stream.arrivedEvents.getLast?.map RunEvent.seq).getD 0 }
    sent := []
    arrived := 0
    earlier := stream.arrivedEvents }

def next (stream : Stream) : Event → Stream
  | .server change => { stream with server := stream.server.next change }
  | .readRecord => stream.readRecord
  | .readEvents => stream.readEvents
  | .readPreview allowed => stream.readPreview allowed
  | .arrive => { stream with arrived := stream.arrived + 1 }
  | .reconnect => stream.reconnect

/-- A run that has not been claimed, and a subscriber that has nothing. -/
structure Starts (stream : Stream) : Prop where
  fence : stream.server.tables.work.fence = 0
  status : stream.server.tables.work.status ≠ .leased
  results : stream.server.tables.results = .empty
  events : stream.server.tables.events = []
  snapshot : stream.server.snapshot = none
  conn : stream.conn = { after := 0 }
  sent : stream.sent = []
  earlier : stream.earlier = []

end Stream

/-- Every interleaving of a stream's loop with the server. -/
def streams : TransitionSystem Stream Event where
  start := Stream.Starts
  step stream event stream' := stream' = stream.next event

end Realtime

end App

end LingxiOS
