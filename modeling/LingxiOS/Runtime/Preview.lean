-- SUMMARY: The preview buffer, its consumers and the receiver.
import LingxiOS.Base.Text
import LingxiOS.Base.Transition

/-! # The Preview Stream

A translation of `PreviewBuffer`, of `isPreviewFrame` and of the rules by which
`createRealtime` applies a frame once the lease, the request version and the
host have admitted it. A consumer is one run of the buffer's async generator;
between two awaits or yields it runs without interruption. Text is UTF-16 code
units, and sequence numbers are natural numbers. -/

namespace LingxiOS.Preview

abbrev Units := List UInt16

/-- `Number.MAX_SAFE_INTEGER`. -/
def maxSafeInteger : Nat := 2 ^ 53 - 1

/-! ## Frames -/

/-- Whose text a frame carries. -/
structure Identity where
  requestVersion : Nat
  attemptId : String
  deriving DecidableEq

inductive FrameKind where
  | reset | delta
  deriving DecidableEq

structure PreviewFrame extends Identity where
  seq : Nat
  kind : FrameKind
  text : Units
  deriving DecidableEq

def isPreviewFrame (frame : PreviewFrame) : Bool :=
  decide (frame.requestVersion ≤ maxSafeInteger) && decide (0 < frame.requestVersion)
    && decide (frame.seq ≤ maxSafeInteger) && decide (0 < frame.seq)
    && decide (0 < Text.length frame.attemptId) && decide (Text.length frame.attemptId ≤ 256)
    && decide (frame.text.length ≤ 16384)
    && (frame.kind == .delta || frame.kind == .reset && frame.text == [])

/-- An attempt as a producer names it: an id of 1 to 256 characters and a positive
    request version. -/
structure Attempt extends Identity where
  version_pos : 0 < requestVersion
  version_safe : requestVersion ≤ maxSafeInteger
  id_pos : 0 < Text.length attemptId
  id_le : Text.length attemptId ≤ 256

/-! ## The buffer -/

structure PreviewBuffer where
  pending : List PreviewFrame := []
  seq : Nat := 0
  identity : Identity := ⟨1, ""⟩
  /-- The consumer that waits to be woken. -/
  wake : Option Nat := none
  /-- The consumers that have been woken and not run yet. -/
  woken : List Nat := []
  timer : Bool := false
  closed : Bool := false
  enabled : Bool := false
  first : Bool := true
  draft : Units := []
  generation : Nat := 0
  consumer : Nat := 0

/-- `for (offset = 0; offset < draft.length; offset += size) draft.slice(offset, offset + size)`. -/
def slices (size : Nat) (draft : Units) : List Units :=
  (List.range ((draft.length + size - 1) / size)).map fun i => (draft.drop (i * size)).take size

/-- Deltas numbered from a sequence number on. -/
def deltas (identity : Identity) : Nat → List Units → List PreviewFrame
  | _, [] => []
  | seq, text :: rest => ⟨identity, seq, .delta, text⟩ :: deltas identity (seq + 1) rest

namespace PreviewBuffer

def flush (buffer : PreviewBuffer) : PreviewBuffer :=
  { buffer with timer := false, woken := buffer.woken ++ buffer.wake.toList, wake := none }

def resetFrame (buffer : PreviewBuffer) (identity : Identity) : PreviewFrame :=
  ⟨identity, buffer.seq + 1, .reset, []⟩

def reset (buffer : PreviewBuffer) (identity : Identity) (enabled : Bool) : PreviewBuffer :=
  if buffer.closed then buffer
  else
    { buffer with
      identity := identity
      enabled := enabled
      first := true
      draft := []
      generation := buffer.generation + 1
      seq := buffer.seq + 1
      pending := [buffer.resetFrame identity] }.flush

/-- The current attempt, text and all, from the start. -/
def replay (buffer : PreviewBuffer) : PreviewBuffer :=
  if buffer.closed then buffer
  else if buffer.identity.attemptId = "" then buffer.flush
  else
    let texts := slices 16384 buffer.draft
    { buffer with
      generation := buffer.generation + 1
      seq := buffer.seq + 1 + texts.length
      pending := buffer.resetFrame buffer.identity
        :: deltas buffer.identity (buffer.seq + 2) texts }.flush

/-- The text of the last pending frame, if that is a delta. -/
def lastText (buffer : PreviewBuffer) : Option Units :=
  (buffer.pending.getLast?.filter fun frame => frame.kind == .delta).map PreviewFrame.text

/-- Append to the last pending delta, or add a new one. -/
def extend (buffer : PreviewBuffer) (text : Units) : PreviewBuffer :=
  match buffer.pending.getLast? with
  | some last =>
      if last.kind = .delta then
        { buffer with pending := buffer.pending.dropLast ++ [{ last with text := last.text ++ text }] }
      else
        { buffer with
          seq := buffer.seq + 1
          pending := buffer.pending ++ [⟨buffer.identity, buffer.seq + 1, .delta, text⟩] }
  | none =>
      { buffer with
        seq := buffer.seq + 1
        pending := [⟨buffer.identity, buffer.seq + 1, .delta, text⟩] }

/-- The first delta of a draft is flushed at once, later ones by the timer. -/
def schedule (buffer : PreviewBuffer) : PreviewBuffer :=
  if buffer.first then { buffer with first := false }.flush else { buffer with timer := true }

def push (buffer : PreviewBuffer) (text : Units) : PreviewBuffer :=
  if !buffer.enabled || buffer.closed || text.isEmpty then buffer
  else if 100000 < buffer.draft.length + text.length then buffer.reset buffer.identity false
  else
    let grown := { buffer with draft := buffer.draft ++ text }
    if 16384 < (buffer.lastText.getD []).length + text.length then grown.replay
    else (grown.extend text).schedule

def recover (buffer : PreviewBuffer) : PreviewBuffer :=
  { buffer with consumer := buffer.consumer + 1 }.replay

def close (buffer : PreviewBuffer) : PreviewBuffer := { buffer with closed := true }.flush

def discard (buffer : PreviewBuffer) : PreviewBuffer :=
  if buffer.identity.attemptId = "" then buffer else buffer.reset buffer.identity false

end PreviewBuffer

/-! ## Consumers -/

/-- Where the generator stands. -/
inductive Phase where
  /-- At a `yield`, with the frames still to come and the generation they are of. -/
  | batch (frames : List PreviewFrame) (generation : Nat)
  /-- At the `await`. -/
  | waiting
  | done
  deriving DecidableEq

/-- What the generator does until its next `yield`, `await` or `return`. -/
structure Advance where
  buffer : PreviewBuffer
  phase : Phase
  frame : Option PreviewFrame := none

namespace PreviewBuffer

/-- From the end of the `await` on. An empty batch leads back to the `await`. -/
def collect (buffer : PreviewBuffer) (consumer : Nat) : Advance :=
  if consumer ≠ buffer.consumer then { buffer := buffer, phase := .done }
  else
    match buffer.pending with
    | [] =>
        if buffer.closed then { buffer := buffer, phase := .done }
        else { buffer := { buffer with wake := some consumer }, phase := .waiting }
    | frame :: rest =>
        { buffer := { buffer with pending := [] }
          phase := .batch rest buffer.generation
          frame := some frame }

/-- The start of the loop. -/
def top (buffer : PreviewBuffer) (consumer : Nat) : Advance :=
  if buffer.timer || (buffer.pending.isEmpty && !buffer.closed) then
    { buffer := { buffer with wake := some consumer }, phase := .waiting }
  else buffer.collect consumer

/-- From a `yield` on. -/
def next (buffer : PreviewBuffer) (consumer : Nat) (frames : List PreviewFrame)
    (generation : Nat) : Advance :=
  let ended : Advance :=
    if buffer.closed && buffer.pending.isEmpty then { buffer := buffer, phase := .done }
    else buffer.top consumer
  match frames with
  | [] => ended
  | frame :: rest =>
      if consumer ≠ buffer.consumer then { buffer := buffer, phase := .done }
      else if generation ≠ buffer.generation then ended
      else { buffer := buffer, phase := .batch rest generation, frame := some frame }

end PreviewBuffer

/-! ## The receiver -/

structure PreviewSnapshot extends Identity where
  fence : Nat
  seq : Nat
  draft : Units
  deriving DecidableEq

/-- What `receive` makes of an admitted frame. -/
def receive (fence : Nat) (prior : Option PreviewSnapshot) (frame : PreviewFrame) :
    Option PreviewSnapshot :=
  match prior with
  | none =>
      if frame.kind = .reset then some ⟨frame.toIdentity, fence, frame.seq, []⟩ else none
  | some snapshot =>
      if fence < snapshot.fence ∨ frame.requestVersion < snapshot.requestVersion ∨
          (snapshot.fence = fence ∧ frame.seq ≤ snapshot.seq) then some snapshot
      else if frame.kind = .reset then some ⟨frame.toIdentity, fence, frame.seq, []⟩
      else if snapshot.fence = fence ∧ snapshot.toIdentity = frame.toIdentity ∧
          frame.seq = snapshot.seq + 1 ∧ snapshot.draft.length + frame.text.length ≤ 100000 then
        some { snapshot with seq := frame.seq, draft := snapshot.draft ++ frame.text }
      else none

/-! ## The system -/

/-- A frame as it was handed out, with the draft and the attempt the buffer had then. -/
structure Delivery where
  frame : PreviewFrame
  identity : Identity
  draft : Units

structure Consumer where
  id : Nat
  phase : Phase
  received : List Delivery := []

structure PreviewSystem where
  buffer : PreviewBuffer := {}
  consumers : List Consumer := []

inductive PreviewEvent where
  | reset (attempt : Attempt) (enabled : Bool)
  | push (text : Units)
  | discard
  | replay
  | recover
  | close
  /-- The timer of `push` fires. -/
  | tick
  /-- The first pull of a new consumer. -/
  | consume
  /-- The next pull of a consumer. -/
  | pull (consumer : Nat)
  /-- A consumer goes on after its `await`. -/
  | resume (consumer : Nat)

namespace PreviewSystem

/-- Let a consumer advance, and note what it is handed. -/
def advance (system : PreviewSystem) (consumer : Nat) (result : Advance) : PreviewSystem where
  buffer := result.buffer
  consumers := system.consumers.map fun c =>
    if c.id = consumer then
      { c with
        phase := result.phase
        received := c.received ++ result.frame.toList.map fun frame =>
          ⟨frame, result.buffer.identity, result.buffer.draft⟩ }
    else c

/-- A new consumer, with a number of its own. -/
def accept (system : PreviewSystem) : PreviewSystem where
  buffer := { system.buffer with consumer := system.buffer.consumer + 1 }
  consumers := system.consumers ++ [{ id := system.buffer.consumer + 1, phase := .waiting }]

def produce (system : PreviewSystem) (buffer : PreviewBuffer) : PreviewSystem :=
  { system with buffer := buffer }

/-- One event, where it can happen. -/
inductive Step (system : PreviewSystem) : PreviewEvent → PreviewSystem → Prop where
  | reset (attempt : Attempt) (enabled : Bool) :
      Step system (.reset attempt enabled)
        (system.produce (system.buffer.reset attempt.toIdentity enabled))
  | push (text : Units) : Step system (.push text) (system.produce (system.buffer.push text))
  | discard : Step system .discard (system.produce system.buffer.discard)
  | replay : Step system .replay (system.produce system.buffer.replay)
  | recover : Step system .recover (system.produce system.buffer.recover)
  | close : Step system .close (system.produce system.buffer.close)
  | tick (h : system.buffer.timer = true) : Step system .tick (system.produce system.buffer.flush)
  | consume : Step system .consume
      (system.accept.advance system.accept.buffer.consumer
        (system.accept.buffer.top system.accept.buffer.consumer))
  | pull {c : Consumer} {frames : List PreviewFrame} {generation : Nat}
      (h : c ∈ system.consumers) (hphase : c.phase = .batch frames generation) :
      Step system (.pull c.id)
        (system.advance c.id (system.buffer.next c.id frames generation))
  | resume {c : Consumer} (h : c ∈ system.consumers) (hphase : c.phase = .waiting)
      (hwoken : c.id ∈ system.buffer.woken) :
      Step system (.resume c.id)
        (system.advance c.id
          ({ system.buffer with woken := system.buffer.woken.erase c.id }.collect c.id))

/-- Every interleaving of a producer with consumers on a new buffer. -/
def transitions : TransitionSystem PreviewSystem PreviewEvent where
  start system := system = {}
  step := Step

end PreviewSystem

/-! ## Agreement -/

/-- What a receiver that starts empty holds after some frames. -/
def snapshot (fence : Nat) (deliveries : List Delivery) : Option PreviewSnapshot :=
  (deliveries.map Delivery.frame).foldl (receive fence) none

def held (fence : Nat) (deliveries : List Delivery) : Units :=
  ((snapshot fence deliveries).map PreviewSnapshot.draft).getD []

/-- What a consumer may rely on when it is handed a frame. -/
structure Delivered (fence : Nat) (before : List Delivery) (delivery : Delivery) : Prop where
  valid : isPreviewFrame delivery.frame = true
  increasing : ∀ earlier ∈ before, earlier.frame.seq < delivery.frame.seq
  contiguous : delivery.frame.kind = .delta →
    ∃ last, before.getLast? = some last ∧ delivery.frame.seq = last.frame.seq + 1
  attempt : delivery.frame.toIdentity = delivery.identity
  holds : held fence (before ++ [delivery]) <+: delivery.draft

/-- The frames a consumer has spliced out and not been handed yet. -/
def Consumer.batch (c : Consumer) : List PreviewFrame :=
  match c.phase with
  | .batch frames _ => frames
  | _ => []

/-- Whatever a consumer is handed agrees with the buffer, and the current consumer holds
    the buffer's draft once nothing is pending. -/
structure Agreement (fence : Nat) (system : PreviewSystem) : Prop where
  delivered : ∀ c ∈ system.consumers, ∀ before delivery,
    before ++ [delivery] <+: c.received → Delivered fence before delivery
  caughtUp : ∀ c ∈ system.consumers, c.id = system.buffer.consumer →
    system.buffer.pending = [] → c.batch = [] → held fence c.received = system.buffer.draft

/-- A consumer that starts now starts with a reset: one is pending, or nothing is and
    nothing can be pushed before there is one. -/
def PreviewBuffer.Fresh (buffer : PreviewBuffer) : Prop :=
  match buffer.pending with
  | [] => buffer.draft = [] ∧ (buffer.enabled = false ∨ buffer.closed = true)
  | frame :: _ => frame.kind = .reset

/-- Consumers start with a reset, and request versions never go back. -/
def Orderly (system : PreviewSystem) : PreviewEvent → Prop
  | .consume => system.buffer.Fresh
  | .reset attempt _ => system.buffer.identity.requestVersion ≤ attempt.requestVersion
  | _ => True

end LingxiOS.Preview
