-- SUMMARY: The run view of the browser: how events, messages, states and previews update it.
import LingxiOS.App.RunStream

/-! # The Run View

A translation of `createRunView` and of the reducers over it. A reducer that throws
leaves the view its caller holds as it was. Drafts are UTF-16 code units; `null` and an
absent preview are the same. -/

namespace LingxiOS

namespace Ui

open App (RunState DeliveryState PreviewUpdate RunStreamEvent fenceOf)
open Preview (Units)

/-- `text.split('')`, as code units. -/
def units (text : String) : Units :=
  text.toList.flatMap fun c =>
    if c.toNat < 0x10000 then [c.toNat.toUInt16]
    else [(0xD800 + (c.toNat - 0x10000) / 0x400).toUInt16, (0xDC00 + (c.toNat - 0x10000) % 0x400).toUInt16]

/-! ## Outcomes -/

/-- A string with something else than white space. -/
def isText (value : Option Json) : Bool :=
  match value with
  | some (.str text) => !Text.isBlank text
  | _ => false

def isOneOf (names : List String) (value : Option Json) : Bool :=
  match value with
  | some (.str name) => names.contains name
  | _ => false

def isVersion (value : Option Json) : Bool :=
  match value with
  | some (.num version) => isSafeInteger version && 0 < version
  | _ => false

def isGaps (value : Option Json) : Bool :=
  match value with
  | none => true
  | some (.arr gaps) => gaps.all Json.isString
  | some _ => false

def isQuestion (status value : Option Json) : Bool :=
  match value with
  | none => true
  | some (.str question) => status = some (.str "awaiting_input") && !Text.isBlank question
      && Text.length question ≤ 4000
  | some _ => false

def isGoalOutcome (value : Option Json) : Bool :=
  let item (key : String) := value.bind (Json.field · key)
  let status := item "status"
  isVersion (item "requestVersion")
    && isOneOf ["passed", "not_run", "inconclusive"] (item "verification")
    && isOneOf ["satisfied", "partial", "awaiting_input", "awaiting_approval", "delegated", "blocked"]
      status
    && isGaps (item "gaps")
    && isQuestion status (item "question")
    && (status ≠ some (.str "satisfied") || item "gaps" = none || item "gaps" = some (.arr []))
    && (status ≠ some (.str "awaiting_approval") || isText (item "approvalId"))
    && (status ≠ some (.str "delegated") || isText (item "taskRef"))

/-- The version of an outcome; only a checked one has one. -/
def outcomeVersion (outcome : Json) : Int :=
  match outcome.field "requestVersion" with
  | some (.num version) => version
  | _ => 0

/-! ## The view -/

/-- The preview a draft was taken from. -/
structure PreviewRef where
  attemptId : String
  seq : Nat
  fence : Nat
  requestVersion : Int
  deriving DecidableEq

structure RunView where
  preview : Option PreviewRef := none
  previewClosedFence : Option Nat := none
  runId : String
  lastSeq : Nat
  draft : Units
  message : Option AssistantMessage
  goalOutcome : Option Json
  requestVersion : Int
  fence : Nat
  messageFence : Nat
  resultId : Option String
  lifecycle : Option WorkStatus
  delivery : Option DeliveryState
  deriving DecidableEq

def createRunView (runId : String) : RunView where
  runId := runId
  lastSeq := 0
  draft := []
  message := none
  goalOutcome := none
  requestVersion := 0
  fence := 0
  messageFence := 0
  resultId := none
  lifecycle := none
  delivery := none

namespace RunView

/-- `{ ...view, draft: '', preview: null }`. -/
def withoutDraft (view : RunView) : RunView := { view with draft := [], preview := none }

/-- `view.previewClosedFence ?? 0`. -/
def closedFence (view : RunView) : Nat := view.previewClosedFence.getD 0

end RunView

/-! ## Events -/

def maxDraft : Nat := 200000

/-- `draft.slice(-200_000)`. -/
def lastUnits (draft : Units) : Units := draft.drop (draft.length - maxDraft)

/-- The event is one of this view's, for users, and after the last one. -/
def takesEvent (view : RunView) (event : RunEvent) : Bool :=
  event.runId = view.runId && event.visibility = .user && isSafeInteger event.seq
    && view.lastSeq < event.seq

def eventData (event : RunEvent) (key : String) : Option Json := event.data.lookup key

/-- A new attempt starts with nothing. -/
def started (view : RunView) (event : RunEvent) (next : RunView) : RunView :=
  if event.kind = "run.started" ∧ view.messageFence < next.fence then
    { next.withoutDraft with goalOutcome := none, lifecycle := some .leased }
  else next

/-- The text of a `model.delta` event that is for this version of the request. -/
def deltaText (view : RunView) (event : RunEvent) (fence : Nat) : Option String :=
  if event.kind = "model.delta" ∧ eventData event "partType" = some (.str "text")
      ∧ view.messageFence < fence then
    match eventData event "delta", eventData event "requestVersion" with
    | some (.str delta), some (.num version) =>
        if view.requestVersion ≤ version then some delta else none
    | some (.str delta), none => if view.requestVersion ≤ 1 then some delta else none
    | _, _ => none
  else none

def streamed (view : RunView) (event : RunEvent) (next : RunView) : RunView :=
  match deltaText view event next.fence with
  | some delta =>
      { next with
        draft := lastUnits ((if next.preview.isSome then [] else next.draft) ++ units delta)
        requestVersion := match eventData event "requestVersion" with
          | some (.num version) => version
          | _ => next.requestVersion
        preview := none }
  | none => next

/-- The draft is given up, and so are the previews of this attempt. -/
def closed (next : RunView) : RunView :=
  { next.withoutDraft with previewClosedFence := some next.fence }

def committed (event : RunEvent) (next : RunView) : RunView :=
  if event.kind = "response.committed" then closed next else next

/-- The outcome an event carries, if the view may show it. -/
def shownOutcome (view : RunView) (event : RunEvent) (fence : Nat) : Option Json :=
  (eventData event "goalOutcome").filter fun outcome =>
    view.messageFence < fence && isGoalOutcome (some outcome)
      && view.requestVersion ≤ outcomeVersion outcome

def concluded (view : RunView) (event : RunEvent) (next : RunView) : RunView :=
  match shownOutcome view event next.fence with
  | some outcome =>
      let shown := { next with
        goalOutcome := some outcome
        requestVersion := outcomeVersion outcome }
      if isOneOf ["awaiting_input", "awaiting_approval", "delegated"] (outcome.field "status") then
        { shown with draft := [], lifecycle := some .waiting }
      else shown
  | none => next

def ended (event : RunEvent) (next : RunView) : RunView :=
  if event.kind = "run.failed" then { closed next with lifecycle := some .failed }
  else if event.kind = "run.cancelled" then { closed next with lifecycle := some .cancelled }
  else next

/-- Consume ordered, replayable public events. -/
def consumeRunEvent (view : RunView) (event : RunEvent) : RunView :=
  if takesEvent view event then
    let next := { view with lastSeq := event.seq }
    if fenceOf event.seq < view.fence then next
    else ended event (concluded view event (committed event (streamed view event
      (started view event { next with fence := fenceOf event.seq }))))
  else view

/-! ## Messages -/

/-- The result a message was committed as. -/
structure Commit where
  resultId : String
  fence : Nat
  deriving DecidableEq

/-- What is wrong with a committed message. -/
def checkMessage (view : RunView) (message : AssistantMessage) (commit : Commit) :
    Except String Unit :=
  let envelope := message.envelope
  if message.runId ≠ view.runId ∨ Text.isBlank message.body then
    throw "invalid committed assistant message"
  else if !isGoalOutcome (some envelope.goalOutcome.toJson) ∨ envelope.body ≠ message.body
      ∨ envelope.requestVersion ≠ envelope.goalOutcome.requestVersion then
    throw "committed message has an inconsistent envelope"
  else if commit.resultId = "" ∨ !isSafeInteger commit.fence ∨ commit.fence < 1 then
    throw "committed result identity is required"
  else pure ()

/-- The view has this result already. -/
def holdsResult (view : RunView) (commit : Commit) : Bool :=
  view.message.isSome && commit.fence = view.messageFence && view.resultId = some commit.resultId

/-- The message is neither of an older version nor of an older or another result. -/
def takesMessage (view : RunView) (message : AssistantMessage) (commit : Commit) : Bool :=
  view.requestVersion ≤ message.envelope.requestVersion && view.messageFence ≤ commit.fence
    && (commit.fence ≠ view.messageFence || view.resultId = some commit.resultId)

def lifecycleOf (outcome : GoalOutcome) : WorkStatus :=
  match outcome.status with
  | .satisfied => .succeeded
  | .partial_ => .partial_
  | .blocked => .blocked
  | .awaitingInput | .awaitingApproval _ | .delegated _ => .waiting

/-- The view with a message, and with its outcome where no newer attempt is known. -/
def showMessage (view : RunView) (message : AssistantMessage) (commit : Commit) : RunView :=
  let shown := { view with
    message := some message
    messageFence := commit.fence
    resultId := some commit.resultId
    requestVersion := max view.requestVersion message.envelope.requestVersion }
  if view.fence ≤ commit.fence then
    { shown.withoutDraft with
      previewClosedFence := some commit.fence
      fence := commit.fence
      goalOutcome := some message.envelope.goalOutcome.toJson
      lifecycle := some (lifecycleOf message.envelope.goalOutcome) }
  else shown

/-- Call only for messages received from the product's committed-message channel. -/
def consumeAssistantMessage (view : RunView) (message : AssistantMessage) (commit : Commit) :
    Except String RunView := do
  checkMessage view message commit
  if holdsResult view commit then return view
  else if takesMessage view message commit then return showMessage view message commit
  else return view

/-! ## States -/

def isActive (status : WorkStatus) : Bool := status = .queued || status = .leased

/-- The state is of this run and not behind the view. -/
def takesState (view : RunView) (state : RunState) : Bool :=
  state.run.id = view.runId && view.requestVersion ≤ state.run.requestVersion
    && view.fence ≤ state.run.fence
    && (state.run.fence ≠ view.messageFence || view.messageFence ≤ state.run.resultFence.getD 0)

/-- The committed message of a state, with its result. -/
def stateMessage (state : RunState) : Option (AssistantMessage × Commit) :=
  match state.message, state.run.resultId, state.run.resultFence with
  | some message, some resultId, some fence =>
      if resultId ≠ "" ∧ fence ≠ 0 then some (message, ⟨resultId, fence⟩) else none
  | _, _, _ => none

/-- `{ ...next, ... }` with the run of a state. -/
def showRun (view : RunView) (state : RunState) (next : RunView) : RunView :=
  let run := state.run
  let shown := { next with
    fence := run.fence
    requestVersion := run.requestVersion
    lifecycle := some run.status
    goalOutcome := run.goalOutcome.map GoalOutcome.toJson
    delivery := state.delivery
    previewClosedFence := if isActive run.status then next.previewClosedFence else some run.fence }
  if isActive run.status ∧ run.fence = view.fence ∧ run.requestVersion = view.requestVersion then shown
  else shown.withoutDraft

/-- Use a consistent snapshot after replay and after every control operation. -/
def consumeRunState (view : RunView) (state : RunState) : Except String RunView :=
  if takesState view state then do
    let next ← match stateMessage state with
      | some (message, commit) => consumeAssistantMessage view message commit
      | none => pure view
    return showRun view state next
  else return view

/-! ## Previews -/

def maxPreview : Nat := 100000

/-- The update is neither of an older attempt or version nor of one that is closed. -/
def takesPreview (view : RunView) (update : PreviewUpdate) : Bool :=
  update.runId = view.runId && view.fence ≤ update.fence && view.messageFence < update.fence
    && view.closedFence < update.fence && view.requestVersion ≤ update.requestVersion
    && isSafeInteger update.seq && 1 ≤ update.seq
    && view.preview.all fun prior => prior.fence ≠ update.fence || prior.seq < update.seq

/-- The preview of an update's attempt with a sequence number. -/
def refOf (update : PreviewUpdate) (seq : Nat) : PreviewRef :=
  ⟨update.attemptId, seq, update.fence, update.requestVersion⟩

/-- The draft after an update; nothing on a gap. -/
def previewDraft (view : RunView) (update : PreviewUpdate) : Option Units :=
  (match update.text with
  | .snapshot draft => some draft
  | .delta delta fromSeq =>
      if view.preview = some (refOf update fromSeq) then some (view.draft ++ delta) else none).filter fun draft => draft.length ≤ maxPreview

/-- Gaps discard the draft. -/
def consumePreview (view : RunView) (update : PreviewUpdate) : RunView :=
  if takesPreview view update then
    match previewDraft view update with
    | none => view.withoutDraft
    | some draft =>
        { view with
          draft := draft
          fence := update.fence
          requestVersion := update.requestVersion
          preview := some (refOf update update.seq) }
  else view

/-! ## The stream -/

def consumeRunStreamEvent (view : RunView) : RunStreamEvent → Except String RunView
  | .event event => .ok (consumeRunEvent view event)
  | .state state => consumeRunState view state
  | .preview preview => .ok (consumePreview view preview)
  | .reset runId _ => .ok (if runId = view.runId then view.withoutDraft else view)

end Ui

end LingxiOS
