-- SUMMARY: Session records: model items and conversation state.
import LingxiOS.Request.Snapshot

/-! # Session Records

The conversation a session keeps between attempts. A tool output is the JSON of
a body; a body whose text is too long is replaced by a preview that keeps none
of its receipts. -/

namespace LingxiOS

/-! ## Tool outputs -/

/-- The body of a tool output: its receipts, and every other field. -/
structure ToolBody where
  fields : JsonObject
  receipts : Option (List Receipt) := none

def ToolBody.toJson (body : ToolBody) : Json :=
  .obj (body.fields ++ optionalField "receipts" body.receipts (fun receipts =>
    .arr (receipts.map Receipt.toJson)))

/-- The text of a tool output: the whole body, or a preview of one that was too long. -/
inductive ToolOutput where
  | whole (body : ToolBody)
  | preview (originalCharacters : Nat) (text : String)

def previewMetadata (originalCharacters : Nat) : JsonObject :=
  [("truncated", .bool true), ("originalCharacters", .num originalCharacters)]

def ToolOutput.toJson : ToolOutput → Json
  | .whole body => body.toJson
  | .preview originalCharacters text =>
      .obj (previewMetadata originalCharacters ++ [("preview", .str text)])

def maxToolOutputChars : Nat := 8000

/-- How much of a serialized body a preview may keep, once its escapes are counted. -/
def previewLimit (originalCharacters : Nat) : Nat :=
  (maxToolOutputChars
    - Text.length (Json.obj (previewMetadata originalCharacters)).stringify - 80) / 2

def ToolBody.fits (body : ToolBody) : Bool :=
  Text.length body.toJson.stringify ≤ maxToolOutputChars

def boundedToolOutput (body : ToolBody) : ToolOutput :=
  if body.fits then .whole body
  else
    let serialized := body.toJson.stringify
    .preview (Text.length serialized) (Text.slice (previewLimit (Text.length serialized)) serialized)

/-- `JSON.parse(output).receipts ?? []`. -/
def ToolOutput.receipts : ToolOutput → List Receipt
  | .whole body => body.receipts.getD []
  | .preview _ _ => []

theorem boundedToolOutput_receipts (body : ToolBody) :
    (boundedToolOutput body).receipts
      = if body.fits then body.receipts.getD [] else [] := by
  unfold boundedToolOutput
  cases body.fits with
  | true => rfl
  | false => rfl

/-! ## Model items -/

inductive Role where
  | user | assistant | system
  deriving DecidableEq

/-- The raw arguments of a call, with what `JSON.parse` makes of them. -/
structure CallArguments where
  text : String
  parsed : Option Json
  deriving DecidableEq

structure FunctionCall where
  callId : String
  name : String
  arguments : CallArguments
  stepId : Option String := none
  deriving DecidableEq

inductive ModelItem where
  | message (role : Role) (content : String)
  | functionCall (call : FunctionCall)
  | functionCallOutput (callId : String) (output : ToolOutput)

/-- Durable conversational state of one agent session. -/
structure SessionRecord where
  key : SessionKey
  tenantId : String
  agentId : String
  sessionId : String
  threadId : Option String
  request : Option RequestSnapshot := none
  summary : Option String := none
  history : List ModelItem := []
  appliedWorkIds : List String := []
  revision : Nat := 0
  compactionEpoch : Nat := 0

/-- `sessionKeyOf`. -/
def TurnWork.sessionKey (work : TurnWork) : SessionKey :=
  ⟨work.tenantId, work.agentId, work.sessionId, work.threadId⟩

end LingxiOS
