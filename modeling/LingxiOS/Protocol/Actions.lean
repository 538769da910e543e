-- SUMMARY: Host actions, their results and the intents the ledger records for them.
import LingxiOS.Protocol.Types

/-! # Host Actions

One product side effect requested by kernel code, and what came of it. -/

namespace LingxiOS

/-- One product side effect requested by kernel code. -/
structure HostAction where
  runId : String
  cellId : String
  callIndex : Nat
  action : String
  args : JsonObject
  idempotencyKey : String

/-- `actionKeyOf`: the JSON tuple of the run, the cell and the call's index. -/
def actionKeyOf (runId cellId : String) (callIndex : Nat) : String :=
  (Json.arr [.str runId, .str cellId, .num callIndex]).stringify

structure ArtifactSource where
  ref : String
  version : String
  deriving DecidableEq

structure KernelArtifact where
  path : String
  size : Nat
  mime : String
  sha256 : String
  source : Option ArtifactSource := none
  deriving DecidableEq

inductive DirectiveType where
  | defer | taskContract
  deriving DecidableEq

/-- A host instruction back to the runtime: finish out of band, or take a task contract. -/
structure HostDirective where
  type : DirectiveType
  reason : Option String := none
  data : Option JsonObject := none
  deriving DecidableEq

inductive ExecutionState where
  | rejected | noEffect | succeeded | awaitingApproval | unknown
  deriving DecidableEq

/-- A source excerpt returned by an authorized read, before it is given a marker. -/
structure SourceEvidence where
  sourceId : String
  sourceVersion : String
  chunkId : String
  title : String
  excerpt : String
  url : Option String := none
  truncated : Option Bool := none
  deriving DecidableEq

structure HostActionResult where
  ok : Bool
  executionState : Option ExecutionState := none
  code : Option String := none
  value : Option Json := none
  evidence : List SourceEvidence := []
  artifacts : List KernelArtifact := []
  error : Option String := none
  /-- The id of the approval the action waits for. -/
  approval : Option String := none
  directive : Option HostDirective := none
  deriving DecidableEq

namespace HostActionResult

def isUnknown (result : HostActionResult) : Bool := result.executionState == some .unknown

/-- The action handed the run over to someone else. -/
def defers (result : HostActionResult) : Bool :=
  result.directive.any (fun directive => directive.type == .defer)

end HostActionResult

/-- What the ledger records before an action runs: who asks, and for which request. -/
structure ActionIntent where
  workId : String
  tenantId : String
  principalId : Option String
  agentId : String
  sessionId : String
  threadId : Option String
  requestVersion : Option Nat
  toolContractHash : Option String := none
  action : HostAction

/-- A recorded action as the journal of a cell reports it. -/
structure Receipt where
  action : String
  idempotencyKey : String
  result : HostActionResult

/-! ## The JSON of a result -/

/-- A field that is left out when it is absent. -/
def optionalField {α : Type} (key : String) (value : Option α) (toJson : α → Json) : JsonObject :=
  (value.map (fun v => (key, toJson v))).toList

def SourceEvidence.toJson (source : SourceEvidence) : Json :=
  .obj ([("sourceId", .str source.sourceId), ("sourceVersion", .str source.sourceVersion),
      ("chunkId", .str source.chunkId), ("title", .str source.title),
      ("excerpt", .str source.excerpt)]
    ++ optionalField "url" source.url .str ++ optionalField "truncated" source.truncated .bool)

def KernelArtifact.toJson (artifact : KernelArtifact) : Json :=
  .obj (optionalField "source" artifact.source
      (fun source => .obj [("ref", .str source.ref), ("version", .str source.version)])
    ++ [("path", .str artifact.path), ("size", .num artifact.size), ("mime", .str artifact.mime),
      ("sha256", .str artifact.sha256)])

def ExecutionState.name : ExecutionState → String
  | .rejected => "rejected"
  | .noEffect => "no_effect"
  | .succeeded => "succeeded"
  | .awaitingApproval => "awaiting_approval"
  | .unknown => "unknown"

def HostDirective.toJson (directive : HostDirective) : Json :=
  .obj ([("type", .str (match directive.type with
      | .defer => "defer"
      | .taskContract => "task_contract"))]
    ++ optionalField "reason" directive.reason .str ++ optionalField "data" directive.data .obj)

def HostActionResult.toJson (result : HostActionResult) : Json :=
  .obj ((if result.evidence.isEmpty then []
      else [("evidence", .arr (result.evidence.map SourceEvidence.toJson))])
    ++ [("ok", .bool result.ok)]
    ++ optionalField "executionState" result.executionState (fun state => .str state.name)
    ++ optionalField "code" result.code .str ++ optionalField "value" result.value (fun v => v)
    ++ (if result.artifacts.isEmpty then []
      else [("artifacts", .arr (result.artifacts.map KernelArtifact.toJson))])
    ++ optionalField "error" result.error .str
    ++ optionalField "approval" result.approval
      (fun id => .obj [("id", .str id), ("status", .str "PENDING")])
    ++ optionalField "directive" result.directive HostDirective.toJson)

def Receipt.toJson (receipt : Receipt) : Json :=
  .obj [("action", .str receipt.action), ("idempotencyKey", .str receipt.idempotencyKey),
    ("result", receipt.result.toJson)]

/-! ## Tools -/

inductive ToolEffect where
  | read | transaction | idempotent | uncertain
  deriving DecidableEq

structure ToolDefinition where
  name : String
  action : String
  effect : ToolEffect
  /-- The names of the parameters the tool takes. -/
  properties : List String := []
  approval : Bool := false
  readback : Option String := none
  /-- `execution?.class === 'operation'`. -/
  operation : Bool := false

/-- A capability of a work: a namespace, and the methods of it when they are limited. -/
structure CapabilityGrant where
  name : String
  methods : Option (List String) := none
  deriving DecidableEq

end LingxiOS
