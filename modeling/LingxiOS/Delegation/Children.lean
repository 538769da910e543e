-- SUMMARY: Delegation over the work rows: checks, meta and insertion.
import LingxiOS.Base.Transition
import LingxiOS.Delegation.Jobs

/-! # Delegated Jobs

`enqueueChild` over the rows it reads and inserts. `meta` is the JSONB value it is: the
child's is the model's own metadata with selected keys taken out and others set over it.
What the conversation tables answer is given to a call. -/

namespace LingxiOS

namespace Jobs

/-- `ChildInput`. -/
structure ChildInput where
  id : String
  agentId : String
  text : String
  kind : Option String := none
  executionClass : Option String := none
  sessionId : Option String := none
  threadId : Option String := none
  dependsOn : Option (List String) := none
  meta_ : Option JsonObject := none

/-- A call of `enqueueChild` that succeeded: the parent's request and its version, and
    the child it was made for. -/
structure Delegated where
  parentId : String
  childId : String
  version : Nat
  request : Json
  assignment : String

/-- The tables, and the calls that have succeeded so far. -/
structure JobTables where
  works : JsMap String JobRow
  requests : JsMap String Json
  dependencies : List (String × String)
  delegated : List Delegated

/-! ## Values -/

/-- `value ?? other`. -/
def coalesce (value : Option Json) (other : Json) : Json :=
  match value with
  | none | some .null => other
  | some v => v

def truthy : Json → Bool
  | .null => false
  | .bool b => b
  | .num n => n != 0
  | .str s => s != ""
  | .arr _ | .obj _ => true

/-! ## Policy -/

/-- `executionMode` of a work's `meta`. -/
def executionMode (meta_ : Option Json) : Except String Json :=
  let mode := coalesce (Jsonb.get meta_ "mode") (.str "execute")
  if mode.toJsString ∈ ["chat", "read", "execute"] then .ok mode
  else .error "invalid execution mode"

def classOf (work : JobRow) : ExecutionClass :=
  executionClassOf work.lane (match Jsonb.get work.meta_ "executionClass" with
    | some (.str name) => some name
    | _ => none)

def className : ExecutionClass → String
  | .conversation => "conversation"
  | .operation => "operation"

/-- The code policy `executionSnapshot` takes from the work, before what the worker
    proposes. -/
def permitsCode (meta_ : Option Json) : Bool :=
  let configured := Jsonb.get meta_ "codeExecution"
  Jsonb.get meta_ "executionClass" ≠ some (.str "conversation")
    && (match executionMode meta_ with
      | .ok mode => mode == .str "execute"
      | .error _ => false)
    && (configured == none || configured == some (.str "enabled"))

/-! ## Checks -/

/-- The version of a stored request: one more than its revisions. -/
def versionOf (request : Json) : Option Nat :=
  match request.field "revisions" with
  | some (.arr revisions) => some (revisions.length + 1)
  | _ => none

def requestSnapshot (tables : JobTables) (workId : String) (version : Option Nat) :
    Except String Json :=
  match tables.requests.get? workId with
  | some request =>
      if request.field "workId" = some (.str workId) ∧ versionOf request = version
          ∧ version.isSome then
        .ok request
      else .error "current original request snapshot is required"
  | none => .error "current original request snapshot is required"

/-- The rows a work's `parentWorkId` leads to, itself first. -/
def lineage (works : JsMap String JobRow) (parent : JobRow) : Nat → List String → JobRow →
    List JobRow
  | 0, _, work => [work]
  | depth + 1, path, work =>
      match (Jsonb.getText work.meta_ "parentWorkId").bind works.get? with
      | some ancestor =>
          if ancestor.tenantId = parent.tenantId ∧ ancestor.principalId = parent.principalId
              ∧ parent.principalId.isSome ∧ ancestor.id ∉ path then
            work :: lineage works parent depth (ancestor.id :: path) ancestor
          else [work]
      | none => [work]

/-- `WITH RECURSIVE lineage`, of at most 64 rows. -/
def ancestors (works : JsMap String JobRow) (parent : JobRow) : List JobRow :=
  match works.get? parent.id with
  | some work =>
      if work.tenantId = parent.tenantId ∧ work.principalId = parent.principalId
          ∧ parent.principalId.isSome then
        lineage works parent 63 [work.id] work
      else []
  | none => []

/-- `parent.meta?.['rootWorkId'] ?? parent.id`. -/
def rootOf (parent : JobRow) : Json := coalesce (Jsonb.get parent.meta_ "rootWorkId") (.str parent.id)

/-- The ancestors are all open, and the root is one of them. -/
def ancestorsActive (works : JsMap String JobRow) (parent : JobRow) : Bool :=
  let rows := ancestors works parent
  rows.length < 64 && rows.any (fun row => .str row.id = rootOf parent)
    && rows.all fun row => row.status.isOpen && row.cancelRequestedAt.isNone

def childrenBeside (works : JsMap String JobRow) (parentId childId : String) : Nat :=
  (works.values.filter fun row =>
    Jsonb.getText row.meta_ "parentWorkId" = some parentId ∧ row.id ≠ childId).length

/-- The dependencies are siblings of this graph and request. -/
def siblings (works : JsMap String JobRow) (parent : JobRow) (version : Nat)
    (graphId : Option String) (dependsOn : List String) : Bool :=
  (works.values.filter fun row =>
    row.id ∈ dependsOn ∧ row.tenantId = parent.tenantId ∧ row.principalId = parent.principalId
      ∧ Jsonb.getText row.meta_ "parentWorkId" = some parent.id
      ∧ Jsonb.get row.meta_ "parentRequestVersion" = some (.num version)
      ∧ Jsonb.getText row.meta_ "graphId" = graphId).length == dependsOn.length

/-- The class of a child: the one asked for, else the parent's. -/
def childClass (parent : JobRow) (input : ChildInput) : String :=
  input.executionClass.getD (className (classOf parent))

/-- The checks of the request, the class and the session. -/
def checkInput (works : JsMap String JobRow) (parent : JobRow) (input : ChildInput) :
    Except String Unit := do
  let dependsOn := input.dependsOn.getD []
  if (parent.principalId.getD "").isEmpty || Text.isBlank input.id || Text.isBlank input.agentId
      || Text.isBlank input.text || 100000 < Text.length input.text || 64 < dependsOn.length
      || dependsOn.any (fun id => Text.isBlank id || id == input.id) then
    throw "invalid child request"
  if 64 ≤ childrenBeside works parent.id input.id then
    throw "a parent may create at most 64 child tasks"
  if childClass parent input ∉ ["conversation", "operation"]
      ∨ childClass parent input = "conversation" ∧ classOf parent ≠ .conversation then
    throw "invalid child execution class"
  if childClass parent input = "operation" ∧ input.sessionId = some parent.sessionId
      ∧ input.agentId = parent.agentId ∧ input.threadId.or parent.threadId = parent.threadId then
    throw "long child work requires an isolated session"

/-! ## The child's meta -/

/-- The keys of the model's metadata that are not its to set. -/
def untrustedKeys : List String :=
  ["executionClass", "harnessHash", "mode", "obligations", "codeExecution", "deliveryMode", "graphId"]

/-- The model's metadata without them. -/
def modelMeta (input : ChildInput) : JsonObject :=
  (input.meta_.getD []).filter fun field => field.1 ∉ untrustedKeys

def childCode (parent : JobRow) (input : ChildInput) : Option Json :=
  let inherited := Jsonb.get parent.meta_ "codeExecution"
  let requested := (input.meta_.getD []).lookup "codeExecution"
  if inherited = some (.str "disabled") ∨ requested = some (.str "disabled") then
    some (.str "disabled")
  else if inherited = some (.str "enabled") ∨ requested = some (.str "enabled") then
    some (.str "enabled")
  else none

/-- The parent's mode, once it was checked. -/
def childMode (parent : JobRow) : Except String (Option Json) :=
  match Jsonb.get parent.meta_ "mode" with
  | none => .ok none
  | some _ => (executionMode parent.meta_).map some

/-- `[[key, value]]` of a value that is there. -/
def member (key : String) (value : Option Json) : List (String × Option Json) :=
  match value with
  | none => []
  | some v => [(key, some v)]

def delegation (parent : JobRow) (request : Json) (version : Nat) (assignment : String) : Json :=
  .obj [("parentWorkId", .str parent.id), ("rootWorkId", rootOf parent),
    ("parentRequestVersion", .num version), ("instructionAuthorId", .str parent.agentId),
    ("parentRequest", request), ("assignment", .str assignment)]

def childMeta (parent : JobRow) (request : Json) (version : Nat) (input : ChildInput)
    (graphId : Option String) (mode : Option Json) : JsonObject :=
  JsonObject.assignAll (modelMeta input)
    ([("executionClass", some (.str (childClass parent input)))]
      ++ member "harnessHash" ((Jsonb.get parent.meta_ "harnessHash").filter truthy)
      ++ member "mode" mode
      ++ member "codeExecution" (childCode parent input)
      ++ [("text", some (.str input.text)), ("authorName", some (.str parent.agentId)),
        ("attachments", request.field "attachments"), ("parentWorkId", some (.str parent.id)),
        ("rootWorkId", some (rootOf parent)), ("parentRequestVersion", some (.num version))]
      ++ member "graphId" ((graphId.filter (· ≠ "")).map .str)
      ++ [("dependsOn", some (.arr ((input.dependsOn.getD []).map .str))),
        ("delegation", some (delegation parent request version input.text))])

/-! ## Insertion -/

def delegateSession (sha256 : String → String) (parent : JobRow) (version : Nat)
    (input : ChildInput) : String :=
  "delegate-session:" ++ sha256 (Json.arr [.str parent.id, .num version, .str input.id]).canonical

/-- `{ ...parent.conversation, internal: true }`. -/
def internalConversation : Json → Json
  | .obj fields => .obj (JsonObject.assign fields "internal" (some (.bool true)))
  | _ => .obj [("internal", .bool true)]

/-- What is inserted of a child. -/
def childWork (sha256 : String → String) (parent : JobRow) (version : Nat) (input : ChildInput)
    (meta_ : JsonObject) : EnqueueWorkInput where
  id := input.id
  tenantId := parent.tenantId
  agentId := input.agentId
  sessionId :=
    if parent.conversation.isSome then delegateSession sha256 parent version input
    else input.sessionId.getD (delegateSession sha256 parent version input)
  threadId := (input.threadId.or parent.threadId).filter (· ≠ "")
  kind := input.kind.getD "turn"
  lane := .collaboration
  triggerRef := parent.triggerRef
  principalId := parent.principalId
  meta_ := some (.obj meta_)
  conversation := parent.conversation.map internalConversation

def enqueueChild (sha256 : String → String) (now : Int) (authorized : Except String Unit)
    (tables : JobTables) (parent : JobRow) (version : Option Nat) (input : ChildInput) (graphId : Option String) :
    Except String JobTables := do
  let request ← requestSnapshot tables parent.id version
  let version := version.getD 0
  authorized
  if parent.conversation.isSome ∧ input.threadId.isSome ∧ input.threadId ≠ parent.threadId then
    throw "delegation cannot change its conversation thread"
  if !ancestorsActive tables.works parent then throw "an ancestor task is no longer active"
  checkInput tables.works parent input
  let mode ← childMode parent
  let meta_ := childMeta parent request version input graphId mode
  let dependsOn := input.dependsOn.getD []
  if !dependsOn.isEmpty ∧ !siblings tables.works parent version graphId dependsOn then
    throw "dependencies must be existing siblings of this graph and request"
  let works ← enqueueWork now tables.works (childWork sha256 parent version input meta_)
  return { tables with
    works := works
    dependencies := tables.dependencies ++ dependsOn.map fun id => (input.id, id)
    delegated := tables.delegated ++ [⟨parent.id, input.id, version, request, input.text⟩] }

/-! ## Runs -/

/-- What other code leaves of a row: its identity, every key of `meta` but the snapshot a
    synthesis keeps there, and its lane unless an approval resumes it. -/
structure SameJob (row row' : JobRow) : Prop where
  id : row'.id = row.id
  lane : row'.lane = row.lane ∨ row'.lane = .approval
  agentId : row'.agentId = row.agentId
  tenantId : row'.tenantId = row.tenantId
  principalId : row'.principalId = row.principalId
  meta_ : ∀ key, key ≠ "memorySnapshot" → Jsonb.get row'.meta_ key = Jsonb.get row.meta_ key

/-- How works are stored: each under its id, its `meta` with the keys in order. -/
structure Stored (tables : JobTables) : Prop where
  id : ∀ {id row}, tables.works.get? id = some row → row.id = id
  meta_ : ∀ {id row}, tables.works.get? id = some row → row.meta_.map Json.sortKeys = row.meta_

/-- A delegation by any stored work, or a step of any other code: it may insert works of any
    kind, and change what is not fixed of the stored ones and the stored requests. -/
inductive Event where
  | child (now : Int) (authorized : Except String Unit) (parentId : String) (version : Option Nat)
      (input : ChildInput) (graphId : Option String)
  | others

/-- The works of a system in which children are delegated. -/
def system (sha256 : String → String) : TransitionSystem JobTables Event where
  start tables := tables.delegated = [] ∧ Stored tables
  step tables event tables' := match event with
    | .child now authorized parentId version input graphId => ∃ parent,
        tables.works.get? parentId = some parent
          ∧ enqueueChild sha256 now authorized tables parent version input graphId = .ok tables'
    | .others => tables'.delegated = tables.delegated
        ∧ (∀ id row, tables.works.get? id = some row →
          ∃ row', tables'.works.get? id = some row' ∧ SameJob row row')
        ∧ Stored tables'

end Jobs

end LingxiOS
