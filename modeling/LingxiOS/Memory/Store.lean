-- SUMMARY: applyMemoryChanges: a batch, its provenance and the log.
import LingxiOS.Base.Transition
import LingxiOS.Memory.Forget

/-! # The Memory Store

`applyMemoryChanges` of `store.ts` as one transaction. The changes are made one by one to
the documents; a batch that deletes one forgets the sources of the whole scope. -/

namespace LingxiOS

namespace Memories

/-- What is handed to `memoryWriteBody`. -/
structure MemoryWriteInput where
  scope : MemoryScope
  principalId : String
  sourceWorkId : String
  origin : MemoryOrigin
  kind : String
  body : String
  deriving DecidableEq

/-- `writeBody` is `memoryWriteBody` under the host's policy; `resolveScopes` answers the scopes
    the identity of a work item may reach now. -/
structure MemoryWriteContext where
  identity : MemoryIdentity
  actionId : String
  epoch : Nat
  sources : List MemorySource
  explicit : Bool
  writeBody : MemoryWriteInput → Except String String
  resolveScopes : Option (String → Except String (List MemoryScope)) := none

/-- The clocks of one call: the transaction's and the server's in microseconds, the host's in
    milliseconds. -/
structure MemoryClock where
  transaction : Int
  server : Int
  host : Int
  deriving DecidableEq

/-- The context of a call on one scope that stays as it is while its changes are made. -/
structure MemoryCall where
  env : MemoryEnv
  works : JsMap String SourceWork
  scope : MemoryScope
  context : MemoryWriteContext
  clock : MemoryClock

abbrev Documents := JsMap (String × String) DocumentRow

namespace MemoryCall

variable (call : MemoryCall)

/-! ## Reading -/

def key (id : String) : String × String := (call.scope.tenantId, id)

/-- `readMemory` of the current version. -/
def readMemory (documents : Documents) (id : String) : Option DocumentRow :=
  (documents.get? (call.key id)).filter fun row => row.scope = call.scope ∧ row.origin ≠ .evolved

/-- A source must still be one whose run may reach the scope. -/
def checkSourceScope (resolve : String → Except String (List MemoryScope)) (source : MemorySource) :
    Except String Unit :=
  match source.work with
  | none => .ok ()
  | some workId => match call.works.get? workId with
    | none => .error "memory source scope was revoked"
    | some work =>
        if work.tenantId ≠ call.scope.tenantId then .error "memory source scope was revoked"
        else do
          let scopes ← resolve workId
          if !scopes.contains call.scope then .error "memory source scope was revoked" else .ok ()

/-- `get`: the document a change names, when the call may change it. -/
def get (documents : Documents) (target : Versioned) : Except String DocumentRow :=
  match call.readMemory documents target.id with
  | none => .error "memory is unavailable or stale"
  | some row =>
      if row.version ≠ target.expectedVersion then .error "memory is unavailable or stale"
      else if !call.context.explicit && (row.origin = .explicit || row.locked) then
        .error "memory is protected; a current explicit user request is required"
      else match call.context.resolveScopes with
        | none => .ok row
        | some resolve => do
            row.sources.forM (call.checkSourceScope resolve)
            return row

/-! ## Sources -/

/-- The sources, each digest once. -/
def distinctSources (sources : List MemorySource) : List MemorySource :=
  (sources.foldl (fun distinct source => distinct.set (call.env.memoryDigest (.source source)) source)
    (JsMap.empty : JsMap String MemorySource)).values

/-- The sources a document has after the call, at most 64. -/
def mergeSources (sources : List MemorySource) : Except String (List MemorySource) :=
  let distinct := call.distinctSources (sources ++ call.context.sources)
  if 64 < distinct.length then .error "memory provenance limit reached; split the document"
  else .ok distinct

/-! ## Writing -/

/-- What a document is written from, `validUntil` as a time. -/
structure Draft where
  path : String
  title : String
  description : String
  body : String
  layer : MemoryLayer
  kind : Option String
  locked : Option Bool
  validUntil : Option Int

def draftOf (content : MemoryContent) : Draft where
  path := content.path
  title := content.title
  description := content.description
  body := content.body
  layer := content.layer
  kind := content.kind
  locked := content.locked
  validUntil := content.validUntil.join.bind call.env.dateParse

/-- `contentOf`, at another path. -/
def contentAt (row : DocumentRow) (path : String) : Draft where
  path := path
  title := row.title
  description := row.description
  body := row.body
  layer := row.layer
  kind := some row.kind
  locked := some row.locked
  validUntil := row.validUntil

def writeBody (origin : MemoryOrigin) (kind body : String) : Except String String :=
  call.context.writeBody
    { scope := call.scope, principalId := call.context.identity.principalId
      sourceWorkId := call.context.identity.workId.getD call.context.actionId
      origin := origin, kind := kind, body := body }

/-- Expired memory comes back on evidence that is newer than its expiry. -/
def checkExpired (current : Option DocumentRow) (draft : Draft) : Except String Unit :=
  match current with
  | none => .ok ()
  | some row =>
      let expired := row.status = .expired
      let expiredAt := if expired then some (millis row.updatedAt) else row.validUntil
      let observed := call.context.sources.any fun source =>
        (source.observedAt.bind call.env.dateParse).any fun time => expiredAt.any (· < time)
      if (expired ∨ row.validUntil.any (· ≤ call.clock.host)) ∧ (draft.validUntil.isNone ∨ !observed) then
        .error "expired memory requires new evidence and a future expiry"
      else .ok ()

/-- The row a draft is stored as, its texts past the content policy. -/
def writeRow (current : Option DocumentRow) (draft : Draft) (sources : List MemorySource) :
    Except String DocumentRow := do
  let origin := if call.context.explicit then .explicit else .synthesized
  let kind := (draft.kind <|> current.map DocumentRow.kind).getD "observation"
  let body ← call.writeBody origin kind draft.body
  let title ← call.writeBody origin "title" draft.title
  let description ← call.writeBody origin "description" draft.description
  let path ← call.writeBody origin "path" draft.path
  validateMemoryPath call.env path
  if 200 < Text.length title || 500 < Text.length description then
    .error "invalid memory metadata after content policy"
  else
    return { scope := call.scope, path := path, title := title, description := description
             body := body, layer := draft.layer, kind := kind, origin := origin
             locked := (draft.locked <|> current.map DocumentRow.locked).getD false
             version := current.elim 1 (·.version + 1), status := .active, sources := sources
             validUntil := draft.validUntil, updatedAt := call.clock.transaction }

/-- The index `agent_memories_path`. -/
def pathTaken (documents : Documents) (id : String) (path : String) : Bool :=
  documents.entries.any fun entry =>
    entry.1 ≠ call.key id ∧ entry.2.scope = call.scope ∧ entry.2.path = path

/-- Store a row, a new one under an id that is not in use. -/
def saveRow (documents : Documents) (isNew : Bool) (id : String) (row : DocumentRow) :
    Except String Documents :=
  if isNew && documents.has (call.key id) then
    .error "duplicate key value violates unique constraint \"agent_memories_pkey\""
  else if call.pathTaken documents id row.path then
    .error "duplicate key value violates unique constraint \"agent_memories_path\""
  else .ok (documents.set (call.key id) row)

def documentId (index : Nat) : String :=
  "mem-" ++ call.env.memoryDigest
    (.document call.scope call.context.epoch call.context.actionId index)

def checkLocked (draft : Draft) : Except String Unit :=
  if !call.context.explicit && draft.locked.getD false then
    .error "automatic memory cannot lock documents"
  else .ok ()

/-- The last part of a change that writes a document. -/
def save (documents : Documents) (current : Option (String × DocumentRow)) (draft : Draft)
    (sources : List MemorySource) (index : Nat) : Except String (MemoryDocument × Documents) := do
  call.checkExpired (current.map Prod.snd) draft
  let row ← call.writeRow (current.map Prod.snd) draft sources
  let id := (current.map Prod.fst).getD (call.documentId index)
  let documents ← call.saveRow documents current.isNone id row
  return (memoryDocument id row, documents)

/-- A donor of a merge retires, its sources joined by the call's. -/
def retireDonor (state : List MemorySource × Documents) (donor : Versioned) :
    Except String (List MemorySource × Documents) := do
  let row ← call.get state.2 donor
  let donorSources ← call.mergeSources row.sources
  return (call.distinctSources (state.1 ++ row.sources), state.2.set (call.key donor.id)
    { row with status := .retired, version := row.version + 1, sources := donorSources
               updatedAt := call.clock.transaction })

/-! ## Changes -/

/-- What the changes before have answered, and the documents they left. -/
abbrev Progress := MemoryApplyResult × Documents

def Progress.add (state : Progress) (saved : MemoryDocument × Documents) : Progress :=
  ({ state.1 with documents := state.1.documents ++ [saved.1] }, saved.2)

/-- One turn of the loop over the changes. -/
def applyChange (state : Progress) (change : MemoryChange × Nat) : Except String Progress :=
  match change.1 with
  | .create content => do
      let sources ← call.mergeSources []
      let draft := call.draftOf content
      call.checkLocked draft
      return state.add (← call.save state.2 none draft sources change.2)
  | .update target content => do
      let current ← call.get state.2 target
      let sources ← call.mergeSources current.sources
      let draft := call.draftOf content
      call.checkLocked draft
      return state.add (← call.save state.2 (some (target.id, current)) draft sources change.2)
  | .move target path => do
      let current ← call.get state.2 target
      let sources ← call.mergeSources current.sources
      let draft := contentAt current path
      call.checkLocked draft
      return state.add (← call.save state.2 (some (target.id, current)) draft sources change.2)
  | .expire target => do
      let current ← call.get state.2 target
      let sources ← call.mergeSources current.sources
      let row := { current with status := .expired, version := current.version + 1
                                sources := sources, updatedAt := call.clock.transaction }
      return state.add (memoryDocument target.id row, state.2.set (call.key target.id) row)
  | .merge target content from_ => do
      let current ← call.get state.2 target
      let sources ← call.mergeSources current.sources
      let draft := call.draftOf content
      call.checkLocked draft
      let (sources, documents) ← from_.foldlM call.retireDonor (sources, state.2)
      if 64 < sources.length then .error "memory provenance limit reached; split the document"
      else return state.add (← call.save documents (some (target.id, current)) draft sources change.2)
  | .delete target => do
      let current ← call.get state.2 target
      let _ ← call.mergeSources current.sources
      if !call.context.explicit then .error "deletion requires an explicit user request"
      else return ({ state.1 with deleted := state.1.deleted ++ [target.id] },
        state.2.delete (call.key target.id))

end MemoryCall

/-! ## The call -/

/-- What the context says about itself. -/
def hasProvenance (scope : MemoryScope) (context : MemoryWriteContext) : Bool :=
  scope.tenantId = context.identity.tenantId ∧ context.identity.principalId ≠ ""
    ∧ context.actionId ≠ "" ∧ Text.length context.actionId ≤ 2000
    ∧ context.sources ≠ [] ∧ context.sources.length ≤ 64
    ∧ context.sources.all fun source => source.sourceRef ≠ "" ∧ source.authorId ≠ ""

/-- The work a source names must have begun after the scope was last forgotten. -/
def checkSource (tables : MemoryTables) (epoch : MemoryEpoch) (source : MemorySource) :
    Except String Unit :=
  match source.work with
  | none => .ok ()
  | some workId => do
      let scopes ← currentMemoryScopes tables [epoch] workId
      if scopes = [] then .error "memory source predates forgetting" else .ok ()

/-- The fingerprint of a command leaves out when its sources were observed. -/
def fingerprint (env : MemoryEnv) (scope : MemoryScope) (changes : List MemoryChange)
    (context : MemoryWriteContext) : String :=
  env.memoryDigest (.command context.identity scope changes
    (context.sources.map fun source => { source with observedAt := none }) context.explicit)

/-- The checks before the command log is read, under the lock of the scope. -/
def admitWrite (env : MemoryEnv) (tables : MemoryTables) (clock : MemoryClock) (scope : MemoryScope)
    (changes : List MemoryChange) (context : MemoryWriteContext) : Except String MemoryTables :=
  if !validateScope scope then .error "invalid memory scope"
  else do
    let _ ← parseDocumentChanges env clock.host changes
    if !hasProvenance scope context then .error "memory write requires provenance"
    else do
      let (epoch, tables) ← lockMemoryScope tables scope
      if epoch.epoch ≠ context.epoch then .error "memory scope was forgotten"
      else do
        context.sources.forM (checkSource tables epoch)
        return tables

def recordCommand (tables : MemoryTables) (key : MemoryScope × Nat × String) (row : CommandRow) :
    Except String MemoryTables :=
  if tables.commands.has key then
    .error "duplicate key value violates unique constraint \"agent_memory_commands_pkey\""
  else .ok { tables with commands := tables.commands.set key row }

/-- The epoch a command is recorded under: one that deletes forgets the scope's sources. -/
def saveEpoch (call : MemoryCall) (tables : MemoryTables) (result : MemoryApplyResult) :
    Except String (Nat × MemoryTables) :=
  if result.deleted ≠ [] then forgetMemoryScope tables call.clock.server call.scope false
  else .ok (call.context.epoch, tables)

/-- A command that is not in the log is carried out and recorded. -/
def runCommand (call : MemoryCall) (tables : MemoryTables) (changes : List MemoryChange) :
    Except String (MemoryApplyResult × MemoryTables) := do
  let (result, documents) ← changes.zipIdx.foldlM call.applyChange (⟨[], []⟩, tables.documents)
  let tables := { tables with documents := documents }
  let (savedEpoch, tables) ← saveEpoch call tables result
  let tables ← recordCommand tables (call.scope, savedEpoch, call.context.actionId)
    ⟨fingerprint call.env call.scope changes call.context, result⟩
  return (result, tables)

def applyMemoryChanges (env : MemoryEnv) (tables : MemoryTables) (clock : MemoryClock)
    (scope : MemoryScope) (changes : List MemoryChange) (context : MemoryWriteContext) :
    Except String (MemoryApplyResult × MemoryTables) := do
  let tables ← admitWrite env tables clock scope changes context
  match tables.commands.get? (scope, context.epoch, context.actionId) with
  | some previous =>
      if previous.fingerprint ≠ fingerprint env scope changes context then
        .error "memory idempotency key was reused"
      else .ok (previous.result, tables)
  | none => runCommand ⟨env, tables.works, scope, context, clock⟩ tables changes

/-! ## Any order of calls -/

inductive MemoryEvent where
  | forget (now : Int) (scope : MemoryScope) (purge : Bool)
  | capture (workId : String) (message : CapturedMessage) (scopes : List MemoryScope)
      (prepared : Option PreparedEvidence)
  | apply (clock : MemoryClock) (scope : MemoryScope) (changes : List MemoryChange)
      (context : MemoryWriteContext)
  | work

/-- The server's clock is not behind a time it has recorded. -/
def ClockFollows (tables : MemoryTables) (now : Int) : Prop :=
  ∀ scope forgotten, (scopeRow tables scope).forgottenAt = some forgotten → forgotten ≤ now

/-- Work items are inserted and requests change beside the calls. -/
structure NewWork (tables tables' : MemoryTables) : Prop where
  works : ∀ id work, tables.works.get? id = some work → tables'.works.get? id = some work
  rest : ∃ works requests, tables' = { tables with works := works, requests := requests }

/-- A call that throws is rolled back. -/
def memorySystem (env : MemoryEnv) : TransitionSystem MemoryTables MemoryEvent where
  start tables := tables.scopes = .empty ∧ tables.evidence = .empty ∧ tables.evidenceScopes = .empty
    ∧ tables.documents = .empty ∧ tables.commands = .empty
  step tables event tables' := match event with
    | .forget now scope purge => ClockFollows tables now ∧
        match forgetMemoryScope tables now scope purge with
        | .ok (_, left) => tables' = left
        | .error _ => tables' = tables
    | .capture workId message scopes prepared => ∃ work, tables.works.get? workId = some work ∧
        match captureMemoryEvidence env tables workId work message scopes prepared with
        | .ok left => tables' = left
        | .error _ => tables' = tables
    | .apply clock scope changes context => ClockFollows tables clock.server ∧
        match applyMemoryChanges env tables clock scope changes context with
        | .ok (_, left) => tables' = left
        | .error _ => tables' = tables
    | .work => NewWork tables tables'

end Memories

end LingxiOS
