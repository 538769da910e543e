-- SUMMARY: Memory scopes, documents, changes and their checks.
import LingxiOS.Context.Facts
import Mathlib.Data.Rat.Defs

/-! # Memory Documents

The types of `memory/types.ts` and the checks a batch of changes passes before any table
is read. The digest, Unicode normalization and `Date.parse` are parameters. -/

namespace LingxiOS

structure MemoryScope where
  tenantId : String
  scopeType : String
  scopeId : String
  deriving DecidableEq

inductive MemoryOrigin where
  | explicit | synthesized | evolved
  deriving DecidableEq

inductive MemoryStatus where
  | candidate | active | retired | expired
  deriving DecidableEq

namespace Memories

/-! ## Documents -/

inductive MemoryLayer where
  | core | reference
  deriving DecidableEq

structure MemorySource where
  sourceRef : String
  authorId : String
  workId : Option String := none
  requestVersion : Option Int := none
  inputSha256 : Option String := none
  actionId : Option String := none
  synthesisWorkId : Option String := none
  observedAt : Option String := none
  confidence : Option Rat := none
  deriving DecidableEq

/-- The work item a source names: the empty id names none. -/
def MemorySource.work (source : MemorySource) : Option String := source.workId.filter (· ≠ "")

structure MemoryIdentity where
  tenantId : String
  agentId : String
  principalId : String
  sessionId : String
  threadId : Option String := none
  workId : Option String := none
  deriving DecidableEq

/-- The outer option of `validUntil` is absence, the inner one `null`. -/
structure MemoryContent where
  path : String
  title : String
  description : String
  body : String
  layer : MemoryLayer
  kind : Option String := none
  locked : Option Bool := none
  validUntil : Option (Option String) := none
  deriving DecidableEq

/-- A document as a change names it. -/
structure Versioned where
  id : String
  expectedVersion : Int
  deriving DecidableEq

inductive MemoryChange where
  | create (content : MemoryContent)
  | update (target : Versioned) (content : MemoryContent)
  | move (target : Versioned) (path : String)
  | expire (target : Versioned)
  | merge (target : Versioned) (content : MemoryContent) (from_ : List Versioned)
  | delete (target : Versioned)
  deriving DecidableEq

/-- A row of `agent_memories`: `validUntil` in milliseconds, `updatedAt` in microseconds. -/
structure DocumentRow where
  scope : MemoryScope
  path : String
  title : String
  description : String
  body : String
  layer : MemoryLayer
  kind : String
  origin : MemoryOrigin
  locked : Bool
  version : Int
  status : MemoryStatus
  sources : List MemorySource
  validUntil : Option Int
  updatedAt : Int
  deriving DecidableEq

/-- A date the server keeps in microseconds, as JavaScript reads it. -/
def millis (time : Int) : Int := time / 1000

/-- A document as it is answered, its times in milliseconds. -/
structure MemoryDocument extends DocumentRow where
  id : String
  deriving DecidableEq

def memoryDocument (id : String) (row : DocumentRow) : MemoryDocument :=
  { row with id := id, updatedAt := millis row.updatedAt }

structure MemoryApplyResult where
  documents : List MemoryDocument
  deleted : List String
  deriving DecidableEq

/-! ## What the host provides -/

/-- What `memoryDigest` is applied to. -/
inductive Digested where
  | source (source : MemorySource)
  | command (identity : MemoryIdentity) (scope : MemoryScope) (changes : List MemoryChange)
      (sources : List MemorySource) (explicit : Bool)
  | document (scope : MemoryScope) (epoch : Nat) (actionId : String) (index : Nat)
  | evidence (request : Json) (body : String) (requestVersion : Int)

structure MemoryEnv where
  memoryDigest : Digested → String
  /-- `text.normalize('NFC') === text`. -/
  isNfc : String → Bool
  /-- `Date.parse`, without its `NaN`. -/
  dateParse : String → Option Int
  localeLe : String → String → Bool

/-! ## Checks -/

def validateScope (scope : MemoryScope) : Bool :=
  [scope.tenantId, scope.scopeType, scope.scopeId].all fun value =>
    !Text.isBlank value && Text.length value ≤ 1000

/-- `/[\\\x00-\x20:#?%\[\]<>|]/u`. -/
def isPathBreak (c : Char) : Bool :=
  c.toNat ≤ 0x20 || ['\\', ':', '#', '?', '%', '[', ']', '<', '>', '|'].contains c

def validatePart (part : List Char) : Bool := part ≠ [] && part.head? ≠ some '.'

def validateMemoryPath (env : MemoryEnv) (path : String) : Except String Unit :=
  let parts := path.toList.splitOn '/'
  if !(".md".toList.isSuffixOf path.toList) || 512 < Text.length path || !env.isNfc path
      || path.toList.any isPathBreak || !parts.all validatePart || 8 < parts.length then
    .error "invalid relative memory Markdown path"
  else .ok ()

/-- `(?:\.\d{1,3})?(?:Z|[+-]\d\d:\d\d)$`. -/
def isZone : List Char → Bool
  | ['Z'] => true
  | [sign, a, b, ':', c, d] => (sign = '+' || sign = '-') && [a, b, c, d].all Text.isDigit
  | _ => false

def isFractionZone : List Char → Bool
  | '.' :: rest =>
      let digits := rest.takeWhile Text.isDigit
      1 ≤ digits.length && digits.length ≤ 3 && isZone (rest.dropWhile Text.isDigit)
  | rest => isZone rest

/-- The ISO timestamps a document may expire at. -/
def isTimestamp (text : String) : Bool :=
  match text.toList with
  | y₁ :: y₂ :: y₃ :: y₄ :: '-' :: o₁ :: o₂ :: '-' :: d₁ :: d₂ :: 'T' :: h₁ :: h₂ :: ':' :: i₁ :: i₂
      :: ':' :: s₁ :: s₂ :: rest =>
      [y₁, y₂, y₃, y₄, o₁, o₂, d₁, d₂, h₁, h₂, i₁, i₂, s₁, s₂].all Text.isDigit
        && isFractionZone rest
  | _ => false

/-- `until` is a timestamp that lies ahead of the host's clock. -/
def isFuture (env : MemoryEnv) (hostNow : Int) (until_ : String) : Bool :=
  isTimestamp until_ && (env.dateParse until_).any (hostNow < ·)

/-- `/^[a-z_]{1,32}$/`, and none of the kinds that are evolved. -/
def validKind (kind : String) : Bool :=
  1 ≤ kind.toList.length && kind.toList.length ≤ 32
    && kind.toList.all (fun c => Text.isLower c || c == '_')
    && !(["experience", "skill", "strategy"].contains kind)

/-- `MEMORY_BODY_BYTES`. -/
def memoryBodyBytes : Nat := 16384

/-- The fields of a document besides its expiry. -/
def validateMemoryText (env : MemoryEnv) (content : MemoryContent) : Except String Unit := do
  validateMemoryPath env content.path
  if Text.isBlank content.title || 200 < Text.length content.title then .error "invalid memory title"
  else if Text.isBlank content.description || 500 < Text.length content.description then
    .error "invalid memory description"
  else if Text.isBlank content.body || memoryBodyBytes < content.body.utf8ByteSize
      || !content.kind.all validKind then
    .error "invalid memory content"
  else .ok ()

def validateMemoryContent (env : MemoryEnv) (hostNow : Int) (content : MemoryContent) :
    Except String Unit := do
  validateMemoryText env content
  if !content.validUntil.join.all (isFuture env hostNow) then
    .error "memory expiry must be a future ISO timestamp"
  else .ok ()

/-- One identity of the batch, added to those that came before it. -/
def claimIdentity (ids : List String) (target : Versioned) : Except String (List String) :=
  if target.id = "" || 1000 < Text.length target.id || !isSafeInteger target.expectedVersion
      || target.expectedVersion < 1 then
    .error "memory change requires identity and expectedVersion"
  else if ids.contains target.id then .error "memory batch must reference each identity once"
  else .ok (target.id :: ids)

def parseDocumentChange (env : MemoryEnv) (hostNow : Int) (ids : List String) :
    MemoryChange → Except String (List String)
  | .create content => do
      validateMemoryContent env hostNow content
      return ids
  | .update target content => do
      let ids ← claimIdentity ids target
      validateMemoryContent env hostNow content
      return ids
  | .move target path => do
      let ids ← claimIdentity ids target
      validateMemoryPath env path
      return ids
  | .expire target => claimIdentity ids target
  | .merge target content from_ => do
      let ids ← claimIdentity ids target
      validateMemoryContent env hostNow content
      if from_.length < 1 || 12 < from_.length then .error "merge requires 1-12 versioned sources"
      else from_.foldlM claimIdentity ids
  | .delete target => claimIdentity ids target

/-- The identities of a batch that passes its checks. -/
def parseDocumentChanges (env : MemoryEnv) (hostNow : Int) (changes : List MemoryChange) :
    Except String (List String) :=
  if 12 < changes.length then .error "memory requires at most 12 changes"
  else changes.foldlM (parseDocumentChange env hostNow) []

end Memories

end LingxiOS
