-- SUMMARY: Attachments, obligations, contracts and checks of a request.
import LingxiOS.Protocol.Actions

/-! # Request Facts

The parts of a request snapshot besides its evidence, each with the checks it
passes when it is captured and again when it is saved. -/

namespace LingxiOS

/-! ## Attachments -/

/-- `Number.MAX_SAFE_INTEGER`. -/
def maxSafeInteger : Int := 9007199254740991

def isSafeInteger (n : Int) : Bool := -maxSafeInteger ≤ n && n ≤ maxSafeInteger

def validAttachment (item : RequestAttachment) : Bool :=
  [item.id, item.sourceVersion, item.name, item.mimeType].all
      (fun value => !Text.isBlank value && Text.length value ≤ 2000)
    && isSafeInteger item.size && 0 ≤ item.size
    && !item.text.any (fun text => 1000000 < Text.length text)
    && !(item.contentStatus.isSome && item.text.isSome)

def checkAttachments (seen : List String) : List RequestAttachment → Except String Unit
  | [] => .ok ()
  | item :: rest =>
      if !validAttachment item then .error "invalid request attachment"
      else if seen.contains item.id then .error "duplicate request attachment identity"
      else checkAttachments (item.id :: seen) rest

def snapshotAttachments (items : List RequestAttachment) : Except String (List RequestAttachment) :=
  if 20 < items.length then .error "request attachments must be an array of at most 20 items"
  else match checkAttachments [] items with
    | .error error => .error error
    | .ok () => .ok items

theorem snapshotAttachments_eq_ok {items snapshot : List RequestAttachment}
    (h : snapshotAttachments items = .ok snapshot) : snapshot = items ∧ items.length ≤ 20 := by
  unfold snapshotAttachments at h
  split at h
  · cases h
  · rename_i hlength
    split at h
    · cases h
    · exact ⟨(Except.ok.inj h).symm, Nat.le_of_not_lt hlength⟩

/-! ## Delivery obligations -/

inductive ObligationKind where
  | externalDelivery (action : String) (args : JsonObject) (expected : Option Json)
  | artifact (path : String)
  | answerContent (checker : String)
  | resourcePostcondition (checker : String)
  | delegation (taskId : String)

structure DeliveryObligation where
  id : String
  description : Option String := none
  kind : ObligationKind

namespace DeliveryObligation

/-- The obligation as the JSON object it is stored as. -/
def toJson (item : DeliveryObligation) : Json :=
  let fields : JsonObject := match item.kind with
    | .externalDelivery action args expected =>
        [("kind", .str "external-delivery"), ("action", .str action), ("args", .obj args)]
          ++ (expected.map (fun value => ("expected", value))).toList
    | .artifact path => [("kind", .str "artifact"), ("path", .str path)]
    | .answerContent checker => [("kind", .str "answer-content"), ("checker", .str checker)]
    | .resourcePostcondition checker =>
        [("kind", .str "resource-postcondition"), ("checker", .str checker)]
    | .delegation taskId => [("kind", .str "delegation"), ("taskId", .str taskId)]
  .obj ([("id", Json.str item.id)]
    ++ (item.description.map (fun text => ("description", Json.str text))).toList ++ fields)

end DeliveryObligation

/-- `/^[A-Za-z0-9._-]{1,128}$/`. -/
def isObligationId (id : String) : Bool :=
  let chars := id.toList
  1 ≤ chars.length && chars.length ≤ 128
    && chars.all (fun c => Text.isAlphanumeric c || c == '.' || c == '_' || c == '-')

/-- `/^[a-z][a-z0-9_]*$/`. -/
def isActionWord (word : List Char) : Bool :=
  match word with
  | [] => false
  | c :: rest => Text.isLower c && rest.all (fun c => Text.isLower c || Text.isDigit c || c == '_')

/-- `/^[a-z][a-z0-9_]*\.[a-z][a-z0-9_]*$/`. -/
def isActionName (action : String) : Bool :=
  let chars := action.toList
  isActionWord (chars.takeWhile (· != '.')) && isActionWord ((chars.dropWhile (· != '.')).drop 1)

/-- `/^product:[A-Za-z0-9._:-]{1,128}$/`. -/
def isProductChecker (checker : String) : Bool :=
  let chars := checker.toList.drop 8
  Text.hasPrefix "product:" checker && 1 ≤ chars.length && chars.length ≤ 128
    && chars.all (fun c => Text.isAlphanumeric c || c == '.' || c == '_' || c == ':' || c == '-')

def checkObligation (item : DeliveryObligation) : Except String Unit :=
  match item.kind with
  | .externalDelivery action _ _ =>
      if !isActionName action || Text.hasPrefix "task." action then
        .error "invalid action obligation" else .ok ()
  | .artifact path =>
      if path.isEmpty || 4096 < Text.length path then .error "invalid artifact obligation"
      else .ok ()
  | .answerContent checker | .resourcePostcondition checker =>
      if !isProductChecker checker then .error "obligation requires a native product checker"
      else .ok ()
  | .delegation taskId =>
      if taskId.isEmpty || 1000 < Text.length taskId then .error "invalid delegation obligation"
      else .ok ()

def checkObligations (seen : List String) : List DeliveryObligation → Except String Unit
  | [] => .ok ()
  | item :: rest =>
      if !isObligationId item.id || seen.contains item.id
          || item.description.any (fun text => 2000 < Text.length text) then
        .error "invalid delivery obligation"
      else match checkObligation item with
        | .error error => .error error
        | .ok () => checkObligations (item.id :: seen) rest

def snapshotObligations (items : List DeliveryObligation) :
    Except String (List DeliveryObligation) :=
  if 32 < items.length
      || 64000 < (Json.arr (items.map DeliveryObligation.toJson)).stringify.utf8ByteSize then
    .error "invalid delivery obligations"
  else match checkObligations [] items with
    | .error error => .error error
    | .ok () => .ok items

theorem snapshotObligations_eq_ok {items snapshot : List DeliveryObligation}
    (h : snapshotObligations items = .ok snapshot) : snapshot = items := by
  unfold snapshotObligations at h
  split at h
  · cases h
  · split at h
    · cases h
    · exact (Except.ok.inj h).symm

/-! ## Task contracts -/

structure TaskContract where
  version : Nat
  requestVersion : Nat
  originalInputSha256 : String
  deliverables : List String
  constraints : List String
  actions : List String
  acceptance : List String
  deriving DecidableEq

/-- The strings of a draft field: at most 64, none blank, none longer than 2000. -/
def contractField (draft : JsonObject) (field : String) : Except String (List String) :=
  let invalid := "invalid task contract " ++ field
  match draft.lookup field with
  | some (.arr values) =>
      let strings := values.filterMap (fun value => match value with
        | .str text => some text
        | _ => none)
      if 64 < values.length || strings.length ≠ values.length
          || strings.any (fun text => Text.isBlank text || 2000 < Text.length text) then
        .error invalid
      else .ok strings
  | _ => .error invalid

def contractFields : List String := ["deliverables", "constraints", "actions", "acceptance"]

/-- Model-authored interpretation, never a replacement for the original input. -/
def createTaskContract (sha256 : String → String) (originalInput : String)
    (requestVersion : Nat) (draft : JsonObject) : Except String TaskContract := do
  if requestVersion < 1 || !isSafeInteger requestVersion then
    throw "invalid contract request version"
  if draft.any (fun entry => !contractFields.contains entry.1) then
    throw "unknown task contract field"
  let deliverables ← contractField draft "deliverables"
  let constraints ← contractField draft "constraints"
  let actions ← contractField draft "actions"
  let acceptance ← contractField draft "acceptance"
  if deliverables.isEmpty || acceptance.isEmpty then
    throw "task contract requires deliverables and acceptance conditions"
  return ⟨1, requestVersion, sha256 originalInput, deliverables, constraints, actions, acceptance⟩

/-- The four fields of a recorded draft; a missing one is `undefined`. -/
def contractDraft (data : Option JsonObject) : JsonObject :=
  contractFields.filterMap (fun field => (JsonObject.get? data field).map (fun v => (field, v)))

/-- The fields of a contract, as the draft that proposes it again. -/
def TaskContract.draft (contract : TaskContract) : JsonObject :=
  [("deliverables", .arr (contract.deliverables.map .str)),
    ("constraints", .arr (contract.constraints.map .str)),
    ("actions", .arr (contract.actions.map .str)),
    ("acceptance", .arr (contract.acceptance.map .str))]

/-! ## Resource checks -/

structure ResourceCheckRecord where
  actionKey : String
  result : HostActionResult

/-- A check applies to a result that reports an observation. -/
def observation (result : HostActionResult) : Option Json :=
  if !result.ok || result.isUnknown || result.directive.isSome then none
  else result.value.filter Json.isObject

/-- The observation is about resource fields, for this version of the request. -/
def validObservation (requestVersion : Nat) (value : Json) : Bool :=
  (match value.field "scope", value.field "requestVersion" with
    | some (.str "observed_resource_fields"), some (.num n) => n == (requestVersion : Int)
    | _, _ => false)
  && ["pass", "fail", "not_observed"].contains (jsString (value.field "status"))

/-- Immutable observations; a replay never replaces an earlier read with a fresh one. -/
def appendResourceCheck (records : List ResourceCheckRecord) (actionKey : String)
    (result : HostActionResult) (requestVersion : Nat) :
    Except String (List ResourceCheckRecord) :=
  match observation result with
  | none => .ok records
  | some value =>
      if !validObservation requestVersion value then .error "invalid resource observation"
      else if records.any (fun record => record.actionKey == actionKey) then .ok records
      else if 64 ≤ records.length then .error "resource observation limit reached"
      else .ok (records ++ [⟨actionKey, result⟩])

/-- An observation is appended to the earlier ones or leaves them as they are. -/
theorem appendResourceCheck_grows {records records' : List ResourceCheckRecord} {actionKey : String}
    {result : HostActionResult} {requestVersion : Nat}
    (h : appendResourceCheck records actionKey result requestVersion = .ok records') :
    records' = records ∨ records.length < records'.length := by
  unfold appendResourceCheck at h
  split at h
  · exact .inl (Except.ok.inj h).symm
  · split at h
    · cases h
    · split at h
      · exact .inl (Except.ok.inj h).symm
      · split at h
        · cases h
        · right
          rw [← Except.ok.inj h, List.length_append]
          exact Nat.lt_succ_self _

end LingxiOS
