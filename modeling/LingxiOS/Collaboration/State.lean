-- SUMMARY: Shared collaboration state: validating and applying an update.
import LingxiOS.Base.JsMap
import LingxiOS.Collaboration.Access

/-! # Shared State

`updateSharedState` of `state.ts`. A row holds a version, an audience and the
fields, each with a version of its own; the log keeps one row per operation id.
An update arrives as any value; what passes validation is a `CheckedUpdate`. -/

namespace LingxiOS.Collaboration

open JsonText Stringify

/-! ## Updates as they arrive -/

/-- What a caller has where JSON has a number. -/
inductive Leaf where
  | number (literal : Number)
  /-- A number that is not finite, `undefined`, or an object of a class; one tag
      is one value. -/
  | other (tag : Nat)
  deriving DecidableEq

abbrev Raw := Value Leaf

namespace Raw

def undefined : Raw := .num (.other 0)

/-- `value[key]`. -/
def get (value : Raw) (key : String) : Raw :=
  match value with
  | .obj members => (members.lookup (literal key)).getD undefined
  | _ => undefined

/-- `Object.hasOwn(value, key)`. -/
def hasOwn (value : Raw) (key : String) : Bool :=
  match value with
  | .obj members => members.any fun m => m.1 == literal key
  | _ => false

/-- `Object.keys(value)`. -/
def keys : Raw → List Units
  | .obj members => members.map Prod.fst
  | _ => []

/-- Whether two members of a `Set` are one; arrays and objects never are. -/
def sameValueZero : Raw → Raw → Bool
  | .null, .null => true
  | .bool a, .bool b => a == b
  | .num a, .num b => a == b
  | .str a, .str b => a == b
  | _, _ => false

/-- Reading a property of the value throws. -/
def nullish : Raw → Bool
  | .null => true
  | .num leaf => leaf == .other 0
  | _ => false

end Raw

structure SharedStateUpdate where
  operationId : Raw
  changes : Raw
  /-- Strings are of 16-bit units. -/
  operationId_over : operationId.Over (· < 0x10000)
  changes_over : changes.Over (· < 0x10000)

/-- An edit of one field: the value it is set to, or none for a deletion. -/
structure SharedStateChange where
  field : Units
  expectedVersion : Nat
  edit : Option (Value Number)

structure CheckedUpdate where
  operationId : Units
  changes : List SharedStateChange

/-! ## Validation -/

mutual

/-- `jsonValue`, with the value it has checked. -/
def jsonValue (depth : Nat) (value : Raw) : Except Failure (Value Number) :=
  if 32 < depth then .error (.error "state values exceed 32 nesting levels")
  else
    match value with
    | .null => .ok .null
    | .bool b => .ok (.bool b)
    | .str s => .ok (.str s)
    | .num (.number n) => .ok (.num n)
    | .num (.other _) => .error (.error "state values must be finite JSON values")
    | .arr items => (jsonItems depth items).map .arr
    | .obj members => (jsonMembers depth members).map .obj

def jsonItems (depth : Nat) : List Raw → Except Failure (List (Value Number))
  | [] => .ok []
  | v :: rest => do
      let v ← jsonValue (depth + 1) v
      let rest ← jsonItems depth rest
      pure (v :: rest)

def jsonMembers (depth : Nat) : List (Units × Raw) → Except Failure (List (Units × Value Number))
  | [] => .ok []
  | (k, v) :: rest => do
      let v ← jsonValue (depth + 1) v
      let rest ← jsonMembers depth rest
      pure ((k, v) :: rest)

end

def maxSafeInteger : Nat := 9007199254740991

def Whole.toNat : Whole → Nat
  | .zero => 0
  | .positive head tail => tail.foldl (fun n d => 10 * n + d.val) (head.val + 1)

/-- `Number.isSafeInteger(value) && value >= 0`, with the integer. -/
def version? : Raw → Option Nat
  | .num (.number ⟨false, whole, none, none⟩) =>
      if Whole.toNat whole ≤ maxSafeInteger then some (Whole.toNat whole) else none
  | _ => none

/-- The name of a field that may be changed. -/
def fieldName? : Raw → Option Units
  | .str s =>
      if s.isEmpty || 256 < s.length || s == literal "__proto__" || s == literal "constructor"
        || s == literal "prototype" then none
      else some s
  | _ => none

/-- A change deletes or sets, and says nothing else. -/
def wellFormed (change : Raw) : Bool :=
  (if change.hasOwn "delete" then
      (match change.get "delete" with
        | .bool b => b
        | _ => false) && !change.hasOwn "value"
    else change.hasOwn "value" && !(change.get "value").sameValueZero Raw.undefined)
  && change.keys.all fun key => key == literal "field" || key == literal "expectedVersion"
    || key == literal "value" || key == literal "delete"

def validateChange (change : Raw) : Except Failure SharedStateChange :=
  match fieldName? (change.get "field"), version? (change.get "expectedVersion"),
      wellFormed change with
  | some field, some expectedVersion, true =>
      if change.hasOwn "delete" then .ok ⟨field, expectedVersion, none⟩
      else (jsonValue 0 (change.get "value")).map fun value => ⟨field, expectedVersion, some value⟩
  | _, _, _ => .error (.error "invalid state change")

/-- `new Set(fields).size === fields.length`. -/
def distinct : List Raw → Bool
  | [] => true
  | v :: rest => rest.all (fun w => !v.sameValueZero w) && distinct rest

def versionValue (version : Nat) : Value Number := .num (.ofInt version)

def SharedStateChange.value (change : SharedStateChange) : Value Number :=
  .obj [(literal "field", .str change.field),
    (literal "expectedVersion", versionValue change.expectedVersion),
    match change.edit with
    | none => (literal "delete", .bool true)
    | some value => (literal "value", value)]

namespace CheckedUpdate

/-- The update as JSON. -/
def value (update : CheckedUpdate) : Value Number :=
  .obj [(literal "operationId", .str update.operationId),
    (literal "changes", .arr (update.changes.map SharedStateChange.value))]

end CheckedUpdate

def operationId? : Raw → Except Failure Units
  | .str s => (identifier s).map fun _ => s
  | _ => .error (.error "invalid collaboration identifier")

/-- The changes of an update, one for each of 1 to 64 fields. -/
def changeList? (changes : Raw) : Except Failure (List Raw) :=
  let refused : Failure := .error "state update requires 1-64 distinct fields"
  match changes with
  | .arr items =>
      if items.isEmpty || 64 < items.length then .error refused
      else
        match items.find? Raw.nullish with
        | some item =>
            .error (.typeError ("Cannot read properties of "
              ++ (if Raw.sameValueZero item .null then "null" else "undefined") ++ " (reading 'field')"))
        | none => if distinct (items.map fun item => Raw.get item "field") then .ok items
            else .error refused
  | _ => .error refused

def validateStateUpdate (update : SharedStateUpdate) : Except Failure CheckedUpdate := do
  let operationId ← operationId? update.operationId
  let items ← changeList? update.changes
  let changes ← items.mapM validateChange
  let checked : CheckedUpdate := ⟨operationId, changes⟩
  -- The order of keys makes no difference to the length.
  require (byteLength (print jsStyle Number.text checked.value) ≤ 64000)
    (.error "state update exceeds 64 KB")
  pure checked

/-! ### What validation promises -/

theorem fieldName?_eq_some {value : Raw} {field : Units} (h : fieldName? value = some field) :
    value = .str field := by
  cases value with
  | str s =>
      simp only [fieldName?] at h
      split at h
      · cases h
      · exact congrArg Value.str (Option.some.inj h)
  | _ => cases h

theorem validateChange_field {change : Raw} {checked : SharedStateChange}
    (h : validateChange change = .ok checked) : change.get "field" = .str checked.field := by
  unfold validateChange at h
  split at h
  · rename_i field _ hfield _ _
    rw [fieldName?_eq_some hfield]
    split at h
    · cases h
      rfl
    · obtain ⟨value, -, rfl⟩ := Except.map_eq_ok_iff.1 h
      rfl
  · cases h

theorem distinct_iff_nodup {names : List Units} :
    distinct (names.map Value.str) = true ↔ names.Nodup := by
  induction names with
  | nil => simp [distinct]
  | cons name names ih =>
      have hall : (names.map Value.str).all (fun w => !Raw.sameValueZero (.str name) w) = true
          ↔ name ∉ names := by
        simp only [List.all_map, List.all_eq_true, Function.comp_apply, Raw.sameValueZero,
          Bool.not_eq_true', beq_eq_false_iff_ne]
        constructor
        · intro h hmem
          exact h name hmem rfl
        · rintro h other hother rfl
          exact h hother
      rw [List.map_cons, distinct, Bool.and_eq_true, hall, ih, List.nodup_cons]

theorem changeList?_eq_ok {changes : Raw} {items : List Raw} (h : changeList? changes = .ok items) :
    changes = .arr items ∧ distinct (items.map fun item => Raw.get item "field") = true := by
  unfold changeList? at h
  split at h
  · split at h
    · cases h
    · split at h
      · cases h
      · split at h
        · cases h
          exact ⟨rfl, by assumption⟩
        · cases h
  · cases h

theorem validateStateUpdate_cases {update : SharedStateUpdate} {checked : CheckedUpdate}
    (h : validateStateUpdate update = .ok checked) :
    operationId? update.operationId = .ok checked.operationId ∧
      ∃ items, changeList? update.changes = .ok items
        ∧ items.mapM validateChange = .ok checked.changes := by
  obtain ⟨operationId, hid, h⟩ := Except.bind_ok h
  obtain ⟨items, hitems, h⟩ := Except.bind_ok h
  obtain ⟨changes, hchanges, h⟩ := Except.bind_ok h
  obtain ⟨⟨⟩, -, h⟩ := Except.bind_ok h
  cases h
  exact ⟨hid, items, hitems, hchanges⟩

theorem operationId?_eq_ok {value : Raw} {id : Units} (h : operationId? value = .ok id) :
    value = .str id := by
  cases value with
  | str s =>
      obtain ⟨⟨⟩, -, rfl⟩ := Except.map_eq_ok_iff.1 h
      rfl
  | _ => cases h

/-- The changes of a checked update are of different fields. -/
theorem validateStateUpdate_nodup {update : SharedStateUpdate} {checked : CheckedUpdate}
    (h : validateStateUpdate update = .ok checked) :
    (checked.changes.map SharedStateChange.field).Nodup := by
  obtain ⟨-, items, hitems, hchanges⟩ := validateStateUpdate_cases h
  have hfields : items.map (fun item => Raw.get item "field")
      = (checked.changes.map SharedStateChange.field).map Value.str := by
    have hall := Except.forall₂_of_mapM hchanges
    generalize checked.changes = changes at hall ⊢
    clear hitems hchanges h
    induction hall with
    | nil => rfl
    | cons hchange _ ih => simp [validateChange_field hchange, ih]
  exact distinct_iff_nodup.1 (hfields ▸ (changeList?_eq_ok hitems).2)

section

variable {p : Nat → Prop}

theorem Raw.get_over {value : Raw} (h : value.Over p) (key : String) :
    (value.get key).Over p := by
  cases value with
  | obj members =>
      simp only [Raw.get]
      cases hlookup : members.lookup (literal key) with
      | none => trivial
      | some v =>
          obtain ⟨before, after, rfl, -⟩ := List.lookup_eq_some_iff.1 hlookup
          exact (overMembers_iff.1 h (literal key, v) (by simp)).2
  | _ => trivial

mutual

theorem jsonValue_over : (depth : Nat) → (value : Raw) → (v : Value Number) →
    jsonValue depth value = .ok v → value.Over p → v.Over p
  | depth, value, v, h, hover => by
      unfold jsonValue at h
      split at h
      · cases h
      · cases value with
        | null => cases h; trivial
        | bool b => cases h; trivial
        | str s => cases h; exact hover
        | num leaf =>
            cases leaf with
            | number n => cases h; trivial
            | other tag => cases h
        | arr items =>
            obtain ⟨vs, hvs, rfl⟩ := Except.map_eq_ok_iff.1 h
            exact jsonItems_over depth items vs hvs hover
        | obj members =>
            obtain ⟨ms, hms, rfl⟩ := Except.map_eq_ok_iff.1 h
            exact jsonMembers_over depth members ms hms hover

theorem jsonItems_over : (depth : Nat) → (items : List Raw) → (vs : List (Value Number)) →
    jsonItems depth items = .ok vs → Value.OverItems p items → Value.OverItems p vs
  | _, [], _, h, _ => by cases h; trivial
  | depth, item :: rest, _, h, hover => by
      obtain ⟨v, hv, h⟩ := Except.bind_ok h
      obtain ⟨vs, hvs, h⟩ := Except.bind_ok h
      cases h
      exact ⟨jsonValue_over (depth + 1) item v hv hover.1, jsonItems_over depth rest vs hvs hover.2⟩

theorem jsonMembers_over : (depth : Nat) → (members : List (Units × Raw)) →
    (ms : List (Units × Value Number)) →
    jsonMembers depth members = .ok ms → Value.OverMembers p members → Value.OverMembers p ms
  | _, [], _, h, _ => by cases h; trivial
  | depth, (k, v) :: rest, _, h, hover => by
      obtain ⟨w, hw, h⟩ := Except.bind_ok h
      obtain ⟨ms, hms, h⟩ := Except.bind_ok h
      cases h
      exact ⟨hover.1, jsonValue_over (depth + 1) v w hw hover.2.1,
        jsonMembers_over depth rest ms hms hover.2.2⟩

end

end

theorem literal_over : ∀ key ∈ ["field", "expectedVersion", "value", "delete", "operationId",
    "changes", "update", "origin", "principalId", "agentId", "workId", "graphId", "source",
    "actionKey", "messageId", "version"], ∀ u ∈ literal key, u < 0x10000 := by decide

theorem SharedStateChange.value_over {change : Raw} {checked : SharedStateChange}
    (h : validateChange change = .ok checked) (hover : change.Over (· < 0x10000)) :
    checked.value.Over (· < 0x10000) := by
  have hfield : ∀ u ∈ checked.field, u < 0x10000 := by
    have hget := Raw.get_over hover "field"
    rwa [validateChange_field h] at hget
  have hedit : ∀ v ∈ checked.edit, v.Over (· < 0x10000) := by
    unfold validateChange at h
    split at h
    · split at h
      · cases h
        simp
      · obtain ⟨value, hvalue, rfl⟩ := Except.map_eq_ok_iff.1 h
        rintro v ⟨⟩
        exact jsonValue_over 0 _ _ hvalue (Raw.get_over hover "value")
    · cases h
  obtain ⟨field, expectedVersion, edit⟩ := checked
  cases edit with
  | none =>
      exact ⟨literal_over _ (by simp), hfield, literal_over _ (by simp), trivial,
        literal_over _ (by simp), trivial, trivial⟩
  | some v =>
      exact ⟨literal_over _ (by simp), hfield, literal_over _ (by simp), trivial,
        literal_over _ (by simp), hedit v rfl, trivial⟩

/-- A checked update is written in 16-bit units, as it came. -/
theorem CheckedUpdate.value_over {update : SharedStateUpdate} {checked : CheckedUpdate}
    (h : validateStateUpdate update = .ok checked) : checked.value.Over (· < 0x10000) := by
  obtain ⟨hid, items, hitems, hchanges⟩ := validateStateUpdate_cases h
  have hidOver : (Value.str checked.operationId : Raw).Over (· < 0x10000) :=
    operationId?_eq_ok hid ▸ update.operationId_over
  have hitemsOver : Value.OverItems (· < 0x10000) items := by
    have hover := update.changes_over
    rwa [(changeList?_eq_ok hitems).1] at hover
  have hall : Value.OverItems (· < 0x10000) (checked.changes.map SharedStateChange.value) := by
    have hforall := Except.forall₂_of_mapM hchanges
    generalize checked.changes = changes at hforall ⊢
    clear hitems hchanges h hid hidOver
    induction hforall with
    | nil => trivial
    | cons hchange _ ih =>
        exact ⟨SharedStateChange.value_over hchange hitemsOver.1, ih hitemsOver.2⟩
  exact ⟨literal_over _ (by simp), hidOver, literal_over _ (by simp), hall, trivial⟩

/-! ## The stored state -/

/-- A field as stored; a deleted one keeps its version. -/
structure SharedStateField where
  version : Nat
  edit : Option (Value Number)

def SharedStateField.value (field : SharedStateField) : Value Number :=
  .obj ((literal "version", versionValue field.version) ::
    match field.edit with
    | none => [(literal "deleted", .bool true)]
    | some value => [(literal "deleted", .bool false), (literal "value", value)])

structure SharedStateSnapshot where
  version : Nat
  audience : Audience
  fields : JsMap Units SharedStateField

/-- `state.fields[field]?.version ?? 0`. -/
def SharedStateSnapshot.fieldVersion (state : SharedStateSnapshot) (field : Units) : Nat :=
  ((state.fields.get? field).map SharedStateField.version).getD 0

/-- A result is a failure with its conflicts, or a success. -/
structure SharedStateResult where
  conflicts : List Units
  state : SharedStateSnapshot
  deduplicated : Bool

def SharedStateResult.ok (result : SharedStateResult) : Bool := result.conflicts.isEmpty

/-- A row of the operations' log. -/
structure SharedOperation where
  operationId : Units
  fingerprint : Units
  origin : Value Number
  changes : List SharedStateChange
  result : SharedStateResult

/-- The state's row and its log. -/
structure StateStore where
  row : Option SharedStateSnapshot
  operations : List SharedOperation

/-- A text column: the halves of pairs are replaced. -/
def columnText : Units → Units
  | [] => []
  | [u] => [if isHigh u || isLow u then 0xFFFD else u]
  | u :: w :: rest =>
      if isHigh u && isLow w then u :: w :: columnText rest
      else (if isHigh u || isLow u then 0xFFFD else u) :: columnText (w :: rest)

def StateStore.prior (store : StateStore) (operationId : Units) : Option SharedOperation :=
  store.operations.find? fun op => op.operationId == columnText operationId

/-! ## Actors -/

structure SharedStateIdentity extends ConversationIdentity where
  stateId : Units

structure StateActor where
  principalId : JsString
  work : Option ConversationWork
  actionKey : Option JsString
  source : Option MessageReference

def MessageReference.value (source : MessageReference) : Value Number :=
  .obj [(literal "messageId", .str source.messageId.val),
    (literal "version", .num (.ofInt source.version))]

/-- Who an operation is from. -/
def StateActor.origin (actor : StateActor) : Value Number :=
  .obj ((literal "principalId", .str actor.principalId.val) ::
    match actor.work with
    | some work =>
        [(literal "agentId", .str work.agentId.val), (literal "workId", .str work.id.val),
          (literal "graphId", work.graphId.val),
          (literal "source", (work.conversation.map (·.source.value)).getD .null),
          (literal "actionKey", (actor.actionKey.map fun key => .str key.val).getD .null)]
    | none => [(literal "source", (actor.source.map MessageReference.value).getD .null)])

def authorize (tables : Tables) (scope : SharedStateIdentity) (actor : StateActor) (write : Bool)
    (audience : Option Audience) : Except Failure Unit := do
  identifier scope.stateId
  identifier actor.principalId.val
  let policy ← conversationPolicy tables scope.toConversationIdentity
  participant policy actor.principalId.val (if write then .execute else .read) (some .human)
  match audience with
  | none => pure ()
  | some audience => requireAudience policy audience [actor.principalId.val]
  match actor.work with
  | none => pure ()
  | some work =>
      match work.conversation with
      | none => throw (.error "shared state is outside this work conversation")
      | some conversation =>
          require (work.tenantId == scope.tenantId
              && conversation.conversationId == scope.conversationId
              && work.threadId == scope.threadId && work.principalId == some actor.principalId.val)
            (.error "shared state is outside this work conversation")
          authorizeConversationWork tables work (if write then .execute else .read)
          match audience with
          | none => pure ()
          | some audience =>
              require (containsAudience audience conversation.audience)
                (.error "state cannot be disclosed to the work audience")

/-! ## Updating -/

/-- The conflicts of a batch with the versions a state has. -/
def SharedStateSnapshot.conflicts (state : SharedStateSnapshot)
    (changes : List SharedStateChange) : List Units :=
  (changes.filter fun change => state.fieldVersion change.field != change.expectedVersion).map
    SharedStateChange.field

/-- Set the fields one after the other. -/
def setFields (fields : JsMap Units SharedStateField) :
    List SharedStateChange → Except Failure (JsMap Units SharedStateField)
  | [] => .ok fields
  | change :: rest => do
      require (change.expectedVersion + 1 ≤ maxSafeInteger) (.error "field version limit reached")
      setFields (fields.set change.field ⟨change.expectedVersion + 1, change.edit⟩) rest

def fieldsValue (fields : JsMap Units SharedStateField) : Value Number :=
  .obj (fields.entries.map fun entry => (entry.1, entry.2.value))

/-- What an operation that is not in the log makes of the state. -/
def SharedStateSnapshot.apply (state : SharedStateSnapshot) (changes : List SharedStateChange) :
    Except Failure SharedStateResult :=
  if (state.conflicts changes).isEmpty then do
    require (state.version + 1 ≤ maxSafeInteger) (.error "state version limit reached")
    let fields ← setFields state.fields changes
    require (fields.size ≤ 256
        && byteLength (print jsStyle Number.text (fieldsValue fields)) ≤ 256000)
      (.error "shared state exceeds 256 fields or 256 KB")
    pure ⟨[], { state with version := state.version + 1, fields }, false⟩
  else .ok ⟨state.conflicts changes, state, false⟩

/-- `{ update, origin }`. -/
def requestValue (update : CheckedUpdate) (actor : StateActor) : Value Number :=
  .obj [(literal "update", update.value), (literal "origin", actor.origin)]

/-- The checks before the log is read. -/
def admitUpdate (tables : Tables) (scope : SharedStateIdentity) (row : Option SharedStateSnapshot)
    (actor : StateActor) (update : SharedStateUpdate) :
    Except Failure (CheckedUpdate × SharedStateSnapshot) := do
  let checked ← validateStateUpdate update
  authorize tables scope actor true none
  require (actor.source.all fun source =>
      tables.hasMessage scope.toConversationIdentity source actor.principalId.val)
    (.error "state update source is outside this actor and conversation")
  match row with
  | none => throw (.error "shared state is unavailable")
  | some state =>
      authorize tables scope actor true (some state.audience)
      pure (checked, state)

/-- An update under the lock of the state's row, in the caller's transaction. -/
def updateSharedState (sha256 : Units → Units) (tables : Tables) (scope : SharedStateIdentity)
    (store : StateStore) (actor : StateActor) (update : SharedStateUpdate) :
    Except Failure (SharedStateResult × StateStore) := do
  let (update, state) ← admitUpdate tables scope store.row actor update
  let fingerprint := sha256 (canonicalJson (requestValue update actor))
  match store.prior update.operationId with
  | some prior =>
      require (prior.fingerprint == fingerprint)
        (.error "state operation identity reused with different content or actor")
      pure ({ prior.result with deduplicated := true }, store)
  | none =>
      let result ← state.apply update.changes
      pure (result, ⟨some result.state, store.operations
        ++ [⟨columnText update.operationId, fingerprint, actor.origin, update.changes, result⟩]⟩)

end LingxiOS.Collaboration
