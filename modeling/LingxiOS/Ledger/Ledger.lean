-- SUMMARY: The in-memory action ledger: intents, receipts and their resolutions.
import LingxiOS.Base.JsMap
import LingxiOS.Protocol.Actions

/-! # The Action Ledger

A translation of `MemoryActionLedger`. An action is reserved under its key
before it runs, its receipt is recorded afterwards, and reconciliation appends
resolutions; the last resolution, else the receipt, is the effective result. -/

namespace LingxiOS

structure ActionResolution where
  id : String
  actionKey : String
  result : HostActionResult
  evidence : JsonObject
  resolvedBy : String

def ActionResolution.toJson (resolution : ActionResolution) : Json :=
  .obj [("id", .str resolution.id), ("actionKey", .str resolution.actionKey),
    ("result", resolution.result.toJson), ("evidence", .obj resolution.evidence),
    ("resolvedBy", .str resolution.resolvedBy)]

structure ActionLedger where
  results : JsMap String HostActionResult
  intents : JsMap String String
  intentDetails : JsMap String ActionIntent
  resolutions : JsMap String (List ActionResolution)
  resolutionIds : JsMap String ActionResolution

namespace ActionLedger

def init : ActionLedger := ⟨.empty, .empty, .empty, .empty, .empty⟩

/-- The last resolution of a key, else its recorded receipt. -/
def effectiveResult (l : ActionLedger) (key : String) : Option HostActionResult :=
  (((l.resolutions.get? key).bind List.getLast?).map ActionResolution.result).or
    (l.results.get? key)

def find (l : ActionLedger) (key : String) : Option HostActionResult := l.effectiveResult key

def findIntent (l : ActionLedger) (key : String) : Option ActionIntent := l.intentDetails.get? key

/-! ## Writing -/

inductive Reservation where
  | started | existing
  deriving DecidableEq

/-- Persist an intent before execution; a reused key must carry the same fingerprint. -/
def reserve (l : ActionLedger) (key fingerprint : String) (intent : ActionIntent) :
    Except String Reservation × ActionLedger :=
  if intent.action.idempotencyKey ≠ key then
    (.error "action intent is required and must match its key", l)
  else match l.intents.get? key with
    | some existing =>
        if existing ≠ fingerprint then
          (.error "action identity reused with different parameters or authorization", l)
        else (.ok .existing, l)
    | none =>
        (.ok .started, { l with
          intents := l.intents.set key fingerprint
          intentDetails := l.intentDetails.set key intent })

/-- Record a receipt. A receipt that waits for no approval is never replaced. -/
def record (l : ActionLedger) (key : String) (result : HostActionResult) :
    Except String HostActionResult × ActionLedger :=
  if !l.intents.has key then (.error "action intent is required before recording a receipt", l)
  else match l.results.get? key with
    | some existing =>
        if existing.approval.isNone then (.ok existing, l)
        else (.ok result, { l with results := l.results.set key result })
    | none => (.ok result, { l with results := l.results.set key result })

inductive Recorded where
  | recorded | existing
  deriving DecidableEq

/-- Append a resolution. It overrides whatever was recorded for the key before. -/
def recordResolution (l : ActionLedger) (resolution : ActionResolution) :
    Except String Recorded × ActionLedger :=
  if !l.intents.has resolution.actionKey then
    (.error "action intent is required before reconciliation", l)
  else match l.resolutionIds.get? resolution.id with
    | some prior =>
        if Json.deepEqual prior.toJson resolution.toJson then (.ok .existing, l)
        else (.error "resolution identity reused with different evidence", l)
    | none =>
        (.ok .recorded, { l with
          resolutionIds := l.resolutionIds.set resolution.id resolution
          resolutions := l.resolutions.set resolution.actionKey
            ((l.resolutions.get? resolution.actionKey).getD [] ++ [resolution]) })

/-! ## What a write leaves alone -/

@[simp] theorem effectiveResult_reserve (l : ActionLedger) (k fingerprint key : String)
    (intent : ActionIntent) :
    (l.reserve k fingerprint intent).2.effectiveResult key = l.effectiveResult key := by
  unfold reserve
  split
  · rfl
  · split
    · split
      · rfl
      · rfl
    · rfl

/-- A reservation succeeds as a first one only under a key that had no intent. -/
theorem reserve_started {l : ActionLedger} {k fingerprint : String} {intent : ActionIntent}
    (h : (l.reserve k fingerprint intent).1 = .ok .started) :
    l.intents.has k = false ∧ (l.reserve k fingerprint intent).2.intents.has k = true := by
  unfold reserve at h ⊢
  split at h
  · cases h
  · rename_i hkey
    split at h
    · split at h
      · cases h
      · cases h
    · rename_i hnone
      rw [if_neg hkey]
      simp [hnone, JsMap.has]

theorem has_intents_reserve {l : ActionLedger} {k fingerprint key : String} {intent : ActionIntent}
    (h : l.intents.has key = true) : (l.reserve k fingerprint intent).2.intents.has key = true := by
  unfold reserve
  split
  · exact h
  · split
    · split
      · exact h
      · exact h
    · simp only [JsMap.has, JsMap.get?_set] at h ⊢
      split
      · rfl
      · exact h

@[simp] theorem intents_record (l : ActionLedger) (k : String) (result : HostActionResult) :
    (l.record k result).2.intents = l.intents := by
  unfold record
  split
  · rfl
  · split
    · split
      · rfl
      · rfl
    · rfl

/-- Only a key without resolutions can lose its effective result to a new receipt. -/
theorem effectiveResult_set_results {l : ActionLedger} {k key : String}
    {result R : HostActionResult} (h : l.effectiveResult key = some R)
    (hkept : l.results.get? k ≠ some R) :
    ({ l with results := l.results.set k result } : ActionLedger).effectiveResult key = some R := by
  unfold effectiveResult at h ⊢
  cases hlast : ((l.resolutions.get? key).bind List.getLast?).map ActionResolution.result with
  | some resolved =>
      rw [hlast] at h
      simpa using h
  | none =>
      rw [hlast, Option.none_or] at h
      rw [Option.none_or, JsMap.get?_set]
      split
      · rename_i hkey
        rw [hkey] at h
        exact absurd h hkept
      · exact h

/-- A receipt that waits for no approval stays the effective one. -/
theorem effectiveResult_record {l : ActionLedger} {k key : String} {result R : HostActionResult}
    (h : l.effectiveResult key = some R) (hR : R.approval = none) :
    (l.record k result).2.effectiveResult key = some R := by
  unfold record
  split
  · exact h
  · split
    · rename_i existing hexisting
      split
      · exact h
      · rename_i hwaits
        apply effectiveResult_set_results h
        intro hsame
        rw [hexisting] at hsame
        cases hsame
        simp [hR] at hwaits
    · rename_i hnone
      apply effectiveResult_set_results h
      simp [hnone]

@[simp] theorem intents_recordResolution (l : ActionLedger) (resolution : ActionResolution) :
    (l.recordResolution resolution).2.intents = l.intents := by
  unfold recordResolution
  split
  · rfl
  · split
    · split
      · rfl
      · rfl
    · rfl

/-- A resolution overrides the effective result of its own key, and of no other. -/
theorem effectiveResult_recordResolution (l : ActionLedger) (resolution : ActionResolution)
    (key : String) :
    (l.recordResolution resolution).2.effectiveResult key = l.effectiveResult key
      ∨ (resolution.actionKey = key
        ∧ (l.recordResolution resolution).2.effectiveResult key = some resolution.result) := by
  unfold recordResolution
  split
  · exact .inl rfl
  · split
    · split
      · exact .inl rfl
      · exact .inl rfl
    · by_cases hkey : resolution.actionKey = key
      · right
        refine ⟨hkey, ?_⟩
        simp [effectiveResult, hkey]
      · left
        simp [effectiveResult, JsMap.get?_set_of_ne _ (Ne.symm hkey)]

/-! ## Reading -/

/-- A recorded action of a cell, with its effective result if there is one. -/
structure CellRecord where
  intent : ActionIntent
  result : Option HostActionResult

/-- The actions of one cell under one version of the request, in call order. -/
def listCell (l : ActionLedger) (workId cellId : String) (requestVersion : Option Nat) :
    List CellRecord :=
  let found := l.intentDetails.entries.filter (fun entry =>
    entry.2.workId == workId && entry.2.action.cellId == cellId
      && entry.2.requestVersion == requestVersion)
  let ordered := found.insertionSort (fun a b => a.2.action.callIndex ≤ b.2.action.callIndex)
  ordered.map (fun entry => ⟨entry.2, l.effectiveResult entry.1⟩)

/-- The artifacts of every successful action of a work. -/
def artifacts (l : ActionLedger) (workId : String) : List KernelArtifact :=
  (l.intentDetails.entries.filter (fun entry => entry.2.workId == workId)).flatMap (fun entry =>
    match l.effectiveResult entry.1 with
    | some result => if result.ok then result.artifacts else []
    | none => [])

/-- What a parked work waits for. -/
inductive Wait where
  | approvalId (id : String)
  | question (text : String)
  deriving DecidableEq

/-- `directive.data?.['question']`. -/
def question (directive : HostDirective) : Option Json := JsonObject.get? directive.data "question"

/-- Whether an action's effective result is what a work waits on. -/
def waitsOn (wait : Wait) (action : String) (result : HostActionResult) : Bool :=
  match wait with
  | .approvalId id => result.approval == some id
  | .question text =>
      action == "task.ask" && result.ok && result.directive.any fun directive =>
        directive.type == .defer && directive.reason == some "user"
          && question directive == some (.str text)

def hasWait (l : ActionLedger) (workId : String) (requestVersion : Nat) (wait : Wait) : Bool :=
  l.intentDetails.entries.any fun entry =>
    entry.2.workId == workId && entry.2.requestVersion == some requestVersion
      && (l.effectiveResult entry.1).any fun result =>
        !result.isUnknown && waitsOn wait entry.2.action.action result

/-- Whether one of some actions succeeded for a version of the request. -/
def hasSuccessfulAction (l : ActionLedger) (workId : String) (requestVersion : Nat)
    (actions : List String) : Bool :=
  !actions.isEmpty && l.intentDetails.entries.any fun entry =>
    entry.2.workId == workId && entry.2.requestVersion == some requestVersion
      && actions.contains entry.2.action.action
      && (l.effectiveResult entry.1).any fun result =>
        result.ok && !result.isUnknown && result.approval.isNone

inductive PendingState where
  | unknown | awaitingApproval
  deriving DecidableEq

structure PendingAction where
  actionKey : String
  action : String
  state : PendingState
  deriving DecidableEq

/-- What keeps a recorded action from being settled. -/
def pendingState : Option HostActionResult → Option PendingState
  | none => some .unknown
  | some result =>
      if result.approval.isSome then some .awaitingApproval
      else if result.isUnknown then some .unknown
      else none

/-- At most 65 unresolved business actions of a work. -/
def unsettled (l : ActionLedger) (workId : String) : List PendingAction :=
  (l.intentDetails.entries.filterMap (fun entry =>
    if entry.2.workId != workId || Text.hasPrefix "task." entry.2.action.action then none
    else (pendingState (l.effectiveResult entry.1)).map
      (fun state => ⟨entry.1, entry.2.action.action, state⟩))).take 65

/-- The pending actions of a work, before the limit. -/
def pending (l : ActionLedger) (workId : String) : List PendingAction :=
  l.intentDetails.entries.filterMap fun entry =>
    if entry.2.workId != workId || Text.hasPrefix "task." entry.2.action.action then none
    else (pendingState (l.effectiveResult entry.1)).map
      fun state => ⟨entry.1, entry.2.action.action, state⟩

theorem unsettled_eq (l : ActionLedger) (workId : String) :
    l.unsettled workId = (l.pending workId).take 65 := rfl

end ActionLedger

end LingxiOS
