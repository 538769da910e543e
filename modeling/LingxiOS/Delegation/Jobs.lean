-- SUMMARY: The rows of agent_work_items as the application inserts and cancels them.
import LingxiOS.WorkStore.PgClaim

/-! # Jobs

`enqueueWork`, `cancelRun` and `cancelDescendants` over the stored works. The rows are
those the claim query reads, with the columns it does not. -/

namespace LingxiOS

namespace Jobs

/-- A row of `agent_work_items`. The columns `meta` and `conversation` hold their keys in
    order. -/
structure JobRow extends PgWorkRow where
  conversation : Option Json
  resultId : Option String
  finishedAt : Option Int

/-- What a caller inserts. -/
structure EnqueueWorkInput where
  id : String
  tenantId : String
  agentId : String
  sessionId : String
  threadId : Option String
  kind : String
  lane : WorkLane
  triggerRef : String
  principalId : Option String
  priority : Int := 0
  availableAt : Option Int := none
  meta_ : Option Json
  conversation : Option Json

/-- The row that is inserted, the other columns at their defaults. -/
def EnqueueWorkInput.row (input : EnqueueWorkInput) (now : Int) : JobRow where
  id := input.id
  fence := 0
  tenantId := input.tenantId
  agentId := input.agentId
  sessionId := input.sessionId
  threadId := input.threadId
  kind := input.kind
  lane := input.lane
  triggerRef := input.triggerRef
  principalId := input.principalId
  priority := input.priority
  status := .queued
  createdAt := now
  availableAt := input.availableAt.getD now
  attempts := 0
  preemptions := 0
  leaseTokenHash := none
  leasedBy := none
  leaseExpiresAt := none
  cancelRequestedAt := none
  preemptRequestedAt := none
  steerInputs := []
  goalOutcome := none
  error := none
  meta_ := input.meta_.map Json.sortKeys
  conversation := input.conversation.map Json.sortKeys
  resultId := none
  finishedAt := none

/-! ## Insertion -/

/-- The columns a repeated insertion must agree on. -/
def sameRequest (a b : JobRow) : Bool :=
  a.tenantId = b.tenantId ∧ a.agentId = b.agentId ∧ a.sessionId = b.sessionId
    ∧ a.threadId = b.threadId ∧ a.kind = b.kind ∧ a.lane = b.lane ∧ a.triggerRef = b.triggerRef
    ∧ a.principalId = b.principalId ∧ a.priority = b.priority ∧ a.meta_ = b.meta_
    ∧ a.conversation = b.conversation

/-- `enqueueWork`: an id that is taken must be taken by the same request. -/
def enqueueWork (now : Int) (works : JsMap String JobRow) (input : EnqueueWorkInput) :
    Except String (JsMap String JobRow) :=
  if Text.isBlank input.tenantId || Text.isBlank input.agentId || Text.isBlank input.sessionId
      || Text.isBlank input.kind || Text.isBlank input.triggerRef then
    .error "enqueue requires a non-empty field"
  else match works.get? input.id with
    | none => .ok (works.set input.id (input.row now))
    | some existing =>
        if sameRequest existing (input.row now) then .ok works
        else .error "work identity reused with a different request or principal"

/-- An insertion stores the row, or finds it stored, and keeps the others. -/
theorem enqueueWork_ok {now : Int} {works works' : JsMap String JobRow} {input : EnqueueWorkInput}
    (h : enqueueWork now works input = .ok works') :
    (∃ stored, works'.get? input.id = some stored ∧ sameRequest stored (input.row now) = true)
      ∧ (∀ id kept, works.get? id = some kept → works'.get? id = some kept)
      ∧ ∀ id found, works'.get? id = some found →
        works.get? id = some found ∨ id = input.id ∧ found = input.row now := by
  unfold enqueueWork at h
  split at h
  · cases h
  · cases hold : works.get? input.id with
    | none =>
        rw [hold] at h
        cases h
        refine ⟨⟨input.row now, JsMap.get?_set_self .., by simp [sameRequest]⟩, ?_, ?_⟩
        · intro id kept hkept
          have hne : id ≠ input.id := by
            rintro rfl
            simp [hold] at hkept
          rwa [JsMap.get?_set_of_ne _ hne]
        · intro id found hfound
          rw [JsMap.get?_set] at hfound
          split at hfound
          · rename_i hid
            exact .inr ⟨hid, (Option.some.inj hfound).symm⟩
          · exact .inl hfound
    | some existing =>
        rw [hold] at h
        simp only at h
        split at h
        · rename_i hsame
          cases h
          exact ⟨⟨existing, hold, hsame⟩, fun _ _ h => h, fun _ _ h => .inl h⟩
        · cases h

/-! ## Cancellation -/

/-- Mark a work that is still open; one that is not leased ends there. -/
def cancelled (now : Int) (gap : String) (work : JobRow) : JobRow :=
  { work with
    cancelRequestedAt := work.cancelRequestedAt.or (some now)
    status := if work.status = .leased then work.status else .cancelled
    goalOutcome :=
      if work.status = .leased then work.goalOutcome
      else some ⟨.blocked, .notRun, work.steerInputs.length + 1, some [gap], none⟩
    finishedAt := if work.status = .leased then work.finishedAt else some now }

/-- The works whose parent a work is, under its tenant and principal. -/
def childrenOf (works : JsMap String JobRow) (parent : JobRow) : List JobRow :=
  works.values.filter fun child =>
    Jsonb.getText child.meta_ "parentWorkId" = some parent.id ∧ child.tenantId = parent.tenantId
      ∧ child.principalId = parent.principalId

/-- The works below the end of a path, as deep as the path may still grow. -/
def below (works : JsMap String JobRow) : Nat → List String → JobRow → List JobRow
  | 0, _, _ => []
  | depth + 1, path, work =>
      ((childrenOf works work).filter fun child => child.id ∉ path).flatMap fun child =>
        child :: below works depth (child.id :: path) child

/-- `WITH RECURSIVE descendants`, along paths of at most 64 works. -/
def descendants (works : JsMap String JobRow) (parentId : String) : List JobRow :=
  match works.get? parentId with
  | some parent => (childrenOf works parent).flatMap fun child =>
      child :: below works 62 [child.id, parent.id] child
  | none => []

def cancelDescendants (now : Int) (works : JsMap String JobRow) (parentId : String) :
    JsMap String JobRow :=
  let ids := (descendants works parentId).map (·.id)
  works.mapValues fun id work =>
    if id ∈ ids ∧ work.status.isOpen then
      cancelled now "Parent request terminated or revised" work
    else work

/-- `scopeSql`. -/
structure StoredRunIdentity where
  runId : String
  tenantId : String
  agentId : String
  sessionId : String
  principalId : Option String
  threadId : Option String
  deriving DecidableEq

def JobRow.identity (work : JobRow) : StoredRunIdentity :=
  ⟨work.id, work.tenantId, work.agentId, work.sessionId, work.principalId, work.threadId⟩

/-- `cancelRun`, and whether there was a run to cancel. -/
def cancelRun (now : Int) (works : JsMap String JobRow) (identity : StoredRunIdentity) :
    JsMap String JobRow × Bool :=
  match works.get? identity.runId with
  | some work =>
      if work.identity = identity ∧ work.status.isOpen then
        (cancelDescendants now (works.set identity.runId (cancelled now "Cancelled by user" work))
          identity.runId, true)
      else (works, false)
  | none => (works, false)

/-! ## What stays -/

/-- Every row stays, and a cancelled one stays cancelled. -/
def Kept (works works' : JsMap String JobRow) : Prop :=
  ∀ id row, works.get? id = some row → ∃ row', works'.get? id = some row'
    ∧ (row.cancelRequestedAt.isSome → row'.cancelRequestedAt.isSome)

theorem Kept.refl (works : JsMap String JobRow) : Kept works works :=
  fun _ row hrow => ⟨row, hrow, fun h => h⟩

theorem Kept.trans {works works' works'' : JsMap String JobRow} (h : Kept works works')
    (h' : Kept works' works'') : Kept works works'' := by
  intro id row hrow
  obtain ⟨row', hrow', hcancelled⟩ := h id row hrow
  obtain ⟨row'', hrow'', hcancelled'⟩ := h' id row' hrow'
  exact ⟨row'', hrow'', fun h => hcancelled' (hcancelled h)⟩

theorem kept_modify {works : JsMap String JobRow} {id : String} {f : JobRow → JobRow}
    (hf : ∀ row, row.cancelRequestedAt.isSome → (f row).cancelRequestedAt.isSome) :
    Kept works (works.modify id f) := by
  intro other row hrow
  by_cases hid : other = id
  · subst hid
    exact ⟨f row, by simp [hrow], hf row⟩
  · exact ⟨row, by rw [JsMap.get?_modify_of_ne f hid, hrow], fun h => h⟩

theorem kept_enqueueWork {now : Int} {works works' : JsMap String JobRow} {input : EnqueueWorkInput}
    (h : enqueueWork now works input = .ok works') : Kept works works' :=
  fun id row hrow => ⟨row, (enqueueWork_ok h).2.1 id row hrow, fun h => h⟩

theorem cancelled_isSome (now : Int) (gap : String) (work : JobRow) :
    (cancelled now gap work).cancelRequestedAt.isSome = true := by
  simp [cancelled]

theorem kept_cancelDescendants (now : Int) (works : JsMap String JobRow) (parentId : String) :
    Kept works (cancelDescendants now works parentId) := by
  intro id row hrow
  refine ⟨_, by rw [cancelDescendants, JsMap.get?_mapValues, hrow, Option.map_some], ?_⟩
  intro h
  split
  · exact cancelled_isSome ..
  · exact h

theorem kept_cancelRun (now : Int) (works : JsMap String JobRow) (identity : StoredRunIdentity) :
    Kept works (cancelRun now works identity).1 := by
  unfold cancelRun
  split
  · rename_i work hwork
    split
    · have hmarked : Kept works
          (works.set identity.runId (cancelled now "Cancelled by user" work)) := by
        intro id row hrow
        rw [JsMap.get?_set]
        split
        · exact ⟨_, rfl, fun _ => cancelled_isSome ..⟩
        · exact ⟨row, hrow, fun h => h⟩
      exact hmarked.trans (kept_cancelDescendants _ _ _)
    · exact Kept.refl works
  · exact Kept.refl works

end Jobs

end LingxiOS
