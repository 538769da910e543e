-- SUMMARY: The worker's evidence, recomputed by saveSession.
import LingxiOS.Context.EvidenceGrowth
import LingxiOS.Request.Save
import LingxiOS.Runtime.Receipts

/-! # Recomputing the Evidence

The worker folds every receipt into the evidence of the request, whatever tool it is
from. `saveSession` replays the new items one by one from the ledger, and takes
nothing but reads. -/

namespace LingxiOS

/-- The ledger holds the receipt as one of this version of the request. -/
structure SaveEnv.Records (env : SaveEnv) (work : TurnWork) (requestVersion : Nat)
    (receipt : Receipt) : Prop where
  intent : ∃ intent, env.findIntent receipt.idempotencyKey = some intent
    ∧ currentIntent work requestVersion intent = true ∧ intent.action.action = receipt.action
  result : env.find receipt.idempotencyKey = some receipt.result

/-- Every receipt is one of a read, or brings no source the evidence lacks when it is
    folded in. -/
def ReadsOnly (env : SaveEnv) : EvidenceSnapshot → List Receipt → Prop
  | _, [] => True
  | evidence, receipt :: rest =>
      (readsEvidence env receipt.action = true
        ∨ bringsNothing evidence.items receipt.result = true)
      ∧ ∀ evidence', evidenceStep env.sha256 evidence receipt = .ok evidence' →
          ReadsOnly env evidence' rest

variable {env : SaveEnv} {work : TurnWork} {requestVersion : Nat}
  {evidence evidence' : EvidenceSnapshot} {added rest : List EvidenceItem} {item : EvidenceItem}
  {receipt : Receipt} {receipts : List Receipt}

/-! ## Accepted snapshots -/

theorem checkEvidenceItems_mem {checked items : List EvidenceItem}
    (h : checkEvidenceItems checked items = .ok ()) (hmem : item ∈ items) :
    checkEvidenceItem item = .ok () := by
  induction items generalizing checked with
  | nil => cases hmem
  | cons head tail ih =>
      unfold checkEvidenceItems at h
      split at h
      · cases h
      · rename_i hhead
        split at h
        · cases h
        · split at h
          · cases h
          · rcases List.mem_cons.mp hmem with rfl | hmem
            · exact hhead
            · exact ih h hmem

/-- An accepted item does not name the empty key. -/
theorem actionKey_ne_of_accepted {id key : String} {items : List EvidenceItem}
    {snapshot : EvidenceSnapshot} (h : snapshotEvidence id items = .ok snapshot)
    (hmem : item ∈ items) (hkey : item.actionKey = some key) : key ≠ "" := by
  unfold snapshotEvidence at h
  split at h
  · cases h
  · split at h
    · cases h
    · rename_i hitems
      have hitem := checkEvidenceItems_mem hitems hmem
      unfold checkEvidenceItem at hitem
      simp only [Except.guard_eq_ok_iff] at hitem
      rintro rfl
      have hblank : Text.isBlank "" = true := by rfl
      exact hitem.2.1 (by simp [hkey, hblank])

theorem appendSources_accepted {sha256 : String → String} {actionKey : String}
    {result : HostActionResult}
    (h : appendSources sha256 evidence actionKey result = .ok evidence') :
    evidence' = evidence ∨ snapshotEvidence evidence'.id evidence'.items = .ok evidence' := by
  unfold appendSources at h
  split at h
  · exact .inl (Except.ok.inj h).symm
  · split at h
    · cases h
    · dsimp only at h
      split at h
      · exact .inl (Except.ok.inj h).symm
      · exact .inr (snapshotEvidence_idem h)

theorem appendResearchEvidence_accepted {sha256 : String → String} {actionKey : String}
    {result : HostActionResult}
    (h : appendResearchEvidence sha256 evidence actionKey result = .ok evidence') :
    evidence' = evidence ∨ snapshotEvidence evidence'.id evidence'.items = .ok evidence' := by
  unfold appendResearchEvidence at h
  split at h
  · exact .inl (Except.ok.inj h).symm
  · dsimp only at h
    split at h
    · exact .inl (Except.ok.inj h).symm
    · exact .inr (snapshotEvidence_idem h)

/-- A step that changes the evidence makes a snapshot that is accepted as one. -/
theorem evidenceStep_accepted {sha256 : String → String}
    (h : evidenceStep sha256 evidence receipt = .ok evidence') :
    evidence' = evidence ∨ snapshotEvidence evidence'.id evidence'.items = .ok evidence' := by
  unfold evidenceStep appendReadEvidence at h
  split at h
  · obtain ⟨read, hread, hsources⟩ := Except.bind_ok h
    rcases appendSources_accepted hsources with rfl | haccepted
    · exact appendResearchEvidence_accepted hread
    · exact .inr haccepted
  · exact appendSources_accepted h

theorem snapshotEvidence_of_checked_iff {request : RequestSnapshot} : checkEvidence request = .ok () ↔
    snapshotEvidence request.evidence.id request.evidence.items = .ok request.evidence := by
  unfold checkEvidence
  constructor
  · intro h
    split at h
    · cases h
    · rename_i hversion
      split at h
      · rename_i snapshot hsnapshot
        rw [hsnapshot, snapshotEvidence_eq_ok hsnapshot, ← not_not.mp hversion]
      · cases h
  · intro h
    have hversion : request.evidence.version = 1 := by rw [snapshotEvidence_eq_ok h]
    rw [if_neg (not_not_intro hversion), h]

/-! ## Replaying one receipt -/

theorem replayEvidence_cons (hrecorded : env.Records work requestVersion receipt)
    (hkey : item.actionKey = some receipt.idempotencyKey) (hne : receipt.idempotencyKey ≠ "") :
    replayEvidence env work requestVersion evidence (item :: rest)
      = if readsEvidence env receipt.action then
          match evidenceStep env.sha256 evidence receipt with
          | .ok expected => replayEvidence env work requestVersion expected rest
          | .error message => rejectWith 500 message
        else rejectWith 409 "evidence lacks a current authorized read intent" := by
  obtain ⟨intent, hintent, hcurrent, haction⟩ := hrecorded.intent
  have hfilter : item.actionKey.filter (· != "") = some receipt.idempotencyKey := by
    simp [hkey, Option.filter, hne]
  rw [replayEvidence, hfilter]
  dsimp only
  rw [hintent]
  dsimp only
  rw [hcurrent, haction, hrecorded.result]
  cases readsEvidence env receipt.action with
  | true => rfl
  | false => rfl

/-- The items of a receipt that is folded in already change nothing. -/
theorem replayEvidence_settled (hrecorded : env.Records work requestVersion receipt)
    (hreads : readsEvidence env receipt.action = true) (hne : receipt.idempotencyKey ≠ "")
    (hkeyed : ∀ item ∈ added, item.actionKey = some receipt.idempotencyKey)
    (hsettled : evidenceStep env.sha256 evidence receipt = .ok evidence) :
    replayEvidence env work requestVersion evidence (added ++ rest)
      = replayEvidence env work requestVersion evidence rest := by
  induction added with
  | nil => rfl
  | cons item added ih =>
      obtain ⟨hkey, hkeyed⟩ := List.forall_mem_cons.mp hkeyed
      rw [List.cons_append, replayEvidence_cons hrecorded hkey hne, if_pos hreads, hsettled]
      exact ih hkeyed

/-- All the items of a receipt replay to what the receipt is folded in to. The first of
    them brings all the others along. -/
theorem replayEvidence_block (hrecorded : env.Records work requestVersion receipt)
    (hreads : readsEvidence env receipt.action = true)
    (hstep : evidenceStep env.sha256 evidence receipt = .ok evidence')
    (hgrown : GrownBy receipt.idempotencyKey evidence evidence' added) :
    replayEvidence env work requestVersion evidence (added ++ rest)
      = replayEvidence env work requestVersion evidence' rest := by
  cases added with
  | nil => rw [hgrown.same rfl, List.nil_append]
  | cons item added =>
      obtain ⟨hkey, hkeyed⟩ := List.forall_mem_cons.mp hgrown.keyed
      have hmem : item ∈ evidence'.items := by
        rw [hgrown.items]
        exact List.mem_append_right _ List.mem_cons_self
      have hne : receipt.idempotencyKey ≠ "" := by
        rcases evidenceStep_accepted hstep with heq | haccepted
        · cases hgrown.eq_self_iff.mp heq
        · exact actionKey_ne_of_accepted haccepted hmem hkey
      rw [List.cons_append, replayEvidence_cons hrecorded hkey hne, if_pos hreads, hstep]
      exact replayEvidence_settled hrecorded hreads hne hkeyed (appendReadEvidence_idem hstep)

/-- A receipt of another tool leaves items that are refused, or none. -/
theorem replayEvidence_refused (hrecorded : env.Records work requestVersion receipt)
    (hreads : readsEvidence env receipt.action = false) (hadded : added ≠ [])
    (hkeyed : ∀ item ∈ added, item.actionKey = some receipt.idempotencyKey)
    (hne : receipt.idempotencyKey ≠ "") :
    replayEvidence env work requestVersion evidence (added ++ rest) ≠ .ok evidence' := by
  obtain ⟨item, added, rfl⟩ := List.exists_cons_of_ne_nil hadded
  rw [List.cons_append, replayEvidence_cons hrecorded (hkeyed item List.mem_cons_self) hne, hreads]
  exact rejectWith_ne_ok _ _ _

/-! ## Replaying all of them -/

theorem bringsNothing_iff_added_nil (haction : readsEvidence env receipt.action = false)
    (hstep : evidenceStep env.sha256 evidence receipt = .ok evidence')
    (hgrown : GrownBy receipt.idempotencyKey evidence evidence' added) :
    bringsNothing evidence.items receipt.result = true ↔ added = [] := by
  have hother : receipt.action ≠ "research.read" := by
    intro h
    simp [readsEvidence, h] at haction
  unfold evidenceStep appendReadEvidence at hstep
  rw [if_neg hother] at hstep
  rw [← appendSources_eq_self_iff hstep, hgrown.eq_self_iff]

/-- The items the worker appended are accepted exactly when only reads brought any, and
    then they are recomputed as they are. -/
theorem replayEvidence_fold_iff
    (hrecorded : ∀ receipt ∈ receipts, env.Records work requestVersion receipt)
    (hfold : receipts.foldlM (evidenceStep env.sha256) evidence = .ok evidence') :
    ∃ added, evidence'.items = evidence.items ++ added ∧ (added = [] → evidence' = evidence)
      ∧ ∀ expected, replayEvidence env work requestVersion evidence added = .ok expected ↔
        expected = evidence' ∧ ReadsOnly env evidence receipts := by
  induction receipts generalizing evidence with
  | nil =>
      cases hfold
      refine ⟨[], (List.append_nil _).symm, fun _ => rfl, fun expected => ?_⟩
      simp only [replayEvidence, Except.ok.injEq, ReadsOnly, and_true]
      exact eq_comm
  | cons receipt rest ih =>
      obtain ⟨hhead, htail⟩ := List.forall_mem_cons.mp hrecorded
      obtain ⟨next, hstep, hrest⟩ := Except.foldlM_cons_eq_ok_iff.mp hfold
      obtain ⟨later, hlater, hsame, hiff⟩ := ih htail hrest
      obtain ⟨added, hgrown⟩ := appendReadEvidence_grownBy hstep
      have honly : ReadsOnly env evidence (receipt :: rest) ↔
          (readsEvidence env receipt.action = true
            ∨ bringsNothing evidence.items receipt.result = true) ∧ ReadsOnly env next rest := by
        rw [ReadsOnly]
        refine and_congr_right fun _ => ⟨fun h => h next hstep, ?_⟩
        intro h next' hstep'
        rwa [Except.ok.inj (hstep'.symm.trans hstep)]
      refine ⟨added ++ later, ?_, ?_, fun expected => ?_⟩
      · rw [hlater, hgrown.items, List.append_assoc]
      · intro hnone
        obtain ⟨hadded, hnone⟩ := List.append_eq_nil_iff.mp hnone
        rw [hsame hnone, hgrown.same hadded]
      · rw [honly]
        cases hreads : readsEvidence env receipt.action with
        | true =>
            rw [replayEvidence_block hhead hreads hstep hgrown, hiff]
            simp
        | false =>
            rw [bringsNothing_iff_added_nil hreads hstep hgrown]
            rcases eq_or_ne added [] with rfl | hadded
            · rw [List.nil_append, ← hgrown.same rfl, hiff]
              simp
            · have hne : receipt.idempotencyKey ≠ "" := by
                obtain ⟨item, added, rfl⟩ := List.exists_cons_of_ne_nil hadded
                rcases evidenceStep_accepted hstep with heq | haccepted
                · cases hgrown.eq_self_iff.mp heq
                · have hmem : item ∈ next.items := by
                    rw [hgrown.items]
                    exact List.mem_append_right _ List.mem_cons_self
                  exact actionKey_ne_of_accepted haccepted hmem (hgrown.keyed item List.mem_cons_self)
              refine iff_of_false ?_ ?_
              · exact replayEvidence_refused hhead hreads hadded hgrown.keyed hne
              · simp [hadded]

theorem checkEvidence_fold {previous next : RequestSnapshot}
    (hsaved : checkEvidence previous = .ok ())
    (hfold : receipts.foldlM (evidenceStep env.sha256) previous.evidence = .ok next.evidence) :
    checkEvidence next = .ok () := by
  rw [snapshotEvidence_of_checked_iff] at hsaved ⊢
  refine Except.foldlM_preserves (I := fun evidence =>
    snapshotEvidence evidence.id evidence.items = .ok evidence) ?_ hsaved hfold
  intro evidence receipt evidence' haccepted hstep
  rcases evidenceStep_accepted hstep with rfl | haccepted'
  · exact haccepted
  · exact haccepted'

private def memoWork : TurnWork where
  id := "w"
  tenantId := "t"
  agentId := "a"
  sessionId := "s"
  threadId := none
  kind := "turn"
  lane := .interactive
  triggerRef := "m1"
  principalId := some "u"
  meta_ := { text := some "Publish the minutes" }

private def memoKey : String := actionKeyOf "w" "c1" 0

private def memoSource : SourceEvidence where
  sourceId := "notes/minutes"
  sourceVersion := "2"
  chunkId := "minutes:1"
  title := "Minutes"
  excerpt := "The board agreed"

private def memoReceipt (action : String) : Receipt :=
  ⟨action, memoKey, { ok := true, evidence := [memoSource] }⟩

/-- The ledger after the one action. The digest is the one of the item it becomes. -/
private def memoEnv (action : String) : SaveEnv where
  sha256 := fun _ => "6dc4af2a85f8ab9e75c73a968219c23dbada395e0a8e6f41b1ce29c439c9dfb6"
  findIntent := fun key => if key = memoKey then
      some ⟨"w", "t", some "u", "a", "s", none, some 1, none,
        ⟨"w", "c1", 0, action, [], memoKey⟩⟩
    else none
  find := fun key => if key = memoKey then some (memoReceipt action).result else none
  tools := [{ name := "notes__read", action := "notes.read", effect := .read },
    { name := "notes__publish", action := "notes.publish", effect := .idempotent }]

private def memoRequest (evidence : EvidenceSnapshot) : RequestSnapshot where
  version := 1
  workId := "w"
  tenantId := "t"
  sessionId := "s"
  authorId := "u"
  sourceRef := "m1"
  originalText := "Publish the minutes"
  revisions := []
  attachments := []
  evidence := evidence

private def memoBefore : EvidenceSnapshot := ⟨1, "w:evidence:1", []⟩

private def memoAfter : EvidenceSnapshot :=
  ⟨1, "evidence:6dc4af2a85f8ab9e75c73a968219c23dbada395e0a8e6f41b1ce29c439c9dfb6",
    [{ marker := "S1"
       sourceId := "notes/minutes"
       sourceVersion := "2"
       chunkId := "minutes:1"
       title := "Minutes"
       excerpt := "The board agreed"
       actionKey := some memoKey }]⟩

private theorem memoRecorded (action : String) :
    (memoEnv action).Records memoWork (memoRequest memoAfter).requestVersion
      (memoReceipt action) :=
  ⟨⟨_, rfl, rfl, rfl⟩, rfl⟩

end LingxiOS
