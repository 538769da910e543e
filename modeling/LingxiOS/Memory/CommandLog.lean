-- SUMMARY: When a repeated memory command is answered from the log.
import LingxiOS.Memory.Changes

/-! # The Command Log

A command is recorded under the epoch it leaves. A deletion moves the epoch and clears the
log, so a repeated command is carried out once more: what it created has another identity
then, and what it changed has moved on. -/

namespace LingxiOS

namespace Memories

variable {env : MemoryEnv} {tables tables' first later left : MemoryTables} {scope : MemoryScope}
  {clock clock' : MemoryClock} {changes : List MemoryChange} {change : MemoryChange}
  {context context' : MemoryWriteContext} {result result' : MemoryApplyResult}
  {hostNow hostNow' : Int} {ids ids' : List String}

/-! ## Checks over time -/

def MemoryChange.content : MemoryChange → Option MemoryContent
  | .create content | .update _ content | .merge _ content _ => some content
  | .move _ _ | .expire _ | .delete _ => none

/-- No document the changes write has expired by the host's clock. -/
def Unexpired (env : MemoryEnv) (hostNow : Int) (changes : List MemoryChange) : Prop :=
  ∀ change ∈ changes, ∀ content ∈ change.content,
    content.validUntil.join.all (isFuture env hostNow) = true

theorem validateMemoryContent_eq_ok_iff {content : MemoryContent} :
    validateMemoryContent env hostNow content = .ok () ↔ validateMemoryText env content = .ok ()
      ∧ content.validUntil.join.all (isFuture env hostNow) = true := by
  unfold validateMemoryContent
  rw [Except.bind_eq_ok_iff]
  simp only [Except.guard_eq_ok_iff, Bool.not_eq_true', Bool.not_eq_false, and_true]
  constructor
  · rintro ⟨⟨⟩, htext, hfuture⟩
    exact ⟨htext, hfuture⟩
  · rintro ⟨htext, hfuture⟩
    exact ⟨(), htext, hfuture⟩

theorem parseDocumentChange_unexpired (h : parseDocumentChange env hostNow ids change = .ok ids') :
    ∀ content ∈ change.content, content.validUntil.join.all (isFuture env hostNow) = true := by
  intro content hcontent
  cases change with
  | create _ =>
      cases hcontent
      obtain ⟨_, hvalid, -⟩ := Except.bind_ok h
      exact (validateMemoryContent_eq_ok_iff.mp hvalid).2
  | update target _ =>
      cases hcontent
      obtain ⟨_, _, h⟩ := Except.bind_ok h
      obtain ⟨_, hvalid, -⟩ := Except.bind_ok h
      exact (validateMemoryContent_eq_ok_iff.mp hvalid).2
  | merge target _ from_ =>
      cases hcontent
      obtain ⟨_, _, h⟩ := Except.bind_ok h
      obtain ⟨_, hvalid, -⟩ := Except.bind_ok h
      exact (validateMemoryContent_eq_ok_iff.mp hvalid).2
  | move target path => cases hcontent
  | expire target => cases hcontent
  | delete target => cases hcontent

/-- A change that passed its checks passes them again while its document has not expired. -/
theorem parseDocumentChange_later (h : parseDocumentChange env hostNow ids change = .ok ids')
    (hfuture : ∀ content ∈ change.content,
      content.validUntil.join.all (isFuture env hostNow') = true) :
    parseDocumentChange env hostNow' ids change = .ok ids' := by
  have hagain : ∀ content, validateMemoryContent env hostNow content = .ok () →
      content ∈ change.content → validateMemoryContent env hostNow' content = .ok () := by
    intro content hvalid hcontent
    have htext := (validateMemoryContent_eq_ok_iff.mp hvalid).1
    exact validateMemoryContent_eq_ok_iff.mpr ⟨htext, hfuture content hcontent⟩
  cases change with
  | create content =>
      obtain ⟨_, hvalid, h⟩ := Except.bind_ok h
      exact Except.bind_eq_ok_iff.mpr ⟨(), hagain content hvalid rfl, h⟩
  | update target content =>
      obtain ⟨claimed, hclaim, h⟩ := Except.bind_ok h
      obtain ⟨_, hvalid, h⟩ := Except.bind_ok h
      exact Except.bind_eq_ok_iff.mpr ⟨claimed, hclaim,
        Except.bind_eq_ok_iff.mpr ⟨(), hagain content hvalid rfl, h⟩⟩
  | merge target content from_ =>
      obtain ⟨claimed, hclaim, h⟩ := Except.bind_ok h
      obtain ⟨_, hvalid, h⟩ := Except.bind_ok h
      exact Except.bind_eq_ok_iff.mpr ⟨claimed, hclaim,
        Except.bind_eq_ok_iff.mpr ⟨(), hagain content hvalid rfl, h⟩⟩
  | move target path => exact h
  | expire target => exact h
  | delete target => exact h

theorem foldlM_parse_unexpired (h : changes.foldlM (parseDocumentChange env hostNow) ids = .ok ids') :
    Unexpired env hostNow changes := by
  induction changes generalizing ids with
  | nil => exact nofun
  | cons change changes ih =>
      obtain ⟨_, hchange, hrest⟩ := Except.foldlM_cons_eq_ok_iff.mp h
      exact List.forall_mem_cons.mpr ⟨parseDocumentChange_unexpired hchange, ih hrest⟩

theorem foldlM_parse_later (h : changes.foldlM (parseDocumentChange env hostNow) ids = .ok ids')
    (hfuture : Unexpired env hostNow' changes) :
    changes.foldlM (parseDocumentChange env hostNow') ids = .ok ids' := by
  induction changes generalizing ids with
  | nil => exact h
  | cons change changes ih =>
      obtain ⟨middle, hchange, hrest⟩ := Except.foldlM_cons_eq_ok_iff.mp h
      obtain ⟨hfirst, hothers⟩ := List.forall_mem_cons.mp hfuture
      exact Except.foldlM_cons_eq_ok_iff.mpr
        ⟨middle, parseDocumentChange_later hchange hfirst, ih hrest hothers⟩

theorem parseDocumentChanges_later (h : parseDocumentChanges env hostNow changes = .ok ids) :
    (∃ ids', parseDocumentChanges env hostNow' changes = .ok ids')
      ↔ Unexpired env hostNow' changes := by
  obtain ⟨hlength, h⟩ := Except.guard_eq_ok_iff.mp h
  constructor
  · rintro ⟨ids', h'⟩
    exact foldlM_parse_unexpired (Except.guard_eq_ok_iff.mp h').2
  · intro hfuture
    exact ⟨ids, Except.guard_eq_ok_iff.mpr ⟨hlength, foldlM_parse_later h hfuture⟩⟩

/-! ## The identities of a batch -/

theorem claimIdentity_eq_ok {target : Versioned} (h : claimIdentity ids target = .ok ids') :
    ids' = target.id :: ids ∧ target.id ∉ ids := by
  unfold claimIdentity at h
  rw [Except.guard_eq_ok_iff, Except.guard_eq_ok_iff] at h
  obtain ⟨-, hnew, h⟩ := h
  exact ⟨(Except.ok.inj h).symm, by simpa using hnew⟩

/-- Each target adds its identity to those claimed before, which it is none of. -/
def Claims (ids : List String) (targets : List Versioned) (ids' : List String) : Prop :=
  ids ⊆ ids' ∧ (∀ target ∈ targets, target.id ∈ ids') ∧ ∀ target ∈ targets, target.id ∉ ids

theorem Claims.cons {target : Versioned} {targets : List Versioned} {middle : List String}
    (h : claimIdentity ids target = .ok middle) (hrest : Claims middle targets ids') :
    Claims ids (target :: targets) ids' := by
  obtain ⟨rfl, hnew⟩ := claimIdentity_eq_ok h
  obtain ⟨hsub, hin, hout⟩ := hrest
  obtain ⟨hhead, hids⟩ := List.cons_subset.mp hsub
  refine ⟨hids, List.forall_mem_cons.mpr ⟨hhead, hin⟩, List.forall_mem_cons.mpr ⟨hnew, ?_⟩⟩
  exact fun other hother hold => hout other hother (List.mem_cons_of_mem _ hold)

theorem Claims.nil (ids : List String) : Claims ids [] ids :=
  ⟨List.Subset.refl ids, nofun, nofun⟩

theorem claims_of_foldlM {targets : List Versioned} (h : targets.foldlM claimIdentity ids = .ok ids') :
    Claims ids targets ids' := by
  induction targets generalizing ids with
  | nil =>
      cases h
      exact .nil _
  | cons target targets ih =>
      obtain ⟨middle, hclaim, hrest⟩ := Except.foldlM_cons_eq_ok_iff.mp h
      exact .cons hclaim (ih hrest)

theorem parseDocumentChange_claims (h : parseDocumentChange env hostNow ids change = .ok ids') :
    Claims ids change.targets ids' := by
  cases change with
  | create content =>
      obtain ⟨_, -, h⟩ := Except.bind_ok h
      cases h
      exact .nil _
  | update target content =>
      obtain ⟨claimed, hclaim, h⟩ := Except.bind_ok h
      obtain ⟨_, -, h⟩ := Except.bind_ok h
      cases h
      exact .cons hclaim (.nil _)
  | move target path =>
      obtain ⟨claimed, hclaim, h⟩ := Except.bind_ok h
      obtain ⟨_, -, h⟩ := Except.bind_ok h
      cases h
      exact .cons hclaim (.nil _)
  | expire target => exact .cons h (.nil ids')
  | merge target content from_ =>
      obtain ⟨claimed, hclaim, h⟩ := Except.bind_ok h
      obtain ⟨_, -, h⟩ := Except.bind_ok h
      exact .cons hclaim (claims_of_foldlM (Except.guard_eq_ok_iff.mp h).2)
  | delete target => exact .cons h (.nil ids')

/-- No change of a batch names a document that was claimed before it. -/
theorem foldlM_parse_claims (h : changes.foldlM (parseDocumentChange env hostNow) ids = .ok ids') :
    ∀ change ∈ changes, ∀ target ∈ change.targets, target.id ∉ ids := by
  induction changes generalizing ids with
  | nil => exact nofun
  | cons change changes ih =>
      obtain ⟨middle, hchange, hrest⟩ := Except.foldlM_cons_eq_ok_iff.mp h
      obtain ⟨hsub, -, hout⟩ := parseDocumentChange_claims hchange
      refine List.forall_mem_cons.mpr ⟨hout, fun other hother target htarget hold => ?_⟩
      exact ih hrest other hother target htarget (hsub hold)

/-! ## A command that is carried out again -/

theorem eq_of_filterMap_eq {α β : Type} {f g : α → Option β} {xs : List α}
    (hsome : ∀ x, (f x).isSome = (g x).isSome) (h : xs.filterMap f = xs.filterMap g) :
    ∀ x ∈ xs, f x = g x := by
  induction xs with
  | nil => exact nofun
  | cons x xs ih =>
      have hx := hsome x
      cases hf : f x with
      | none =>
          rw [hf] at hx
          have hg : g x = none := Option.not_isSome_iff_eq_none.mp (by simp [← hx])
          rw [List.filterMap_cons_none hf, List.filterMap_cons_none hg] at h
          exact List.forall_mem_cons.mpr ⟨hf.trans hg.symm, ih h⟩
      | some a =>
          rw [hf] at hx
          obtain ⟨b, hg⟩ := Option.isSome_iff_exists.mp hx.symm
          rw [List.filterMap_cons_some hf, List.filterMap_cons_some hg, List.cons.injEq] at h
          exact List.forall_mem_cons.mpr ⟨by rw [hf, hg, h.1], ih h.2⟩

/-- A batch that is carried out twice answers another document, or changes what it named. -/
theorem rerun_differs {call call' : MemoryCall} {documents documents' left left' : Documents}
    {hostNow : Int} {ids : List String}
    (hparse : parseDocumentChanges env hostNow changes = .ok ids) (hsome : changes ≠ [])
    (hbatch : changes.zipIdx.foldlM call.applyChange (⟨[], []⟩, documents) = .ok (result, left))
    (hbatch' : changes.zipIdx.foldlM call'.applyChange (⟨[], []⟩, documents') = .ok (result, left'))
    (hids : ∀ index, call.documentId index ≠ call'.documentId index)
    (hsame : ∀ key, left'.get? key = documents'.get? key) : False := by
  by_cases hcreate : ∀ change ∈ changes.zipIdx, ∀ content, change.1 ≠ .create content
  · -- the first document that is named has changed, and no later change names it
    cases changes with
    | nil => exact hsome rfl
    | cons change changes =>
        rw [List.zipIdx_cons] at hcreate hbatch'
        obtain ⟨middle, hchange, hrest⟩ := Except.foldlM_cons_eq_ok_iff.mp hbatch'
        obtain ⟨hfirst, hothers⟩ := List.forall_mem_cons.mp hcreate
        obtain ⟨claimed, hclaimed, hparseRest⟩ :=
          Except.foldlM_cons_eq_ok_iff.mp (Except.guard_eq_ok_iff.mp hparse).2
        obtain ⟨-, hin, -⟩ := parseDocumentChange_claims hclaimed
        obtain ⟨target, htarget⟩ : ∃ target, target ∈ change.targets.head? := by
          cases change with
          | create content => exact absurd rfl (hfirst content)
          | update target _ | move target _ | expire target | merge target _ _ | delete target =>
              exact ⟨target, rfl⟩
        obtain ⟨row, hrow, hchanged⟩ := (MemoryCall.applyChange_made hchange).target target htarget
        refine hchanged ?_
        rw [← hrow, ← hsame]
        refine (MemoryCall.applyChanges_frame hrest hothers ?_).symm
        rintro ⟨other, index⟩ hother target' htarget' hid
        refine foldlM_parse_claims hparseRest other (List.mem_zipIdx hother |>.2.2 ▸ ?_) target' htarget' ?_
        · exact List.getElem_mem _
        · rw [hid]
          exact hin target (List.mem_of_mem_head? htarget)
  · -- a document that is created has the identity of its epoch
    simp only [ne_eq, not_forall, not_not] at hcreate
    obtain ⟨⟨change, index⟩, hmem, content, rfl⟩ := hcreate
    obtain ⟨hanswered, -⟩ := MemoryCall.applyChanges_answered hbatch
    obtain ⟨hanswered', -⟩ := MemoryCall.applyChanges_answered hbatch'
    have hanswers : changes.zipIdx.filterMap call.answeredId = changes.zipIdx.filterMap call'.answeredId :=
      hanswered.symm.trans hanswered'
    have hid := eq_of_filterMap_eq (fun change => by
      unfold MemoryCall.answeredId
      split <;> rfl) hanswers _ hmem
    exact hids index (Option.some.inj hid)

/-! ## The log between the calls -/

/-- The log holds the command while the epoch stands, and knows nothing of the action under a
    later one. -/
def LogHolds (scope : MemoryScope) (actionId : String) (epoch : Nat) (row : CommandRow)
    (tables : MemoryTables) : Prop :=
  (scopeRow tables scope).epoch = epoch ∧ tables.commands.get? (scope, epoch, actionId) = some row
    ∨ epoch < (scopeRow tables scope).epoch
      ∧ tables.commands.get? (scope, (scopeRow tables scope).epoch, actionId) = none

/-- No other call carries the action out: one under its identity finds it in the log. -/
def NotAgain (scope : MemoryScope) (actionId : String) (tables : MemoryTables) (event : MemoryEvent) :
    Prop :=
  ∀ clock changes context, event = .apply clock scope changes context → context.actionId = actionId →
    tables.commands.get? (scope, context.epoch, actionId) ≠ none

variable {actionId : String} {epoch : Nat} {row : CommandRow}

theorem LogHolds.of_eq (h : LogHolds scope actionId epoch row tables)
    (hrow : scopeRow tables' scope = scopeRow tables scope)
    (hcommands : ∀ epoch, tables'.commands.get? (scope, epoch, actionId)
      = tables.commands.get? (scope, epoch, actionId)) :
    LogHolds scope actionId epoch row tables' := by
  unfold LogHolds
  rw [hrow, hcommands, hcommands]
  exact h

/-- A scope that was forgotten has a new epoch and an empty log. -/
theorem LogHolds.of_forgotten (h : LogHolds scope actionId epoch row tables)
    (hrow : (scopeRow tables' scope).epoch = (scopeRow tables scope).epoch + 1)
    (hcommands : ∀ epoch, tables'.commands.get? (scope, epoch, actionId) = none) :
    LogHolds scope actionId epoch row tables' := by
  refine .inr ⟨?_, hcommands _⟩
  rcases h with ⟨hepoch, -⟩ | ⟨hepoch, -⟩
  · omega
  · omega

theorem get?_cleared {commands : JsMap (MemoryScope × Nat × String) CommandRow} {scope' : MemoryScope} :
    (commands.filter fun key _ => key.1 ≠ scope').get? (scope, epoch, actionId)
      = if scope = scope' then none else commands.get? (scope, epoch, actionId) := by
  rw [JsMap.get?_filter]
  split
  · rename_i hscope
    simp [hscope]
  · rename_i hscope
    cases commands.get? (scope, epoch, actionId) with
    | none => rfl
    | some row => simp [hscope]

theorem CarriedOut.logHolds {call : MemoryCall} (hcarried : CarriedOut call changes tables left result)
    (hother : call.scope = scope → call.context.actionId ≠ actionId)
    (h : LogHolds scope actionId epoch row tables) : LogHolds scope actionId epoch row left := by
  obtain ⟨-, -, hscopes, -, -, hcommands⟩ := hcarried
  have hkey : ∀ epoch epoch' : Nat,
      (scope, epoch, actionId) ≠ (call.scope, epoch', call.context.actionId) := by
    intro epoch epoch' hsame
    obtain ⟨hscope, hrest⟩ := Prod.mk.inj hsame
    exact hother hscope.symm (Prod.mk.inj hrest).2.symm
  by_cases hdeleted : result.deleted ≠ []
  · rw [if_pos hdeleted] at hcommands
    by_cases hscope : scope = call.scope
    · refine h.of_forgotten (by rw [hscopes, if_pos ⟨hscope, hdeleted⟩]) fun epoch => ?_
      rw [hcommands, JsMap.get?_set_of_ne _ (hkey _ _), get?_cleared, if_pos hscope]
    · refine h.of_eq (by rw [hscopes, if_neg fun h => hscope h.1]) fun epoch => ?_
      rw [hcommands, JsMap.get?_set_of_ne _ (hkey _ _), get?_cleared, if_neg hscope]
  · rw [if_neg hdeleted] at hcommands
    refine h.of_eq (by rw [hscopes, if_neg fun h => hdeleted h.2]) fun epoch => ?_
    rw [hcommands, JsMap.get?_set_of_ne _ (hkey _ _)]

theorem step_logHolds {event : MemoryEvent} (h : LogHolds scope actionId epoch row tables)
    (hstep : ((memorySystem env).restrict (NotAgain scope actionId)).step tables event tables') :
    LogHolds scope actionId epoch row tables' := by
  obtain ⟨hagain, hstep⟩ := hstep
  cases event with
  | forget now scope' purge =>
      obtain ⟨-, hstep⟩ := hstep
      split at hstep
      · rename_i epoch' left hforget
        cases hstep
        obtain ⟨-, rfl, hscopes, -, -, -, hcommands, -⟩ := forgetMemoryScope_eq_ok hforget
        by_cases hscope : scope = scope'
        · refine h.of_forgotten (by rw [hscopes, if_pos hscope, hscope]) fun epoch => ?_
          rw [hcommands, get?_cleared, if_pos hscope]
        · refine h.of_eq (by rw [hscopes, if_neg hscope]) fun epoch => ?_
          rw [hcommands, get?_cleared, if_neg hscope]
      · cases hstep
        exact h
  | capture workId message scopes prepared =>
      obtain ⟨work, hwork, hstep⟩ := hstep
      split at hstep
      · rename_i left hcapture
        cases hstep
        obtain ⟨-, hrows, -, hcommands, -⟩ := captureMemoryEvidence_eq_ok hwork hcapture
        exact h.of_eq (hrows scope) fun epoch => by rw [hcommands]
      · cases hstep
        exact h
  | apply clock scope' changes context =>
      obtain ⟨-, hstep⟩ := hstep
      split at hstep
      · rename_i result left happly
        cases hstep
        obtain ⟨-, ⟨-, rfl⟩ | ⟨hnone, hrun⟩⟩ := applyMemoryChanges_eq_ok_iff.mp happly
        · exact h.of_eq (scopeRow_locked scope) fun _ => rfl
        · refine (runCommand_carriedOut hrun).logHolds ?_ h
          rintro rfl rfl
          exact hagain clock changes context rfl rfl hnone
      · cases hstep
        exact h
  | work =>
      obtain ⟨-, works, requests, rfl⟩ := hstep
      exact h.of_eq rfl fun _ => rfl

/-! ## A repeated command -/

/-- The same command: only when its sources were observed may differ, and what the host provides. -/
structure SameCommand (context context' : MemoryWriteContext) : Prop where
  identity : context'.identity = context.identity
  actionId : context'.actionId = context.actionId
  explicit : context'.explicit = context.explicit
  sources : context'.sources.map (fun source => { source with observedAt := none })
    = context.sources.map fun source => { source with observedAt := none }

theorem SameCommand.symm (h : SameCommand context context') : SameCommand context' context :=
  ⟨h.identity.symm, h.actionId.symm, h.explicit.symm, h.sources.symm⟩

theorem SameCommand.fingerprint (h : SameCommand context context') :
    fingerprint env scope changes context' = fingerprint env scope changes context := by
  unfold Memories.fingerprint
  rw [h.identity, h.sources, h.explicit]

theorem SameCommand.hasProvenance (h : SameCommand context context') :
    hasProvenance scope context' = hasProvenance scope context := by
  have hlength : context'.sources.length = context.sources.length := by
    simpa using congrArg List.length h.sources
  have hnil : context'.sources ≠ [] ↔ context.sources ≠ [] := by
    rw [← List.length_pos_iff, ← List.length_pos_iff, hlength]
  have hall : (context'.sources.all fun source => source.sourceRef ≠ "" ∧ source.authorId ≠ "")
      = context.sources.all fun source => source.sourceRef ≠ "" ∧ source.authorId ≠ "" := by
    have hmap := congrArg (fun sources : List MemorySource =>
      sources.all fun source => source.sourceRef ≠ "" ∧ source.authorId ≠ "") h.sources
    simpa only [List.all_map, Function.comp_def] using hmap
  unfold Memories.hasProvenance
  rw [h.identity, h.actionId, hlength, hall]
  simp only [hnil]

/-- The sources name the same work items. -/
theorem SameCommand.startedSince (h : SameCommand context context')
    (hsources : ∀ source ∈ context.sources, ∀ workId, source.work = some workId →
      StartedSince tables scope workId) :
    ∀ source ∈ context'.sources, ∀ workId, source.work = some workId →
      StartedSince tables scope workId := by
  intro source' hsource' workId hwork
  have hmem : ({ source' with observedAt := none } : MemorySource) ∈
      context.sources.map fun source => { source with observedAt := none } := by
    rw [← h.sources]
    exact List.mem_map_of_mem hsource'
  obtain ⟨source, hsource, hsame⟩ := List.mem_map.mp hmem
  have hworkId := congrArg MemorySource.work hsame
  exact hsources source hsource workId (hworkId.trans hwork)

/-- The recorded answer, and no document changed. -/
def Repeats (env : MemoryEnv) (tables : MemoryTables) (clock : MemoryClock) (scope : MemoryScope)
    (changes : List MemoryChange) (context : MemoryWriteContext) (result : MemoryApplyResult) : Prop :=
  ∃ left, applyMemoryChanges env tables clock scope changes context = .ok (result, left)
    ∧ ∀ key, left.documents.get? key = tables.documents.get? key

theorem repeats_of_recorded (hadmitted : Admitted env tables clock scope changes context)
    (hrecorded : Recorded env tables scope changes context result) :
    Repeats env tables clock scope changes context result :=
  ⟨locked tables scope, applyMemoryChanges_eq_ok_iff.mpr ⟨hadmitted, .inl ⟨hrecorded, rfl⟩⟩,
    fun _ => rfl⟩

/-- A command without changes answers none. -/
theorem repeats_of_nil (hadmitted : Admitted env tables clock scope [] context)
    (hnone : tables.commands.get? (scope, context.epoch, context.actionId) = none) :
    Repeats env tables clock scope [] context ⟨[], []⟩ := by
  let left := withCommand (locked tables scope) (scope, context.epoch, context.actionId)
    ⟨fingerprint env scope [] context, ⟨[], []⟩⟩
  have hrun : runCommand ⟨env, tables.works, scope, context, clock⟩ (locked tables scope) []
      = .ok (⟨[], []⟩, left) := by
    refine runCommand_eq_ok_iff.mpr ⟨_, _, _, rfl, rfl, ?_, rfl⟩
    have hlog : (locked tables scope).commands = tables.commands := rfl
    simp [JsMap.has, hlog, hnone]
  exact ⟨left, applyMemoryChanges_eq_ok_iff.mpr ⟨hadmitted, .inr ⟨hnone, hrun⟩⟩, fun _ => rfl⟩

/-- The log after a command was carried out holds it under the epoch that leaves. -/
theorem CarriedOut.recorded {call : MemoryCall} (hcarried : CarriedOut call changes tables left result)
    (hepoch : (scopeRow tables call.scope).epoch = call.context.epoch) :
    LogHolds call.scope call.context.actionId (scopeRow left call.scope).epoch
      ⟨fingerprint call.env call.scope changes call.context, result⟩ left := by
  refine .inl ⟨rfl, ?_⟩
  have hleft : (scopeRow left call.scope).epoch
      = if result.deleted ≠ [] then (scopeRow tables call.scope).epoch + 1 else call.context.epoch := by
    rw [hcarried.scopes, ← hepoch]
    by_cases hdeleted : result.deleted ≠ []
    · rw [if_pos ⟨rfl, hdeleted⟩, if_pos hdeleted]
    · rw [if_neg fun h => hdeleted h.2, if_neg hdeleted]
  rw [hcarried.commands, hleft]
  exact JsMap.get?_set_self _ _ _

theorem CarriedOut.epoch_le {call : MemoryCall} (hcarried : CarriedOut call changes tables left result) :
    (scopeRow tables call.scope).epoch ≤ (scopeRow left call.scope).epoch := by
  rw [hcarried.scopes]
  split
  · exact Nat.le_succ _
  · exact le_rfl

private def logEnv : MemoryEnv where
  memoryDigest
    | .source source => "source:" ++ source.sourceRef
    | .command _ _ changes _ _ => "command:" ++ toString changes.length
    | .document _ epoch actionId index =>
        actionId ++ String.ofList (List.replicate epoch '+') ++ ":" ++ toString index
    | .evidence _ body _ => "evidence:" ++ body
  isNfc _ := true
  dateParse _ := none
  localeLe a b := a ≤ b

private def settings : MemoryScope := ⟨"t1", "project", "p1"⟩

private def atStart : MemoryClock := ⟨0, 0, 0⟩

private def noTables : MemoryTables := ⟨.empty, .empty, .empty, .empty, .empty, .empty, .empty⟩

/-- A command as the memory service sends it: its source names no work item. -/
private def command (actionId : String) (epoch : Nat) : MemoryWriteContext where
  identity := ⟨"t1", "a1", "u1", "s1", none, none⟩
  actionId := actionId
  epoch := epoch
  sources := [{ sourceRef := "settings", authorId := "u1", actionId := some actionId }]
  explicit := true
  writeBody input := .ok input.body

private def note (path : String) : MemoryChange :=
  .create ⟨path, "Note", "A note.", "Use npm.", .reference, none, none, none⟩

private def seed (tables : MemoryTables) (epoch : Nat) : Option (MemoryApplyResult × MemoryTables) :=
  (applyMemoryChanges logEnv tables atStart settings [note "a.md"] (command "seed" epoch)).toOption

private def other (first : MemoryTables) (changes : List MemoryChange) : Option MemoryTables :=
  (applyMemoryChanges logEnv first atStart settings changes (command "other" 0)).toOption.map Prod.snd

private theorem eq_ok_of_toOption {α : Type} {x : Except String α} {a : α} (h : x.toOption = some a) :
    x = .ok a := by
  cases x with
  | ok b => exact congrArg Except.ok (Option.some.inj h)
  | error e => cases h

private theorem run_other {first later : MemoryTables}
    (hfirst : first.scopes.entries.all (·.2.forgottenAt.isNone) = true)
    (h : other first changes = some later) :
    ((memorySystem logEnv).restrict (NotAgain settings "seed")).Run first
      [.apply atStart settings changes (command "other" 0)] later := by
  obtain ⟨⟨result, left⟩, happly, rfl⟩ := Option.map_eq_some_iff.mp h
  have hclock : ClockFollows first 0 := by
    intro scope forgotten hforgotten
    unfold scopeRow at hforgotten
    cases hrow : first.scopes.get? scope with
    | none =>
        rw [hrow] at hforgotten
        cases hforgotten
    | some row =>
        rw [hrow] at hforgotten
        have hnone := List.all_eq_true.mp hfirst _ (JsMap.get?_eq_some_iff.mp hrow)
        rw [show row.forgottenAt = some forgotten from hforgotten] at hnone
        cases hnone
  refine .single ⟨?_, hclock, ?_⟩
  · rintro clock changes context hevent hid
    cases hevent
    exact absurd hid (by decide)
  · rw [eq_ok_of_toOption happly]

private def seeded : MemoryApplyResult × MemoryTables := (seed noTables 0).getD (⟨[], []⟩, noTables)

private theorem seed_eq : applyMemoryChanges logEnv noTables atStart settings [note "a.md"]
    (command "seed" 0) = .ok seeded := by
  have hok : (seed noTables 0).isSome = true := by decide +kernel
  obtain ⟨answer, hseed⟩ := Option.isSome_iff_exists.mp hok
  rw [seeded, hseed]
  exact eq_ok_of_toOption hseed

end Memories

end LingxiOS
