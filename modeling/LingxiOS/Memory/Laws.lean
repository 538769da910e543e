-- SUMMARY: What each operation on memory does to the scopes, the documents and the command log.
import LingxiOS.Memory.Store

/-! # Laws of the Memory Store

One lemma for each operation: when it succeeds, what it reads then, and what it leaves. -/

namespace LingxiOS

namespace Memories

variable {env : MemoryEnv} {tables left : MemoryTables} {scope : MemoryScope} {clock : MemoryClock}
  {changes : List MemoryChange} {context : MemoryWriteContext} {result : MemoryApplyResult}
  {now : Int} {purge : Bool} {epoch : Nat}

theorem get?_insertNew {κ α : Type} [DecidableEq κ] {rows : JsMap κ α} {key key' : κ} {row row' : α}
    (h : (insertNew rows key row).get? key' = some row') :
    rows.get? key' = some row' ∨ key' = key ∧ row' = row ∧ rows.get? key = none := by
  unfold insertNew at h
  split at h
  · exact .inl h
  · rename_i hnew
    rw [JsMap.get?_set] at h
    split at h
    · rename_i hkey
      exact .inr ⟨hkey, (Option.some.inj h).symm, by simpa [JsMap.has] using hnew⟩
    · exact .inl h

/-! ## Scopes -/

theorem scopeRow_set (tables : MemoryTables) (scope scope' : MemoryScope) (row : ScopeRow) :
    scopeRow { tables with scopes := tables.scopes.set scope row } scope'
      = if scope' = scope then row else scopeRow tables scope' := by
  unfold scopeRow
  rw [JsMap.get?_set]
  split
  · rfl
  · rfl

/-- The tables with the row of a scope in place. -/
def locked (tables : MemoryTables) (scope : MemoryScope) : MemoryTables :=
  { tables with scopes := tables.scopes.set scope (scopeRow tables scope) }

@[simp] theorem scopeRow_locked (scope' : MemoryScope) :
    scopeRow (locked tables scope) scope' = scopeRow tables scope' := by
  unfold locked
  rw [scopeRow_set]
  split
  · rename_i h
    rw [h]
  · rfl

/-- The epoch of a scope as a lock answers it. -/
def epochOf (tables : MemoryTables) (scope : MemoryScope) : MemoryEpoch :=
  ⟨scope, (scopeRow tables scope).epoch, (scopeRow tables scope).forgottenAt.map millis⟩

/-- The scopes a lock can be taken on. -/
def Lockable (tables : MemoryTables) (scope : MemoryScope) : Prop :=
  validateScope scope = true ∧ isSafeInteger (scopeRow tables scope).epoch = true

theorem lockMemoryScope_eq_ok_iff {answer : MemoryEpoch × MemoryTables} :
    lockMemoryScope tables scope = .ok answer ↔
      Lockable tables scope ∧ answer = (epochOf tables scope, locked tables scope) := by
  unfold lockMemoryScope
  rw [Except.guard_eq_ok_iff, Except.guard_eq_ok_iff, Bool.not_eq_true', Bool.not_eq_false,
    Bool.not_eq_true', Bool.not_eq_false, Except.ok.injEq, ← and_assoc, eq_comm (b := answer)]
  rfl

theorem lockMemoryScopes_eq_ok {scopes : List MemoryScope} {epochs : List MemoryEpoch}
    (h : lockMemoryScopes env tables scopes = .ok (epochs, left)) :
    (∃ rows, left = { tables with scopes := rows })
      ∧ (∀ scope, scopeRow left scope = scopeRow tables scope)
      ∧ ∀ epoch ∈ epochs, epoch = epochOf tables epoch.scope := by
  unfold lockMemoryScopes at h
  rw [Except.guard_eq_ok_iff] at h
  refine Except.foldlM_preserves (I := fun state => (∃ rows, state.2 = { tables with scopes := rows })
      ∧ (∀ scope, scopeRow state.2 scope = scopeRow tables scope)
      ∧ ∀ epoch ∈ state.1, epoch = epochOf tables epoch.scope) ?_ ?_ h.2
  · rintro ⟨epochs, state⟩ scope next ⟨⟨rows, rfl⟩, hrows, hepochs⟩ hnext
    obtain ⟨answer, hlock, hnext⟩ := Except.bind_ok hnext
    obtain ⟨-, rfl⟩ := lockMemoryScope_eq_ok_iff.mp hlock
    cases hnext
    refine ⟨⟨_, rfl⟩, fun scope' => (scopeRow_locked scope').trans (hrows scope'), ?_⟩
    intro epoch hepoch
    rcases List.mem_append.mp hepoch with hepoch | hepoch
    · exact hepochs epoch hepoch
    · rw [List.mem_singleton.mp hepoch]
      simp only [epochOf, hrows]
  · exact ⟨⟨tables.scopes, rfl⟩, fun _ => rfl, nofun⟩

/-- A work item that began after the scope was last forgotten. -/
def StartedSince (tables : MemoryTables) (scope : MemoryScope) (workId : String) : Prop :=
  ∃ work, tables.works.get? workId = some work ∧ sourceIsCurrent work (epochOf tables scope) = true

theorem currentMemoryScopes_eq_ok_iff {epochs current : List MemoryEpoch} {workId : String} :
    currentMemoryScopes tables epochs workId = .ok current ↔
      ∃ work, tables.works.get? workId = some work ∧ current = epochs.filter (sourceIsCurrent work) := by
  unfold currentMemoryScopes
  cases tables.works.get? workId with
  | none => simp
  | some work => simp [eq_comm]

theorem checkSource_eq_ok_iff {source : MemorySource} :
    checkSource (locked tables scope) (epochOf tables scope) source = .ok () ↔
      ∀ workId, source.work = some workId → StartedSince tables scope workId := by
  unfold checkSource
  cases hwork : source.work with
  | none => simp
  | some workId =>
      simp only [Option.some.injEq, forall_eq', StartedSince]
      rw [Except.bind_eq_ok_iff]
      constructor
      · rintro ⟨current, hcurrent, h⟩
        obtain ⟨work, hwork, rfl⟩ := currentMemoryScopes_eq_ok_iff.mp hcurrent
        refine ⟨work, hwork, ?_⟩
        by_contra hold
        simp [hold] at h
      · rintro ⟨work, hwork, hcurrent⟩
        refine ⟨_, currentMemoryScopes_eq_ok_iff.mpr ⟨work, hwork, rfl⟩, ?_⟩
        simp [hcurrent]

/-! ## Forgetting -/

/-- The evidence after a scope was forgotten. -/
def forgottenEvidence (tables : MemoryTables) (scope : MemoryScope) : JsMap String EvidenceRow :=
  tables.evidence.mapValues fun _ row =>
    if row.tenantId = scope.tenantId ∧ scope ∈ row.scopes then row.supersede else row

theorem forgetMemoryScope_eq_ok (h : forgetMemoryScope tables now scope purge = .ok (epoch, left)) :
    Lockable tables scope ∧ epoch = (scopeRow tables scope).epoch + 1
      ∧ (∀ scope', scopeRow left scope'
        = if scope' = scope then ⟨epoch, some now⟩ else scopeRow tables scope')
      ∧ left.works = tables.works ∧ left.evidence = forgottenEvidence tables scope
      ∧ (∀ key row, left.evidenceScopes.get? key = some row → ∃ row',
        tables.evidenceScopes.get? key = some row')
      ∧ left.commands = tables.commands.filter (fun key _ => key.1 ≠ scope)
      ∧ left.documents = if purge then tables.documents.filter fun _ row => row.scope ≠ scope
        else tables.documents := by
  obtain ⟨answer, hlock, h⟩ := Except.bind_ok h
  obtain ⟨hlockable, rfl⟩ := lockMemoryScope_eq_ok_iff.mp hlock
  cases h
  refine ⟨hlockable, rfl, ?_, rfl, rfl, ?_, rfl, rfl⟩
  · intro scope'
    exact (scopeRow_set (locked tables scope) scope scope' _).trans (by rw [scopeRow_locked])
  · intro key row hrow
    rw [JsMap.get?_mapValues] at hrow
    obtain ⟨row', hrow', -⟩ := Option.map_eq_some_iff.mp hrow
    exact ⟨row', hrow'⟩

/-! ## Evidence -/

/-- A destination that is new is one of the scopes the evidence was captured for. -/
theorem get?_insertEvidenceScopes {work : SourceWork} {workId : String}
    {evidence : JsMap String EvidenceRow} {epochs : List MemoryEpoch}
    {rows : JsMap (MemoryScope × String) EvidenceScopeRow} {key : MemoryScope × String}
    {row : EvidenceScopeRow}
    (h : (epochs.foldl (insertEvidenceScope work workId evidence) rows).get? key = some row) :
    (∃ row', rows.get? key = some row')
      ∨ ∃ epoch ∈ epochs, key = ({ epoch.scope with tenantId := work.tenantId }, workId) := by
  induction epochs generalizing rows with
  | nil => exact .inl ⟨row, h⟩
  | cons epoch epochs ih =>
      rcases ih h with ⟨row', hrow'⟩ | ⟨other, hother, hkey⟩
      · unfold insertEvidenceScope at hrow'
        split at hrow'
        · rcases get?_insertNew hrow' with hold | ⟨hkey, -⟩
          · exact .inl ⟨row', hold⟩
          · exact .inr ⟨epoch, List.mem_cons_self, hkey⟩
        · exact .inl ⟨row', hrow'⟩
      · exact .inr ⟨other, List.mem_cons_of_mem epoch hother, hkey⟩

/-- What is captured is stored for scopes that were not forgotten since the work item began. -/
theorem captureMemoryEvidence_eq_ok {workId : String} {work : SourceWork} {message : CapturedMessage}
    {scopes : List MemoryScope} {prepared : Option PreparedEvidence}
    (hwork : tables.works.get? workId = some work)
    (h : captureMemoryEvidence env tables workId work message scopes prepared = .ok left) :
    left.works = tables.works ∧ (∀ scope, scopeRow left scope = scopeRow tables scope)
      ∧ left.documents = tables.documents ∧ left.commands = tables.commands
      ∧ (∀ id row, left.evidence.get? id = some row → tables.evidence.get? id = some row
        ∨ id = workId ∧ ∀ scope ∈ row.scopes, StartedSince tables scope workId)
      ∧ ∀ key row, left.evidenceScopes.get? key = some row →
        (∃ row', tables.evidenceScopes.get? key = some row')
          ∨ key.2 = workId ∧ StartedSince tables key.1 workId := by
  have hsame : ∀ middle : MemoryTables, (∃ rows, middle = { tables with scopes := rows }) →
      (∀ id row, middle.evidence.get? id = some row → tables.evidence.get? id = some row
        ∨ id = workId ∧ ∀ scope ∈ row.scopes, StartedSince tables scope workId)
      ∧ ∀ key row, middle.evidenceScopes.get? key = some row →
        (∃ row', tables.evidenceScopes.get? key = some row')
          ∨ key.2 = workId ∧ StartedSince tables key.1 workId := by
    rintro _ ⟨rows, rfl⟩
    exact ⟨fun _ _ hrow => .inl hrow, fun _ row hrow => .inl ⟨row, hrow⟩⟩
  unfold captureMemoryEvidence at h
  cases prepared with
  | none =>
      cases h
      exact ⟨rfl, fun _ => rfl, rfl, rfl, hsame tables ⟨_, rfl⟩⟩
  | some evidence =>
      dsimp only at h
      obtain ⟨⟨locked, middle⟩, hlock, h⟩ := Except.bind_ok (Except.guard_eq_ok_iff.mp h).2
      obtain ⟨⟨rows, rfl⟩, hrows, hlocked⟩ := lockMemoryScopes_eq_ok hlock
      obtain ⟨epochs, hcurrent, h⟩ := Except.bind_ok h
      obtain ⟨work', hwork', rfl⟩ := currentMemoryScopes_eq_ok_iff.mp hcurrent
      have hwork'' : work' = work := Option.some.inj (hwork'.symm.trans hwork)
      subst hwork''
      have hstarted : ∀ epoch ∈ locked.filter (sourceIsCurrent work'),
          StartedSince tables epoch.scope workId := by
        intro epoch hepoch
        obtain ⟨hmem, hcurrent⟩ := List.mem_filter.mp hepoch
        rw [hlocked epoch hmem] at hcurrent
        exact ⟨work', hwork, hcurrent⟩
      split at h
      · cases h
        exact ⟨rfl, hrows, rfl, rfl, hsame _ ⟨rows, rfl⟩⟩
      · cases h
        refine ⟨rfl, hrows, rfl, rfl, ?_, ?_⟩
        · intro id row hrow
          rcases get?_insertNew hrow with hold | ⟨rfl, rfl, -⟩
          · exact .inl hold
          · refine .inr ⟨rfl, fun scope hscope => ?_⟩
            obtain ⟨epoch, hepoch, rfl⟩ := List.mem_map.mp hscope
            exact hstarted epoch hepoch
        · intro key row hrow
          rcases get?_insertEvidenceScopes hrow with hold | ⟨epoch, hepoch, rfl⟩
          · exact .inl hold
          · have htenant : epoch.scope.tenantId = work'.tenantId := by
              have hcurrent := (List.mem_filter.mp hepoch).2
              simp only [sourceIsCurrent, decide_eq_true_eq] at hcurrent
              exact hcurrent.1
            refine .inr ⟨rfl, ?_⟩
            rw [← htenant]
            exact hstarted epoch hepoch

/-! ## Calls -/

/-- What a call is admitted on. -/
structure Admitted (env : MemoryEnv) (tables : MemoryTables) (clock : MemoryClock)
    (scope : MemoryScope) (changes : List MemoryChange) (context : MemoryWriteContext) : Prop where
  lockable : Lockable tables scope
  changes : ∃ ids, parseDocumentChanges env clock.host changes = .ok ids
  provenance : hasProvenance scope context = true
  epoch : (scopeRow tables scope).epoch = context.epoch
  sources : ∀ source ∈ context.sources, ∀ workId, source.work = some workId →
    StartedSince tables scope workId

theorem admitWrite_eq_ok_iff :
    admitWrite env tables clock scope changes context = .ok left ↔
      Admitted env tables clock scope changes context ∧ left = locked tables scope := by
  unfold admitWrite
  rw [Except.guard_eq_ok_iff, Except.bind_eq_ok_iff]
  simp only [Except.guard_eq_ok_iff, Except.bind_eq_ok_iff, lockMemoryScope_eq_ok_iff,
    Bool.not_eq_true', Bool.not_eq_false, not_not]
  constructor
  · rintro ⟨-, ids, hparse, hprovenance, _, ⟨hlockable, rfl⟩, hepoch, _, hsources, h⟩
    cases h
    refine ⟨⟨hlockable, ⟨ids, hparse⟩, hprovenance, hepoch, ?_⟩, rfl⟩
    intro source hsource
    exact checkSource_eq_ok_iff.mp (Except.forM_eq_ok_iff.mp hsources source hsource)
  · rintro ⟨⟨hlockable, ⟨ids, hparse⟩, hprovenance, hepoch, hsources⟩, rfl⟩
    refine ⟨hlockable.1, ids, hparse, hprovenance, _, ⟨hlockable, rfl⟩, hepoch, (), ?_, rfl⟩
    exact Except.forM_eq_ok_iff.mpr fun source hsource =>
      checkSource_eq_ok_iff.mpr (hsources source hsource)

/-- The log holds the command under the epoch of the call. -/
def Recorded (env : MemoryEnv) (tables : MemoryTables) (scope : MemoryScope)
    (changes : List MemoryChange) (context : MemoryWriteContext) (result : MemoryApplyResult) : Prop :=
  tables.commands.get? (scope, context.epoch, context.actionId)
    = some ⟨fingerprint env scope changes context, result⟩

theorem applyMemoryChanges_eq_ok_iff :
    applyMemoryChanges env tables clock scope changes context = .ok (result, left) ↔
      Admitted env tables clock scope changes context
        ∧ (Recorded env tables scope changes context result ∧ left = locked tables scope
          ∨ tables.commands.get? (scope, context.epoch, context.actionId) = none
            ∧ runCommand ⟨env, tables.works, scope, context, clock⟩ (locked tables scope) changes
              = .ok (result, left)) := by
  have hlog : (locked tables scope).commands = tables.commands := rfl
  unfold applyMemoryChanges Recorded
  rw [Except.bind_eq_ok_iff]
  simp only [admitWrite_eq_ok_iff]
  constructor
  · rintro ⟨_, ⟨hadmitted, rfl⟩, h⟩
    refine ⟨hadmitted, ?_⟩
    rw [hlog] at h
    cases hprevious : tables.commands.get? (scope, context.epoch, context.actionId) with
    | none =>
        rw [hprevious] at h
        exact .inr ⟨rfl, h⟩
    | some previous =>
        rw [hprevious] at h
        dsimp only at h
        rw [Except.guard_eq_ok_iff, not_ne_iff] at h
        obtain ⟨hfingerprint, h⟩ := h
        cases h
        exact .inl ⟨by rw [← hfingerprint], rfl⟩
  · rintro ⟨hadmitted, ⟨hprevious, rfl⟩ | ⟨hnone, hrun⟩⟩
    · refine ⟨_, ⟨hadmitted, rfl⟩, ?_⟩
      rw [hlog, hprevious]
      exact if_neg (not_not.mpr rfl)
    · refine ⟨_, ⟨hadmitted, rfl⟩, ?_⟩
      rw [hlog, hnone]
      exact hrun

def withCommand (tables : MemoryTables) (key : MemoryScope × Nat × String) (row : CommandRow) :
    MemoryTables :=
  { tables with commands := tables.commands.set key row }

theorem runCommand_eq_ok_iff {call : MemoryCall} :
    runCommand call tables changes = .ok (result, left) ↔ ∃ documents savedEpoch middle,
      changes.zipIdx.foldlM call.applyChange (⟨[], []⟩, tables.documents) = .ok (result, documents)
        ∧ saveEpoch call { tables with documents := documents } result = .ok (savedEpoch, middle)
        ∧ middle.commands.has (call.scope, savedEpoch, call.context.actionId) = false
        ∧ left = withCommand middle (call.scope, savedEpoch, call.context.actionId)
            ⟨fingerprint call.env call.scope changes call.context, result⟩ := by
  unfold runCommand recordCommand
  simp only [Except.bind_eq_ok_iff, Prod.exists]
  constructor
  · rintro ⟨_, documents, hfold, savedEpoch, middle, hmiddle, _, hrecord, h⟩
    cases h
    rw [Except.guard_eq_ok_iff, Bool.not_eq_true] at hrecord
    exact ⟨documents, savedEpoch, middle, hfold, hmiddle, hrecord.1, (Except.ok.inj hrecord.2).symm⟩
  · rintro ⟨documents, savedEpoch, middle, hfold, hmiddle, hnew, rfl⟩
    refine ⟨result, documents, hfold, savedEpoch, middle, hmiddle, _, ?_, rfl⟩
    exact Except.guard_eq_ok_iff.mpr ⟨by simp [hnew], rfl⟩

/-- What a command leaves: the documents of its changes, its entry in the log, and the scope
    forgotten when it deleted. -/
structure CarriedOut (call : MemoryCall) (changes : List MemoryChange) (tables left : MemoryTables)
    (result : MemoryApplyResult) : Prop where
  batch : changes.zipIdx.foldlM call.applyChange (⟨[], []⟩, tables.documents)
    = .ok (result, left.documents)
  works : left.works = tables.works
  scopes : ∀ scope, scopeRow left scope
    = if scope = call.scope ∧ result.deleted ≠ [] then
        ⟨(scopeRow tables scope).epoch + 1, some call.clock.server⟩
      else scopeRow tables scope
  evidence : left.evidence = tables.evidence ∨ left.evidence = forgottenEvidence tables call.scope
  destinations : ∀ key row, left.evidenceScopes.get? key = some row → ∃ row',
    tables.evidenceScopes.get? key = some row'
  commands : left.commands
    = (if result.deleted ≠ [] then tables.commands.filter fun key _ => key.1 ≠ call.scope
        else tables.commands).set
      (call.scope, if result.deleted ≠ [] then (scopeRow tables call.scope).epoch + 1
        else call.context.epoch, call.context.actionId)
      ⟨fingerprint call.env call.scope changes call.context, result⟩

theorem runCommand_carriedOut {call : MemoryCall}
    (h : runCommand call (locked tables call.scope) changes = .ok (result, left)) :
    CarriedOut call changes tables left result := by
  obtain ⟨documents, savedEpoch, middle, hbatch, hepoch, -, rfl⟩ := runCommand_eq_ok_iff.mp h
  have hrows : ∀ scope, scopeRow { locked tables call.scope with documents := documents } scope
      = scopeRow tables scope := fun scope => scopeRow_locked scope
  unfold saveEpoch at hepoch
  split at hepoch
  · rename_i hdeleted
    obtain ⟨-, rfl, hscopes, hworks, hevidence, hdestinations, hcommands, hdocuments⟩ :=
      forgetMemoryScope_eq_ok hepoch
    simp only [hrows] at hscopes
    refine ⟨?_, hworks, ?_, .inr hevidence, hdestinations, ?_⟩
    · have hleft : documents = middle.documents := hdocuments.symm
      rw [hleft] at hbatch
      exact hbatch
    · intro scope'
      refine (hscopes scope').trans ?_
      by_cases hscope : scope' = call.scope
      · rw [if_pos hscope, if_pos ⟨hscope, hdeleted⟩, hscope]
      · rw [if_neg hscope, if_neg fun h => hscope h.1]
    · rw [if_pos hdeleted, if_pos hdeleted, ← hrows]
      exact congrArg (fun commands : JsMap _ CommandRow => commands.set _ _) hcommands
  · rename_i hdeleted
    cases hepoch
    refine ⟨hbatch, rfl, ?_, .inl rfl, fun _ row hrow => ⟨row, hrow⟩, ?_⟩
    · intro scope'
      rw [if_neg fun h => hdeleted h.2]
      exact hrows scope'
    · rw [if_neg hdeleted, if_neg hdeleted]
      rfl

end Memories

end LingxiOS
