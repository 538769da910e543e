-- SUMMARY: What stays out of a scope once it is forgotten.
import LingxiOS.Memory.Changes

/-! # What Was Forgotten

Every call reads the scope's row under its lock: what it stores rests on work items that
began after the time the row says, and the time and the epoch never go back. -/

namespace LingxiOS

namespace Memories

variable {env : MemoryEnv} {tables tables' later left : MemoryTables} {scope scope' : MemoryScope}
  {clock : MemoryClock} {changes : List MemoryChange} {context : MemoryWriteContext}
  {result : MemoryApplyResult} {epoch : Nat} {t now : Int} {workId : String}

def StartedAfter (tables : MemoryTables) (t : Int) (workId : String) : Prop :=
  ∃ work, tables.works.get? workId = some work ∧ t < work.createdAt

/-- A source that names no work item from before. -/
def Newer (tables : MemoryTables) (t : Int) (source : MemorySource) : Prop :=
  ∀ workId, source.work = some workId → StartedAfter tables t workId

/-- A source of a document of the scope. -/
def Held (tables : MemoryTables) (scope : MemoryScope) (source : MemorySource) : Prop :=
  ∃ key row, tables.documents.get? key = some row ∧ row.scope = scope ∧ source ∈ row.sources

/-- The scope was forgotten at a time under an epoch, and perhaps again. -/
structure Since (scope : MemoryScope) (epoch : Nat) (t : Int) (tables : MemoryTables) : Prop where
  epoch : epoch ≤ (scopeRow tables scope).epoch
  forgotten : ∃ t', (scopeRow tables scope).forgottenAt = some t' ∧ t ≤ t'

/-- What one transaction stored in the scope rests on work items that began after the time, or is
    there already; evidence that was superseded has no text. -/
structure Stored (scope : MemoryScope) (t : Int) (tables tables' : MemoryTables) : Prop where
  evidence : ∀ id row, tables'.evidence.get? id = some row → scope ∈ row.scopes →
    tables.evidence.get? id = some row ∨ row.inputText = "" ∧ row.assistantText = ""
      ∨ StartedAfter tables t id
  destinations : ∀ id row, tables'.evidenceScopes.get? (scope, id) = some row →
    (∃ row', tables.evidenceScopes.get? (scope, id) = some row') ∨ StartedAfter tables t id
  documents : ∀ key row, tables'.documents.get? key = some row → row.scope = scope →
    tables.documents.get? key = some row
      ∨ ∀ source ∈ row.sources, Newer tables t source ∨ Held tables scope source

/-! ## The row of the scope -/

theorem StartedSince.after (h : StartedSince tables scope workId) (hsince : Since scope epoch t tables) :
    StartedAfter tables t workId := by
  obtain ⟨work, hwork, hcurrent⟩ := h
  obtain ⟨t', hforgotten, hle⟩ := hsince.forgotten
  simp only [sourceIsCurrent, epochOf, hforgotten, Option.map_some, Option.all_some,
    decide_eq_true_eq] at hcurrent
  refine ⟨work, hwork, Int.lt_of_le_of_lt hle ?_⟩
  -- a later millisecond is a later microsecond
  by_contra hbefore
  have hmillis : millis work.createdAt ≤ millis t' :=
    Int.ediv_le_ediv (by decide) (not_lt.mp hbefore)
  omega

theorem Since.of_row (hsince : Since scope epoch t tables)
    (h : scopeRow tables' scope = scopeRow tables scope) : Since scope epoch t tables' := by
  obtain ⟨hepoch, hforgotten⟩ := hsince
  exact ⟨by rwa [h], by rwa [h]⟩

theorem Since.of_forget (hsince : Since scope epoch t tables) (hclock : ClockFollows tables now)
    (h : scopeRow tables' scope = ⟨(scopeRow tables scope).epoch + 1, some now⟩) :
    Since scope epoch t tables' := by
  obtain ⟨hepoch, t', hforgotten, hle⟩ := hsince
  refine ⟨?_, now, by rw [h], hle.trans (hclock scope t' hforgotten)⟩
  rw [h]
  exact hepoch.trans (Nat.le_succ _)

/-! ## Each call -/

theorem Stored.of_eq (hevidence : tables'.evidence = tables.evidence)
    (hdestinations : tables'.evidenceScopes = tables.evidenceScopes)
    (hdocuments : tables'.documents = tables.documents) : Stored scope t tables tables' :=
  ⟨fun _ _ h _ => .inl (by rwa [← hevidence]), fun _ row h => .inl ⟨row, by rwa [← hdestinations]⟩,
    fun _ _ h _ => .inl (by rwa [← hdocuments])⟩

theorem get?_forgottenEvidence {id : String} {row : EvidenceRow}
    (h : (forgottenEvidence tables scope).get? id = some row) :
    tables.evidence.get? id = some row ∨ row.inputText = "" ∧ row.assistantText = "" := by
  unfold forgottenEvidence at h
  rw [JsMap.get?_mapValues] at h
  obtain ⟨old, hold, hrow⟩ := Option.map_eq_some_iff.mp h
  split at hrow
  · rw [← hrow]
    exact .inr ⟨rfl, rfl⟩
  · rw [← hrow]
    exact .inl hold

theorem forget_stored {purge : Bool} {epoch : Nat}
    (h : forgetMemoryScope tables now scope' purge = .ok (epoch, left)) : Stored scope t tables left := by
  obtain ⟨-, -, -, -, hevidence, hdestinations, -, hdocuments⟩ := forgetMemoryScope_eq_ok h
  refine ⟨?_, ?_, ?_⟩
  · intro id row hrow _
    rw [hevidence] at hrow
    exact (get?_forgottenEvidence hrow).imp_right .inl
  · exact fun id row hrow => .inl (hdestinations (scope, id) row hrow)
  · intro key row hrow _
    rw [hdocuments] at hrow
    split at hrow
    · rw [JsMap.get?_filter] at hrow
      exact .inl (Option.filter_eq_some_iff.mp hrow).1
    · exact .inl hrow

theorem capture_stored {work : SourceWork} {message : CapturedMessage} {scopes : List MemoryScope}
    {prepared : Option PreparedEvidence} (hsince : Since scope epoch t tables)
    (hwork : tables.works.get? workId = some work)
    (h : captureMemoryEvidence env tables workId work message scopes prepared = .ok left) :
    Stored scope t tables left := by
  obtain ⟨-, -, hdocuments, -, hevidence, hdestinations⟩ := captureMemoryEvidence_eq_ok hwork h
  refine ⟨?_, ?_, fun _ _ hrow _ => .inl (by rwa [← hdocuments])⟩
  · intro id row hrow hscope
    rcases hevidence id row hrow with hold | ⟨rfl, hstarted⟩
    · exact .inl hold
    · exact .inr (.inr ((hstarted scope hscope).after hsince))
  · intro id row hrow
    rcases hdestinations _ row hrow with hold | ⟨rfl, hstarted⟩
    · exact .inl hold
    · exact .inr (hstarted.after hsince)

theorem apply_stored (hsince : Since scope epoch t tables)
    (h : applyMemoryChanges env tables clock scope' changes context = .ok (result, left)) :
    Stored scope t tables left := by
  obtain ⟨hadmitted, ⟨-, rfl⟩ | ⟨-, hrun⟩⟩ := applyMemoryChanges_eq_ok_iff.mp h
  · exact .of_eq rfl rfl rfl
  · obtain ⟨hbatch, -, -, hevidence, hdestinations, -⟩ := runCommand_carriedOut hrun
    refine ⟨?_, ?_, ?_⟩
    · intro id row hrow _
      rcases hevidence with hsame | hforgotten
      · rw [hsame] at hrow
        exact .inl hrow
      · rw [hforgotten] at hrow
        exact (get?_forgottenEvidence hrow).imp_right .inl
    · exact fun id row hrow => .inl (hdestinations (scope, id) row hrow)
    · intro key row hrow hscope
      obtain ⟨-, -, hsourced⟩ := MemoryCall.applyChanges_answered hbatch
      rcases hsourced key row hrow with hold | ⟨hscope', hsources⟩
      · exact .inl hold
      · have hsame : scope' = scope := hscope'.symm.trans hscope
        subst hsame
        refine .inr fun source hsource => (hsources source hsource).imp_left fun hcall workId hwork => ?_
        exact (hadmitted.sources source hcall workId hwork).after hsince

/-! ## Any order of calls -/

/-- A scope's row only changes when it is forgotten: the epoch moves on, and the time is the
    server's. -/
def RowKept (scope : MemoryScope) (tables tables' : MemoryTables) : Prop :=
  scopeRow tables' scope = scopeRow tables scope ∨ ∃ now, ClockFollows tables now
    ∧ scopeRow tables' scope = ⟨(scopeRow tables scope).epoch + 1, some now⟩

theorem RowKept.since (h : RowKept scope tables tables') (hsince : Since scope epoch t tables) :
    Since scope epoch t tables' := by
  rcases h with hsame | ⟨now, hclock, hrow⟩
  · exact hsince.of_row hsame
  · exact hsince.of_forget hclock hrow

theorem RowKept.epoch_le (h : RowKept scope tables tables') :
    (scopeRow tables scope).epoch ≤ (scopeRow tables' scope).epoch := by
  rcases h with hsame | ⟨now, -, hrow⟩
  · rw [hsame]
  · rw [hrow]
    exact Nat.le_succ _

theorem step_kept {event : MemoryEvent} (hstep : (memorySystem env).step tables event tables') :
    RowKept scope tables tables'
      ∧ ∀ id work, tables.works.get? id = some work → tables'.works.get? id = some work := by
  have hrolledBack : RowKept scope tables tables
      ∧ ∀ id work, tables.works.get? id = some work → tables.works.get? id = some work :=
    ⟨.inl rfl, fun _ _ h => h⟩
  cases event with
  | forget now scope' purge =>
      obtain ⟨hclock, hstep⟩ := hstep
      split at hstep
      · rename_i epoch' left hforget
        cases hstep
        obtain ⟨-, rfl, hscopes, hworks, -⟩ := forgetMemoryScope_eq_ok hforget
        refine ⟨?_, fun _ _ h => by rwa [hworks]⟩
        by_cases hscope : scope = scope'
        · subst hscope
          exact .inr ⟨now, hclock, by rw [hscopes, if_pos rfl]⟩
        · exact .inl (by rw [hscopes, if_neg hscope])
      · cases hstep
        exact hrolledBack
  | capture workId message scopes prepared =>
      obtain ⟨work, hwork, hstep⟩ := hstep
      split at hstep
      · rename_i left hcapture
        cases hstep
        obtain ⟨hworks, hrows, -⟩ := captureMemoryEvidence_eq_ok hwork hcapture
        exact ⟨.inl (hrows scope), fun _ _ h => by rwa [hworks]⟩
      · cases hstep
        exact hrolledBack
  | apply clock scope' changes context =>
      obtain ⟨hclock, hstep⟩ := hstep
      split at hstep
      · rename_i result left happly
        cases hstep
        obtain ⟨-, ⟨-, rfl⟩ | ⟨-, hrun⟩⟩ := applyMemoryChanges_eq_ok_iff.mp happly
        · exact ⟨.inl (scopeRow_locked scope), fun _ _ h => h⟩
        · obtain ⟨-, hworks, hscopes, -⟩ := runCommand_carriedOut hrun
          refine ⟨?_, fun _ _ h => by rwa [hworks]⟩
          unfold RowKept
          rw [hscopes]
          split
          · exact .inr ⟨clock.server, hclock, rfl⟩
          · exact .inl rfl
      · cases hstep
        exact hrolledBack
  | work =>
      obtain ⟨hworks, works, requests, rfl⟩ := hstep
      exact ⟨.inl rfl, hworks⟩

theorem step_stored {event : MemoryEvent} (hsince : Since scope epoch t tables)
    (hstep : (memorySystem env).step tables event tables') : Stored scope t tables tables' := by
  cases event with
  | forget now scope' purge =>
      obtain ⟨-, hstep⟩ := hstep
      split at hstep
      · rename_i epoch' left hforget
        cases hstep
        exact forget_stored hforget
      · cases hstep
        exact .of_eq rfl rfl rfl
  | capture workId message scopes prepared =>
      obtain ⟨work, hwork, hstep⟩ := hstep
      split at hstep
      · rename_i left hcapture
        cases hstep
        exact capture_stored hsince hwork hcapture
      · cases hstep
        exact .of_eq rfl rfl rfl
  | apply clock scope' changes context =>
      obtain ⟨-, hstep⟩ := hstep
      split at hstep
      · rename_i result left happly
        cases hstep
        exact apply_stored hsince happly
      · cases hstep
        exact .of_eq rfl rfl rfl
  | work =>
      obtain ⟨-, works, requests, rfl⟩ := hstep
      exact .of_eq rfl rfl rfl

/-- The epoch of a scope never goes back. -/
theorem run_epoch_le {events : List MemoryEvent}
    (hrun : (memorySystem env).Run tables events later) :
    (scopeRow tables scope).epoch ≤ (scopeRow later scope).epoch :=
  hrun.preserves (I := fun state => (scopeRow tables scope).epoch ≤ (scopeRow state scope).epoch)
    (fun hle hstep => hle.trans (step_kept hstep).1.epoch_le) le_rfl

theorem run_since {events : List MemoryEvent} (hsince : Since scope epoch t tables)
    (hrun : (memorySystem env).Run tables events later) : Since scope epoch t later :=
  hrun.preserves (I := Since scope epoch t)
    (fun hsince hstep => (step_kept hstep).1.since hsince) hsince

/-- A scope without a source from before, as a purge leaves it, gets none. -/
theorem run_newer {events : List MemoryEvent} (hsince : Since scope epoch t tables)
    (hnewer : ∀ source, Held tables scope source → Newer tables t source)
    (hrun : (memorySystem env).Run tables events later) :
    ∀ source, Held later scope source → Newer later t source := by
  refine (hrun.preserves (I := fun tables => Since scope epoch t tables
    ∧ ∀ source, Held tables scope source → Newer tables t source) ?_ ⟨hsince, hnewer⟩).2
  rintro tables event tables' ⟨hsince, hnewer⟩ hstep
  obtain ⟨hrow, hworks⟩ : RowKept scope tables tables' ∧ _ := step_kept hstep
  have hlater : ∀ source, Newer tables t source → Newer tables' t source := by
    intro source hsource workId hwork
    obtain ⟨work, hstarted, hlt⟩ := hsource workId hwork
    exact ⟨work, hworks workId work hstarted, hlt⟩
  refine ⟨hrow.since hsince, ?_⟩
  rintro source ⟨key, row, hrow, hscope, hmem⟩
  rcases (step_stored hsince hstep).documents key row hrow hscope with hold | hsources
  · exact hlater source (hnewer source ⟨key, row, hold, hscope, hmem⟩)
  · rcases hsources source hmem with hnew | hheld
    · exact hlater source hnew
    · exact hlater source (hnewer source hheld)

/-- What holds of every transaction on a scope once it was forgotten at a time under an epoch. -/
structure Stays (env : MemoryEnv) (scope : MemoryScope) (epoch : Nat) (t : Int)
    (tables : MemoryTables) : Prop where
  stored : ∀ event tables', (memorySystem env).step tables event tables' →
    Stored scope t tables tables'
  admitted : ∀ clock changes context result left,
    applyMemoryChanges env tables clock scope changes context = .ok (result, left) →
    epoch ≤ context.epoch ∧ ∀ source ∈ context.sources, Newer tables t source
  forgets : ∀ now purge epoch' left, forgetMemoryScope tables now scope purge = .ok (epoch', left) →
    (scopeRow tables scope).epoch < epoch' ∧ scopeRow left scope = ⟨epoch', some now⟩
  epochs : ∀ event tables', (memorySystem env).step tables event tables' →
    scopeRow tables' scope ≠ scopeRow tables scope →
    (scopeRow tables scope).epoch < (scopeRow tables' scope).epoch

theorem Since.stays (h : Since scope epoch t tables) : Stays env scope epoch t tables := by
  refine ⟨fun _ _ hstep => step_stored h hstep, ?_, ?_, ?_⟩
  · intro clock changes context result left happly
    obtain ⟨hadmitted, -⟩ := applyMemoryChanges_eq_ok_iff.mp happly
    refine ⟨hadmitted.epoch ▸ h.epoch, fun source hsource workId hwork => ?_⟩
    exact (hadmitted.sources source hsource workId hwork).after h
  · intro now purge epoch' left hforget
    obtain ⟨-, rfl, hscopes, -⟩ := forgetMemoryScope_eq_ok hforget
    exact ⟨Nat.lt_succ_self _, by rw [hscopes, if_pos rfl]⟩
  · intro event tables' hstep hchanged
    obtain ⟨now, -, hrow⟩ := (step_kept hstep).1.resolve_left hchanged
    rw [hrow]
    exact Nat.lt_succ_self _

/-- **A transaction that forgets a scope moves its epoch past every earlier one; from then on no
    transaction stores in the scope the text of a work item from before, or a change that names
    one as its source, none succeeds under an earlier epoch, and a scope that was purged never
    again has a document with a source from before.** -/
theorem forgotten_stays {earlier before : MemoryTables} {past events : List MemoryEvent}
    {event : MemoryEvent} (hpast : (memorySystem env).Run earlier past before)
    (hstep : (memorySystem env).step before event tables)
    (hforgets : scopeRow tables scope ≠ scopeRow before scope)
    (hrun : (memorySystem env).Run tables events later) :
    (scopeRow earlier scope).epoch < (scopeRow tables scope).epoch
      ∧ ∃ t, (scopeRow tables scope).forgottenAt = some t
        ∧ Stays env scope (scopeRow tables scope).epoch t later
        ∧ ((∀ source, Held tables scope source → Newer tables t source) →
          ∀ source, Held later scope source → Newer later t source) := by
  obtain ⟨t, -, hrow⟩ := (step_kept hstep).1.resolve_left hforgets
  have hsince : Since scope (scopeRow tables scope).epoch t tables :=
    ⟨le_rfl, t, by rw [hrow], le_rfl⟩
  refine ⟨?_, t, by rw [hrow], (run_since hsince hrun).stays,
    fun hnewer => run_newer hsince hnewer hrun⟩
  rw [hrow]
  exact Nat.lt_succ_of_le (run_epoch_le hpast)

private def plainEnv : MemoryEnv where
  memoryDigest
    | .source source => "source:" ++ source.sourceRef
    | .command _ _ _ _ _ => "command"
    | .document _ epoch actionId index => actionId ++ ":" ++ toString epoch ++ ":" ++ toString index
    | .evidence _ body _ => "evidence:" ++ body
  isNfc _ := true
  dateParse _ := none
  localeLe a b := a ≤ b

private def team : MemoryScope := ⟨"t1", "project", "p1"⟩

private def workAt (createdAt : Int) : SourceWork := ⟨"t1", "a1", "u1", "s1", createdAt⟩

/-- A work item that began in the first second, and one that began in the ninth. -/
private def twoWorks : MemoryTables where
  works := (JsMap.empty.set "w1" (workAt 1000000)).set "w2" (workAt 9000000)
  requests := .empty
  scopes := .empty
  evidence := .empty
  evidenceScopes := .empty
  documents := .empty
  commands := .empty

private def afterForget : MemoryTables := { twoWorks with scopes := JsMap.empty.set team ⟨1, some 5000000⟩ }

private def writeFrom (workId : String) (epoch : Nat) : MemoryWriteContext where
  identity := ⟨"t1", "a1", "u1", "s1", none, none⟩
  actionId := "write"
  epoch := epoch
  sources := [{ sourceRef := "m1", authorId := "u1", workId := some workId }]
  explicit := true
  writeBody input := .ok input.body

private def tenSeconds : MemoryClock := ⟨10000000, 10000000, 10000⟩

private def noteChange : MemoryChange :=
  .create ⟨"notes/a.md", "Note", "A note.", "Use npm.", .reference, none, none, none⟩

private def writeNote (workId : String) (epoch : Nat) :
    Except String (MemoryApplyResult × MemoryTables) :=
  applyMemoryChanges plainEnv afterForget tenSeconds team [noteChange] (writeFrom workId epoch)

/-- The scope is forgotten in the fifth second: a write on the newer work item goes through then,
    and one on the older, or under the older epoch, does not. -/
theorem forgotten_write_stays : (memorySystem plainEnv).step twoWorks (.forget 5000000 team true) afterForget
    ∧ (writeNote "w1" 1).isOk = false ∧ (writeNote "w2" 0).isOk = false
    ∧ ∃ result later, writeNote "w2" 1 = .ok (result, later) ∧ Stays plainEnv team 1 5000000 later := by
  have hforget : (memorySystem plainEnv).step twoWorks (.forget 5000000 team true) afterForget :=
    ⟨nofun, rfl⟩
  refine ⟨hforget, by decide +kernel, by decide +kernel, ?_⟩
  have hok : (writeNote "w2" 1).isOk = true := by decide +kernel
  cases hwrite : writeNote "w2" 1 with
  | error _ =>
      rw [hwrite] at hok
      cases hok
  | ok answer =>
      have hclock : ClockFollows afterForget tenSeconds.server := by
        intro scope forgotten h
        simp only [scopeRow, afterForget, JsMap.get?_set, JsMap.get?_empty] at h
        split at h
        · cases h
          decide
        · cases h
      have hstep : (memorySystem plainEnv).step afterForget
          (.apply tenSeconds team [noteChange] (writeFrom "w2" 1)) answer.2 := by
        refine ⟨hclock, ?_⟩
        rw [writeNote] at hwrite
        rw [hwrite]
      have hmoved : scopeRow afterForget team ≠ scopeRow twoWorks team := by decide +kernel
      obtain ⟨-, t, ht, hstays, -⟩ :=
        forgotten_stays (.refl twoWorks) hforget hmoved (.single hstep)
      cases ht
      exact ⟨answer.1, answer.2, rfl, hstays⟩

/-- A scope that is forgotten but not purged keeps what rests on the older work item. -/
example : ((applyMemoryChanges plainEnv twoWorks tenSeconds team [noteChange] (writeFrom "w1" 0)).bind
    fun answer => forgetMemoryScope answer.2 11000000 team false).toOption.any (fun forgotten =>
      forgotten.2.documents.values.any fun row =>
        row.scope = team ∧ row.sources.any fun source => source.work = some "w1") = true := by
  decide +kernel

end Memories

end LingxiOS
