-- SUMMARY: Workspace checkpoints: each built on the one before it.
import LingxiOS.ControlPlane.PgSteps

/-! # Workspace Checkpoints

The checkpoint of a session is a versioned cell, and the saves that commit one form
a chain over it. A save that is repeated finds its own checkpoint and its own record
and commits nothing. -/

namespace LingxiOS

namespace PgStepStore

variable {codec : StepCodec} {tables tables' : PgStepTables} {now : Int} {proof : LeaseProof}
  {step : PgStep} {key : String}

/-! ## The record -/

theorem saveRecord_cases (codec : StepCodec) (tables : PgStepTables) (now : Int)
    (proof : LeaseProof) (step : PgStep) :
    (∃ e, saveRecord codec tables now proof step = (.error e, tables))
      ∨ storable step = true ∧ recordable codec tables now proof step = true
        ∧ saveRecord codec tables now proof step
          = (.ok (), recorded codec tables now proof.id step) := by
  unfold saveRecord
  by_cases hstorable : storable step = true
  · by_cases hrecordable : recordable codec tables now proof step = true
    · right
      simp [hstorable, hrecordable]
    · left
      exact ⟨"step identity changed or attempt no longer owns this request",
        by simp [hstorable, hrecordable]⟩
  · left
    exact ⟨"unsupported Unicode escape sequence", by simp [hstorable]⟩

@[simp] theorem recorded_checkpoints (workId : String) :
    (recorded codec tables now workId step).checkpoints = tables.checkpoints := rfl

/-- The row holds what the step says, whenever it was stored. -/
structure Records (codec : StepCodec) (step : PgStep) (row : PgStepRow) : Prop where
  requestVersion : row.requestVersion = step.requestVersion
  kind : row.kind = step.kind
  inputHash : row.inputHash = codec.sha256 (Json.obj step.input).stringify
  output : row.output = step.output
  artifacts : row.artifacts = step.artifacts
  progressHash : row.progressHash = PgStepStore.progressHash codec step.artifacts step.output
  workspaceCheckpoint : row.workspaceCheckpoint = step.workspace

theorem holds_replaces {row excluded : PgStepRow} :
    Sql.holds (replaces row excluded) = true ↔
      row.requestVersion = excluded.requestVersion ∧ row.kind = excluded.kind
        ∧ row.inputHash = excluded.inputHash
        ∧ (row.output = none ∨ Sql.holds (Sql.eq row.output excluded.output) = true
          ∧ row.artifacts = excluded.artifacts
          ∧ row.workspaceCheckpoint = excluded.workspaceCheckpoint) := by
  simp [replaces]

theorem Records.replaces {row : PgStepRow} (h : Records codec step row) :
    Sql.holds (replaces row (rowOf codec now step)) = true := by
  rw [holds_replaces]
  refine ⟨h.requestVersion, h.kind, h.inputHash, ?_⟩
  cases houtput : row.output with
  | none => exact .inl rfl
  | some output =>
      right
      have hsame : (rowOf codec now step).output = some output := h.output.symm.trans houtput
      exact ⟨by simp [hsame], h.artifacts, h.workspaceCheckpoint⟩

/-- A step recorded again changes the instant of its completion only. -/
theorem Records.upserted {row : PgStepRow} (h : Records codec step row) :
    upserted (some row) (rowOf codec now step)
      = { row with completedAt := step.output.map fun _ => now } := by
  simp [PgStepStore.upserted, rowOf, ← h.output, ← h.artifacts, ← h.workspaceCheckpoint, h.progressHash]

/-- An accepted step is stored as it is. -/
theorem records_recorded (codec : StepCodec) (tables : PgStepTables) (now : Int) (proof : LeaseProof)
    (step : PgStep) (h : recordable codec tables now proof step = true) :
    ∃ row, (recorded codec tables now proof.id step).steps.get? (proof.id, step.id) = some row
      ∧ Records codec step row := by
  refine ⟨PgStepStore.upserted (tables.steps.get? (proof.id, step.id)) (rowOf codec now step), ?_, ?_⟩
  · simp [recorded]
  · rw [recordable, Bool.and_eq_true] at h
    cases hprior : tables.steps.get? (proof.id, step.id) with
    | none => exact ⟨rfl, rfl, rfl, rfl, rfl, rfl, rfl⟩
    | some row =>
        rw [hprior, Option.all_some, holds_replaces] at h
        obtain ⟨-, hversion, hkind, hhash, -⟩ := h
        exact ⟨hversion, hkind, hhash, rfl, rfl, rfl, rfl⟩

/-- A completed record is stored again only as it is. -/
theorem Records.kept {id : String × String} {row : PgStepRow} (now : Int) {other : PgStep}
    (hrow : tables.steps.get? id = some row) (h : Records codec step row)
    (hcompleted : step.output.isSome = true)
    (hrecordable : recordable codec tables now proof other = true) :
    ∃ row', (recorded codec tables now proof.id other).steps.get? id = some row'
      ∧ Records codec step row' := by
  by_cases hid : id = (proof.id, other.id)
  · subst hid
    rw [recordable, Bool.and_eq_true, hrow, Option.all_some, holds_replaces] at hrecordable
    obtain ⟨-, hversion, hkind, hhash, hsame⟩ := hrecordable
    have hnull : row.output ≠ none := by
      rw [h.output]
      exact Option.isSome_iff_ne_none.1 hcompleted
    obtain ⟨houtput, hartifacts, hworkspace⟩ := hsame.resolve_left hnull
    have houtput : row.output = other.output := by
      cases hother : other.output with
      | none => simp [rowOf, hother] at houtput
      | some output => simpa [rowOf, hother] using houtput
    have hartifacts : row.artifacts = other.artifacts := hartifacts
    have hworkspace : row.workspaceCheckpoint = other.workspace := hworkspace
    refine ⟨PgStepStore.upserted (some row) (rowOf codec now other), ?_, ?_⟩
    · simp [recorded, hrow]
    · exact {
        requestVersion := h.requestVersion
        kind := h.kind
        inputHash := h.inputHash
        output := houtput.symm.trans h.output
        artifacts := hartifacts.symm.trans h.artifacts
        progressHash := by
          change PgStepStore.progressHash codec other.artifacts other.output = _
          rw [← hartifacts, ← houtput, h.artifacts, h.output]
        workspaceCheckpoint := hworkspace.symm.trans h.workspaceCheckpoint }
  · exact ⟨row, by rw [recorded, JsMap.get?_set_of_ne _ hid, hrow], h⟩

/-- A step recorded again makes no progress. -/
theorem Records.not_progressed {row : PgStepRow}
    (hrow : tables.steps.get? (proof.id, step.id) = some row) (h : Records codec step row) :
    progressed tables proof.id (rowOf codec now step) = false := by
  have hentry : ((proof.id, step.id), row) ∈ tables.steps.entries := JsMap.get?_eq_some_iff.1 hrow
  have hany : (tables.steps.entries.any fun entry =>
      entry.1.1 == proof.id && entry.2.requestVersion == (rowOf codec now step).requestVersion
        && entry.2.progressHash == (rowOf codec now step).progressHash) = true := by
    rw [List.any_eq_true]
    exact ⟨_, hentry, by simp [rowOf, h.requestVersion, h.progressHash]⟩
  simp [progressed, hany]

/-! ## The checkpoint -/

/-- The key and the checkpoint an event commits. -/
def commits (codec : StepCodec) (tables : PgStepTables) :
    Event → Option (String × WorkspaceCheckpoint)
  | .others _ _ => none
  | .save now proof step =>
      match step.workspace, owned tables now proof with
      | some checkpoint, some work =>
          let key := sessionKeyOf work.toRow.sessionKey
          if (save codec tables now proof step).1.isOk
              && !repeated (tables.checkpoints.get? key) proof step checkpoint then
            some (key, checkpoint)
          else none
      | _, _ => none

/-- The checkpoint of a session as a versioned cell. -/
def cell (tables : PgStepTables) (key : String) : Versioned.Cell (List WorkspaceEntry) where
  version := generation (tables.checkpoints.get? key)
  content := (tables.checkpoints.get? key).map PgWorkspaceRow.entries

/-- The row a commit writes. -/
def committedRow (proof : LeaseProof) (step : PgStep) (checkpoint : WorkspaceCheckpoint)
    (generation : Nat) : PgWorkspaceRow where
  generation := generation
  entries := checkpoint.entries
  workId := proof.id
  fence := proof.fence
  requestVersion := step.requestVersion
  stepId := step.id

theorem insertCheckpoint_cases (tables : PgStepTables) (key : String) (row : PgWorkspaceRow) :
    (∃ e, insertCheckpoint tables key row = (.error e, tables))
      ∨ insertCheckpoint tables key row
        = (.ok (), { tables with checkpoints := tables.checkpoints.set key row }) := by
  unfold insertCheckpoint
  split
  · exact .inr rfl
  · exact .inl ⟨_, rfl⟩

/-- What one save does: nothing, record its step, or record it and commit. -/
inductive Saved (codec : StepCodec) (tables : PgStepTables) (now : Int) (proof : LeaseProof)
    (step : PgStep) : Prop where
  | rejected (e : String) (hsave : save codec tables now proof step = (.error e, tables))
      (hcommits : commits codec tables (.save now proof step) = none)
  | recorded (hstorable : storable step = true)
      (hrecordable : recordable codec tables now proof step = true)
      (hsave : save codec tables now proof step
        = (.ok (), PgStepStore.recorded codec tables now proof.id step))
      (hcommits : commits codec tables (.save now proof step) = none)
  | committed (work : PgWorkRow) (checkpoint : WorkspaceCheckpoint)
      (hworkspace : step.workspace = some checkpoint)
      (howned : owned tables now proof = some work) (hstorable : storable step = true)
      (hrecordable : recordable codec tables now proof step = true)
      (hbase : checkpoint.baseGeneration
        = generation (tables.checkpoints.get? (sessionKeyOf work.toRow.sessionKey)))
      (hsave : save codec tables now proof step
        = (.ok (), { PgStepStore.recorded codec tables now proof.id step with
            checkpoints := tables.checkpoints.set (sessionKeyOf work.toRow.sessionKey)
              (committedRow proof step checkpoint
                (generation (tables.checkpoints.get? (sessionKeyOf work.toRow.sessionKey)) + 1)) }))
      (hcommits : commits codec tables (.save now proof step)
        = some (sessionKeyOf work.toRow.sessionKey, checkpoint))

theorem saved (codec : StepCodec) (tables : PgStepTables) (now : Int) (proof : LeaseProof)
    (step : PgStep) : Saved codec tables now proof step := by
  cases hworkspace : step.workspace with
  | none =>
      have hsave : save codec tables now proof step = saveRecord codec tables now proof step := by
        simp [save, hworkspace]
      rcases saveRecord_cases codec tables now proof step with ⟨e, hrecord⟩ | ⟨hstorable, hrecordable, hrecord⟩
      · exact .rejected e (hsave.trans hrecord) (by simp [commits, hworkspace])
      · exact .recorded hstorable hrecordable (hsave.trans hrecord) (by simp [commits, hworkspace])
  | some checkpoint =>
      have hsave : save codec tables now proof step = withTransaction
          (fun tables => saveCheckpoint codec tables now proof step checkpoint) tables := by
        simp [save, hworkspace]
      cases howned : owned tables now proof with
      | none =>
          refine .rejected "workspace attempt no longer owns this request" ?_ ?_
          · simp [hsave, withTransaction, saveCheckpoint, howned]
          · simp [commits, hworkspace, howned]
      | some work =>
          set key := sessionKeyOf work.toRow.sessionKey with hkey
          set previous := tables.checkpoints.get? key with hprevious
          by_cases hrepeated : repeated previous proof step checkpoint = true
          · -- The checkpoint stands already; only the record is written.
            have hcommits : commits codec tables (.save now proof step) = none := by
              simp [commits, hworkspace, howned, ← hkey, ← hprevious, hrepeated]
            rcases saveRecord_cases codec tables now proof step with ⟨e, hrecord⟩ | ⟨hstorable, hrecordable, hrecord⟩
            · refine .rejected e ?_ hcommits
              simp [hsave, withTransaction, saveCheckpoint, howned, ← hkey, ← hprevious, hrepeated,
                hrecord]
            · refine .recorded hstorable hrecordable ?_ hcommits
              simp [hsave, withTransaction, saveCheckpoint, howned, ← hkey, ← hprevious, hrepeated,
                hrecord]
          · have hrejected : ∀ e, save codec tables now proof step = (.error e, tables) →
                Saved codec tables now proof step := by
              intro e he
              exact .rejected e he (by simp [commits, hworkspace, howned, he, Except.isOk,
                Except.toBool])
            by_cases hbase : (generation previous : Int) = checkpoint.baseGeneration
            · rcases saveRecord_cases codec tables now proof step with ⟨e, hrecord⟩ | ⟨hstorable, hrecordable, hrecord⟩
              · refine hrejected e ?_
                simp [hsave, withTransaction, saveCheckpoint, howned, ← hkey, ← hprevious,
                  hrepeated, hbase, hrecord]
              · have hbody : saveCheckpoint codec tables now proof step checkpoint
                    = insertCheckpoint (PgStepStore.recorded codec tables now proof.id step) key
                      (committedRow proof step checkpoint (generation previous + 1)) := by
                  simp [saveCheckpoint, howned, ← hkey, ← hprevious, hrepeated, hbase, hrecord,
                    committedRow]
                rcases insertCheckpoint_cases (PgStepStore.recorded codec tables now proof.id step) key
                  (committedRow proof step checkpoint (generation previous + 1)) with
                  ⟨e, hinsert⟩ | hinsert
                · exact hrejected e (by simp [hsave, withTransaction, hbody, hinsert])
                · have hok := hsave
                  rw [withTransaction, hbody, hinsert] at hok
                  refine .committed work checkpoint hworkspace howned hstorable hrecordable
                    hbase.symm hok ?_
                  simp [commits, hworkspace, howned, hok, Except.isOk, Except.toBool, ← hkey,
                    ← hprevious, hrepeated]
            · refine hrejected "workspace generation changed" ?_
              simp [hsave, withTransaction, saveCheckpoint, howned, ← hkey, ← hprevious, hrepeated,
                hbase]

/-! ## Runs -/

/-- What the events commit under a key, in order. -/
def history (codec : StepCodec) (key : String) :
    PgStepTables → List Event → List (Versioned.Commit (List WorkspaceEntry))
  | _, [] => []
  | tables, event :: events =>
      (match commits codec tables event with
        | some (key', checkpoint) =>
            if key' = key then [⟨checkpoint.baseGeneration, checkpoint.entries⟩] else []
        | none => []) ++ history codec key (next codec tables event) events

@[simp] theorem run_nil : run codec tables [] = tables := rfl

@[simp] theorem run_cons (event : Event) (events : List Event) :
    run codec tables (event :: events) = run codec (next codec tables event) events := rfl

/-- One event moves the checkpoint of a key by what it commits there. -/
theorem checkpoints_next (codec : StepCodec) (tables : PgStepTables) (event : Event) :
    (commits codec tables event = none ∧ (next codec tables event).checkpoints = tables.checkpoints)
      ∨ ∃ key checkpoint row, commits codec tables event = some (key, checkpoint)
        ∧ checkpoint.baseGeneration = (cell tables key).version
        ∧ row.generation = (cell tables key).version + 1 ∧ row.entries = checkpoint.entries
        ∧ (next codec tables event).checkpoints = tables.checkpoints.set key row := by
  cases event with
  | others work sessions => exact .inl ⟨rfl, rfl⟩
  | save now proof step =>
      rcases saved codec tables now proof step with ⟨e, hsave, hcommits⟩
        | ⟨-, -, hsave, hcommits⟩ | ⟨work, checkpoint, -, -, -, -, hbase, hsave, hcommits⟩
      · exact .inl ⟨hcommits, by rw [next, hsave]⟩
      · exact .inl ⟨hcommits, by rw [next, hsave, recorded_checkpoints]⟩
      · exact .inr ⟨_, checkpoint, _, hcommits, hbase, rfl, rfl, by rw [next, hsave]⟩

theorem chain_run (key : String) (tables : PgStepTables) (events : List Event) :
    Versioned.Chain (cell tables key) (history codec key tables events)
      (cell (run codec tables events) key) := by
  induction events generalizing tables with
  | nil => rfl
  | cons event events ih =>
      have hrest := ih (next codec tables event)
      rw [run_cons, history]
      rcases checkpoints_next codec tables event with ⟨hcommits, hsame⟩
        | ⟨key', checkpoint, row, hcommits, hbase, hgeneration, hentries, hset⟩
      · simpa [hcommits, cell, hsame] using hrest
      · by_cases hkey : key' = key
        · subst hkey
          have hcell : cell (next codec tables event) key'
              = (cell tables key').commit ⟨checkpoint.baseGeneration, checkpoint.entries⟩ := by
            simp [cell, hset, Versioned.Cell.commit, generation, hentries, hgeneration]
          rw [hcell] at hrest
          simpa [hcommits, Versioned.Chain] using ⟨hbase, hrest⟩
        · have hcell : cell (next codec tables event) key = cell tables key := by
            simp [cell, hset, JsMap.get?_set_of_ne _ (Ne.symm hkey)]
          rw [hcell] at hrest
          simpa [hcommits, hkey] using hrest

/-- Where nothing is committed under a key, its row stays. -/
theorem row_kept (events : List Event) (tables : PgStepTables)
    (h : history codec key tables events = []) :
    (run codec tables events).checkpoints.get? key = tables.checkpoints.get? key := by
  induction events generalizing tables with
  | nil => rfl
  | cons event events ih =>
      rw [history, List.append_eq_nil_iff] at h
      rw [run_cons, ih _ h.2]
      rcases checkpoints_next codec tables event with ⟨-, hsame⟩
        | ⟨key', checkpoint, row, hcommits, -, -, -, hset⟩
      · rw [hsame]
      · have hkey : key ≠ key' := by
          rintro rfl
          simp [hcommits] at h
        rw [hset, JsMap.get?_set_of_ne _ hkey]

/-- A completed record stays as it is, its instant aside. -/
theorem record_kept {id : String × String} (events : List Event) (tables : PgStepTables)
    {row : PgStepRow} (hrow : tables.steps.get? id = some row) (h : Records codec step row)
    (hcompleted : step.output.isSome = true) :
    ∃ row', (run codec tables events).steps.get? id = some row' ∧ Records codec step row' := by
  induction events generalizing tables row with
  | nil => exact ⟨row, hrow, h⟩
  | cons event events ih =>
      rw [run_cons]
      cases event with
      | others work sessions => exact ih _ hrow h
      | save now proof other =>
          rcases saved codec tables now proof other with ⟨e, hsave, -⟩
            | ⟨-, hrecordable, hsave, -⟩ | ⟨work, checkpoint, -, -, -, hrecordable, -, hsave, -⟩
          · exact ih _ (by rw [next, hsave]; exact hrow) h
          · obtain ⟨row', hrow', h'⟩ := Records.kept now hrow h hcompleted hrecordable
            exact ih _ (by rw [next, hsave]; exact hrow') h'
          · obtain ⟨row', hrow', h'⟩ := Records.kept now hrow h hcompleted hrecordable
            exact ih _ (by rw [next, hsave]; exact hrow') h'

/-- A save whose checkpoint and record stand is accepted and moves the instant of
    completion only. -/
theorem save_repeated {work : PgWorkRow} {checkpoint : WorkspaceCheckpoint} {row : PgStepRow}
    {stored : PgWorkspaceRow} (hworkspace : step.workspace = some checkpoint)
    (hstorable : storable step = true) (howned : owned tables now proof = some work)
    (hversion : work.steerInputs.length + 1 = step.requestVersion)
    (hstored : tables.checkpoints.get? (sessionKeyOf work.toRow.sessionKey) = some stored)
    (hrepeated : repeated (some stored) proof step checkpoint = true)
    (hrow : tables.steps.get? (proof.id, step.id) = some row) (h : Records codec step row) :
    save codec tables now proof step = (.ok (), { tables with
      steps := tables.steps.set (proof.id, step.id)
        { row with completedAt := step.output.map fun _ => now } }) := by
  have hrecordable : recordable codec tables now proof step = true := by
    simp [recordable, howned, hversion, hrow, h.replaces]
  have hrecorded : recorded codec tables now proof.id step = { tables with
      steps := tables.steps.set (proof.id, step.id)
        { row with completedAt := step.output.map fun _ => now } } := by
    rw [recorded, hrow, h.upserted]
    simp [h.not_progressed hrow]
  simp [save, hworkspace, withTransaction, saveCheckpoint, howned, hstored, hrepeated, saveRecord,
    hstorable, hrecordable, hrecorded]

/-! ## What is guaranteed -/

/-- What holds of the checkpoints along every run of saves. -/
structure CheckpointsKept (codec : StepCodec) (start : PgStepTables) (events : List Event) :
    Prop where
  /-- The generation grows by one for each checkpoint committed. -/
  grows : ∀ key, (cell (run codec start events) key).version
    = (cell start key).version + (history codec key start events).length
  /-- Each checkpoint was built on the generation it replaced. -/
  builds : ∀ key (i : Nat) commit, (history codec key start events)[i]? = some commit →
    commit.base = (cell start key).version + i
  /-- The stored entries are those of the last checkpoint committed. -/
  latest : ∀ key, (cell (run codec start events) key).content
    = ((history codec key start events).getLast?.map Versioned.Commit.content).or
      (cell start key).content
  /-- A rejected save changes nothing. -/
  rejects : ∀ now proof step e, (save codec (run codec start events) now proof step).1 = .error e →
    next codec (run codec start events) (.save now proof step) = run codec start events
  /-- The save that produced the current generation may be repeated under a lease that
      is still held at its request version, as long as its record stands. Only the
      instant of completion moves. -/
  repeats : ∀ now proof step key checkpoint between now' work,
    let before := run codec start events
    let after := next codec before (.save now proof step)
    let current := run codec after between
    commits codec before (.save now proof step) = some (key, checkpoint) →
      history codec key after between = [] →
      owned current now' proof = some work → sessionKeyOf work.toRow.sessionKey = key →
      work.steerInputs.length + 1 = step.requestVersion →
      (step.output.isSome = true
        ∨ current.steps.get? (proof.id, step.id) = after.steps.get? (proof.id, step.id)) →
      ∃ row, current.steps.get? (proof.id, step.id) = some row
        ∧ save codec current now' proof step = (.ok (), { current with
          steps := current.steps.set (proof.id, step.id)
            { row with completedAt := step.output.map fun _ => now' } })

theorem checkpoints_kept (codec : StepCodec) (start : PgStepTables) (events : List Event) :
    CheckpointsKept codec start events where
  grows key := (chain_run key start events).version
  builds key _ _ hcommit := (chain_run key start events).base hcommit
  latest key := (chain_run key start events).content
  rejects now proof step e he := by
    rcases saved codec (run codec start events) now proof step with ⟨_, hsave, -⟩
      | ⟨-, -, hsave, -⟩ | ⟨_, _, -, -, -, -, -, hsave, -⟩
    · rw [next, hsave]
    · rw [hsave] at he
      cases he
    · rw [hsave] at he
      cases he
  repeats := by
    intro now proof step key checkpoint between now' work before after current hcommits hhistory
      howned hkey hversion hstands
    rcases saved codec before now proof step with ⟨_, -, hnone⟩ | ⟨-, -, -, hnone⟩
      | ⟨owner, checkpoint', hworkspace, -, hstorable, hrecordable, hbase, hsave, hsome⟩
    · rw [hcommits] at hnone
      cases hnone
    · rw [hcommits] at hnone
      cases hnone
    · rw [hcommits, Option.some.injEq, Prod.mk.injEq] at hsome
      obtain ⟨hownerKey, rfl⟩ := hsome
      have hafter : after = _ := congrArg Prod.snd hsave
      -- The row written by the save still stands.
      have hstored : current.checkpoints.get? key = some (committedRow proof step checkpoint
          (generation (before.checkpoints.get? key) + 1)) := by
        rw [row_kept between after hhistory, hafter, ← hownerKey]
        simp
      have hrepeated : repeated (some (committedRow proof step checkpoint
          (generation (before.checkpoints.get? key) + 1))) proof step checkpoint = true := by
        simp [repeated, generation, committedRow, hbase, ← hownerKey]
      obtain ⟨row, hrow, hrecords⟩ : ∃ row, after.steps.get? (proof.id, step.id) = some row
          ∧ Records codec step row := by
        rw [hafter]
        exact records_recorded codec before now proof step hrecordable
      obtain ⟨row', hrow', hrecords'⟩ : ∃ row, current.steps.get? (proof.id, step.id) = some row
          ∧ Records codec step row := by
        rcases hstands with hcompleted | hsame
        · exact record_kept between after hrow hrecords hcompleted
        · exact ⟨row, hsame.trans hrow, hrecords⟩
      subst hkey
      exact ⟨row', hrow', save_repeated hworkspace hstorable howned hversion hstored hrepeated
        hrow' hrecords'⟩

/-! ## A save repeated -/

/-- The digest of the input the example saves. -/
private def emptyInputCodec : StepCodec where
  sha256 _ := "44136fa355b3678a1146ad16f7e8649e94fb4fc21fe77e8310c060f61caaff8a"
  parse _ := none

private def leasedRow (steerInputs : List SteerInput) : PgWorkRow where
  id := "w"
  fence := 1
  tenantId := "t"
  agentId := "a"
  sessionId := "s"
  threadId := none
  kind := "chat"
  lane := .interactive
  triggerRef := "m"
  principalId := none
  priority := 4
  status := .leased
  createdAt := 0
  availableAt := 0
  attempts := 1
  preemptions := 0
  leaseTokenHash := some "h"
  leasedBy := some "worker"
  leaseExpiresAt := some 100
  cancelRequestedAt := none
  preemptRequestedAt := none
  steerInputs := steerInputs
  goalOutcome := none
  error := none
  meta_ := none

private def worksOf (steerInputs : List SteerInput) : PgWorkTables where
  workItems := [leasedRow steerInputs]
  sessionLeases := []
  workItems_pkey := by simp
  sessionLeases_pkey := by simp

private def cellKey : String := sessionKeyOf ⟨"t", "a", "s", none⟩

private def leasedTables : PgStepTables where
  work := worksOf []
  sessions := [cellKey]
  steps := .empty
  checkpoints := .empty
  lastProgressAt := .empty

private def holder : LeaseProof := ⟨"w", 1, "h"⟩

private def cellStep (output : Option String) (workspace : Option WorkspaceCheckpoint) : PgStep where
  id := "cell"
  requestVersion := 1
  kind := "ipython"
  input := []
  output := output
  workspace := workspace

private def firstCheckpoint : Option WorkspaceCheckpoint := some ⟨0, [.directory "out"]⟩

private def savedAt (tables : PgStepTables) (now : Int) (step : PgStep) : PgStepTables :=
  (save emptyInputCodec tables now holder step).2

/-- The save that produced the current generation, repeated: after its lease ran out
    and after a correction it is rejected, in time it moves the instant of completion,
    and a record without output that was completed since makes it fail. -/
theorem repeated_save_not_transparent :
    let step := cellStep (some "done") firstCheckpoint
    let draft := cellStep none firstCheckpoint
    let after := savedAt leasedTables 10 step
    let drafted := savedAt leasedTables 10 draft
    ((cell after cellKey).version = 1 ∧ (cell drafted cellKey).version = 1)
      ∧ (save emptyInputCodec after 200 holder step).1
        = .error "workspace attempt no longer owns this request"
      ∧ (save emptyInputCodec (next emptyInputCodec after
          (.others (worksOf [⟨"i", "stop", 15, none, none⟩]) [cellKey])) 20 holder step).1
        = .error "step identity changed or attempt no longer owns this request"
      ∧ ((after.steps.get? ("w", "cell")).map PgStepRow.completedAt = some (some 10)
        ∧ ((savedAt after 20 step).steps.get? ("w", "cell")).map PgStepRow.completedAt
          = some (some 20))
      ∧ (save emptyInputCodec (savedAt drafted 20 (cellStep (some "done") none)) 30 holder draft).1
        = .error "step identity changed or attempt no longer owns this request" := by
  refine ⟨⟨?_, ?_⟩, ?_, ?_, ⟨?_, ?_⟩, ?_⟩ <;> rfl

end PgStepStore

end LingxiOS
