-- SUMMARY: The artifacts a run reports, and the records its acceptance checks look at.
import LingxiOS.Runtime.Restore
import LingxiOS.Base.Transition

/-! # The Artifact Inventory

The inventory of a run is assembled from the saved steps, the action ledger, the
recovered calls and what the attempt executes itself. `verifyCandidate` checks it
against the steps and the ledger, `commitResult` against the steps alone. Both
keep the last record of every path. -/

namespace LingxiOS

/-! ## Assembling -/

/-- `priorArtifacts.set(artifact.path, artifact)`, up to 512 paths. -/
def collectArtifact (found : JsMap String KernelArtifact) (artifact : KernelArtifact) :
    Except Failure (JsMap String KernelArtifact) :=
  if 512 < (found.set artifact.path artifact).size then
    .error (.controlPlane ⟨409, "prior artifact inventory exceeds the per-run limit", none⟩)
  else .ok (found.set artifact.path artifact)

def collectStep (found : JsMap String KernelArtifact) (step : ExecutionStep) :
    Except Failure (JsMap String KernelArtifact) := do
  let artifacts ← orError (snapshotArtifacts step.artifacts)
  artifacts.foldlM collectArtifact found

/-- `priorArtifacts` of `loadContext`: the steps' records, overridden by the ledger's. -/
def priorArtifacts (fence : Nat) (steps : List ExecutionStep) (ledger : List KernelArtifact) :
    Except Failure (List KernelArtifact) :=
  if 1 < fence then do
    let found ← steps.foldlM collectStep .empty
    let artifacts ← orError (snapshotArtifacts ledger)
    return (artifacts.foldl (fun found artifact => found.set artifact.path artifact) found).values
  else .ok []

/-- What `restoreSession` adds for the calls it answers. -/
def recoveredArtifacts (env : RestoreEnv) :
    Option RequestSnapshot → List FunctionCall → Except Failure (List KernelArtifact)
  | _, [] => .ok []
  | request, call :: calls => do
      let restored ← restoreCall env request call
      let later ← recoveredArtifacts env restored.request calls
      return restored.artifacts ++ later

/-! ## Checking -/

/-- Every presented artifact is deeply equal to one of the records. -/
def haveRecords (records presented : List KernelArtifact) : Bool :=
  match snapshotArtifacts records, snapshotArtifacts presented with
  | .ok recorded, .ok artifacts => artifacts.all (fun artifact => recorded.contains artifact)
  | _, _ => false

/-- `commitResult` finds a durable execution record of every artifact of the envelope. -/
def commitRecords (steps : List ExecutionStep) (envelope : List KernelArtifact) : Bool :=
  haveRecords (steps.flatMap ExecutionStep.artifacts) envelope

/-- `verifyCandidate` finds an execution record of every artifact of the candidate. -/
def verifyRecords (steps : List ExecutionStep) (ledger candidate : List KernelArtifact) : Bool :=
  haveRecords (steps.flatMap ExecutionStep.artifacts ++ ledger) candidate

/-- A list of artifacts that `snapshotArtifacts` accepts. -/
def Fits (artifacts : List KernelArtifact) : Prop :=
  artifacts.length ≤ 512 ∧ artifacts.all validArtifact = true

/-- Both lists fit, and the presented records are the ones recorded last. -/
theorem haveRecords_iff {records presented : List KernelArtifact} :
    haveRecords records presented = true ↔
      Fits records ∧ Fits presented ∧ Agrees KernelArtifact.path presented records := by
  constructor
  · intro h
    unfold haveRecords at h
    split at h
    · rename_i recorded artifacts hrecorded hartifacts
      obtain ⟨hlength, hvalid, rfl⟩ := snapshotArtifacts_eq_ok_iff.1 hrecorded
      obtain ⟨hlength', hvalid', rfl⟩ := snapshotArtifacts_eq_ok_iff.1 hartifacts
      refine ⟨⟨hlength, hvalid⟩, ⟨hlength', hvalid'⟩, ?_⟩
      intro path artifact hlatest
      obtain ⟨_, rfl⟩ := mem_of_latest hlatest
      simp only [List.all_eq_true, List.contains_iff_mem] at h
      exact mem_lastByPath_iff.1 (h artifact (mem_lastByPath_iff.2 hlatest))
    · cases h
  · rintro ⟨⟨hlength, hvalid⟩, ⟨hlength', hvalid'⟩, hagrees⟩
    have hrecorded := snapshotArtifacts_eq_ok_iff.2 ⟨hlength, hvalid, rfl⟩
    have hartifacts := snapshotArtifacts_eq_ok_iff.2 ⟨hlength', hvalid', rfl⟩
    unfold haveRecords
    rw [hrecorded, hartifacts]
    simp only [List.all_eq_true, List.contains_iff_mem]
    intro artifact hartifact
    rw [mem_lastByPath_iff] at hartifact ⊢
    exact hagrees _ _ hartifact

/-- A list that fits is presented as well as it is. -/
theorem fits_lastByPath {artifacts : List KernelArtifact} (h : Fits artifacts) :
    Fits (lastByPath artifacts) := by
  refine ⟨Nat.le_trans length_lastByPath_le h.1, ?_⟩
  have hvalid := h.2
  rw [List.all_eq_true] at hvalid ⊢
  intro artifact hartifact
  exact hvalid artifact (mem_of_mem_lastByPath hartifact)

/-! ## What the prior inventory says -/

section Prior

variable {path : String}

/-- Artifacts that fit are all stored. -/
theorem foldlM_collectArtifact {artifacts : List KernelArtifact}
    {found found' : JsMap String KernelArtifact}
    (h : artifacts.foldlM collectArtifact found = .ok found') :
    found' = artifacts.foldl (fun found artifact => found.set artifact.path artifact) found := by
  induction artifacts generalizing found with
  | nil =>
      cases h
      rfl
  | cons artifact artifacts ih =>
      obtain ⟨added, hadded, hrest⟩ := Except.foldlM_cons_eq_ok_iff.1 h
      unfold collectArtifact at hadded
      split at hadded
      · cases hadded
      · cases hadded
        exact ih hrest

/-- A map holds the latest entry of a list of records under every path. -/
def HoldsLatest (found : JsMap String KernelArtifact) (records : List KernelArtifact) : Prop :=
  found.KeyedBy KernelArtifact.path
    ∧ ∀ path, found.get? path = latest KernelArtifact.path records path

theorem HoldsLatest.store {found : JsMap String KernelArtifact} {records : List KernelArtifact}
    (h : HoldsLatest found records) (artifacts : List KernelArtifact) :
    HoldsLatest ((lastByPath artifacts).foldl (fun found a => found.set a.path a) found)
      (records ++ artifacts) := by
  refine ⟨h.1.foldl, ?_⟩
  intro path
  rw [get?_foldl_set, h.2 path, latest_lastByPath, latest_append]

theorem HoldsLatest.collectSteps {steps : List ExecutionStep}
    {found found' : JsMap String KernelArtifact} {records : List KernelArtifact}
    (hfound : HoldsLatest found records) (h : steps.foldlM collectStep found = .ok found') :
    HoldsLatest found' (records ++ steps.flatMap ExecutionStep.artifacts) := by
  induction steps generalizing found records with
  | nil =>
      cases h
      simpa using hfound
  | cons step steps ih =>
      obtain ⟨added, hadded, hrest⟩ := Except.foldlM_cons_eq_ok_iff.1 h
      unfold collectStep at hadded
      rw [Except.bind_eq_ok_iff] at hadded
      obtain ⟨artifacts, hartifacts, hadded⟩ := hadded
      rw [orError_eq_ok_iff, snapshotArtifacts_eq_ok_iff] at hartifacts
      have hstored := foldlM_collectArtifact hadded
      rw [hartifacts.2.2] at hstored
      subst hstored
      rw [List.flatMap_cons, ← List.append_assoc]
      exact ih (hfound.store step.artifacts) hrest

/-- The ledger's latest record of a path comes first, the steps' latest one second. -/
theorem latest_priorArtifacts {fence : Nat} {steps : List ExecutionStep}
    {ledger prior : List KernelArtifact} (h : priorArtifacts fence steps ledger = .ok prior)
    (hfence : 1 < fence) :
    latest KernelArtifact.path prior path = (latest KernelArtifact.path ledger path).or
      (latest KernelArtifact.path (steps.flatMap ExecutionStep.artifacts) path) := by
  unfold priorArtifacts at h
  rw [if_pos hfence, Except.bind_eq_ok_iff] at h
  obtain ⟨found, hfound, h⟩ := h
  rw [Except.bind_eq_ok_iff] at h
  obtain ⟨artifacts, hartifacts, h⟩ := h
  rw [orError_eq_ok_iff, snapshotArtifacts_eq_ok_iff] at hartifacts
  cases h
  have hempty : HoldsLatest .empty [] := ⟨.empty, fun _ => rfl⟩
  have hall := (hempty.collectSteps hfound).store ledger
  rw [hartifacts.2.2, hall.1.latest_values, hall.2 path]
  simp

end Prior

/-! ## Runs -/

/-- A run as its artifacts see it: the durable records of its work, and what the
    current attempt has reported and not yet saved. -/
structure ArtifactRun where
  fence : Nat
  steps : StepStore
  ledger : ActionLedger
  reported : List KernelArtifact
  /-- `artifacts.push(...execution.artifacts)` happened, `saveExecutionStep` has not. -/
  unsaved : JsMap String (List KernelArtifact)

/-- A write of a host action: in a cell, of a direct tool, or of an approved action
    between two attempts. -/
inductive LedgerWrite where
  | reserve (key fingerprint : String) (intent : ActionIntent)
  | record (key : String) (result : HostActionResult)
  | resolve (resolution : ActionResolution)

def LedgerWrite.apply (ledger : ActionLedger) : LedgerWrite → ActionLedger
  | .reserve key fingerprint intent => (ledger.reserve key fingerprint intent).2
  | .record key result => (ledger.record key result).2
  | .resolve resolution => (ledger.recordResolution resolution).2

inductive ArtifactEvent where
  /-- An attempt loads its context and restores the calls of the stored history. -/
  | load (env : RestoreEnv) (request : Option RequestSnapshot) (calls : List FunctionCall)
  | act (write : LedgerWrite)
  /-- A step is saved before it runs. -/
  | start (step : ExecutionStep)
  /-- An execution's artifacts join the inventory. -/
  | report (id : String) (artifacts : List KernelArtifact)
  /-- A step is saved with its output: a failed or parked one without artifacts. -/
  | save (step : ExecutionStep)
  /-- The final envelope. -/
  | present (envelope : List KernelArtifact)

namespace ArtifactRun

/-- The step was never completed. Saving a completed one again changes nothing. -/
def isOpen (s : ArtifactRun) (workId id : String) : Prop :=
  ∀ step, s.steps.entries.get? (workId, id) = some step → step.output = none

/-- The records of the steps, once what is reported is saved. -/
def journal (s : ArtifactRun) (workId : String) : Journal String KernelArtifact :=
  (s.steps.journal workId).map (fun entry => (entry.1, (s.unsaved.get? entry.1).getD entry.2))

/-- The saved records of the work. -/
def records (s : ArtifactRun) (workId : String) : List KernelArtifact :=
  (s.steps.list workId).flatMap ExecutionStep.artifacts

end ArtifactRun

/-- The runs of one work that nothing else changes. -/
def artifactRuns (work : TurnWork) : TransitionSystem ArtifactRun ArtifactEvent where
  start s := s.fence = 0 ∧ s.steps.list work.id = [] ∧ s.reported = [] ∧ s.unsaved = .empty
  step s event s' := match event with
    | .load env request calls => env.work = work ∧ s.fence < env.fence ∧ env.steps = s.steps
        ∧ env.ledger = s.ledger ∧ ∃ prior recovered,
          priorArtifacts env.fence (s.steps.list work.id) (s.ledger.artifacts work.id) = .ok prior
          ∧ recoveredArtifacts env request calls = .ok recovered
          ∧ s' = { s with fence := env.fence, reported := prior ++ recovered, unsaved := .empty }
    | .act write => s' = { s with ledger := write.apply s.ledger }
    | .start step => s.isOpen work.id step.id ∧ s.unsaved.get? step.id = none
        ∧ step.output = none ∧ step.artifacts = []
        ∧ (s.steps.save work.id step).1 = .ok ()
        ∧ s' = { s with steps := (s.steps.save work.id step).2 }
    | .report id artifacts => s.isOpen work.id id ∧ s.unsaved.get? id = none
        ∧ (s.steps.entries.get? (work.id, id)).isSome = true
        ∧ s' = { s with
            reported := s.reported ++ artifacts
            unsaved := s.unsaved.set id artifacts }
    | .save step => s.isOpen work.id step.id ∧ step.output.isSome = true
        ∧ step.artifacts = (s.unsaved.get? step.id).getD []
        ∧ (∃ checked, snapshotArtifacts step.artifacts = .ok checked)
        ∧ (s.steps.save work.id step).1 = .ok ()
        ∧ s' = { s with
            steps := (s.steps.save work.id step).2
            unsaved := s.unsaved.delete step.id }
    | .present envelope => snapshotArtifacts s.reported = .ok envelope ∧ s' = s

/-- When an event leaves the inventory deliverable.

    Loading: every path the ledger reports after the first attempt, and every path a
    recovered call reports, is reported as the saved steps record it last. Reporting: no
    step begun later records one of the paths differently. Presenting: the records fit,
    no report that failed to be saved changes a reported path, and where the ledger has
    one its latest record is the steps' latest one. -/
def ArtifactEvent.deliverable (work : TurnWork) (s : ArtifactRun) : ArtifactEvent → Prop
  | .load env request calls => ∀ recovered, recoveredArtifacts env request calls = .ok recovered →
      Agrees KernelArtifact.path
        ((if 1 < env.fence then s.ledger.artifacts work.id else []) ++ recovered)
        (s.records work.id)
  | .report id artifacts => ∀ path artifact,
      latest KernelArtifact.path artifacts path = some artifact →
      (latest KernelArtifact.path ((s.journal work.id).after id) path).getD artifact = artifact
  | .present _ => Fits (s.records work.id ++ s.ledger.artifacts work.id)
      ∧ ∀ path artifact, latest KernelArtifact.path s.reported path = some artifact →
        latest KernelArtifact.path (s.records work.id) path
            = latest KernelArtifact.path (s.journal work.id).records path
          ∧ ∀ other, latest KernelArtifact.path (s.ledger.artifacts work.id) path = some other →
            latest KernelArtifact.path (s.records work.id) path = some other
  | _ => True

/-! ## The invariant -/

/-- What is reported is what the steps record last, once everything is saved. -/
structure InventoryInv (work : TurnWork) (s : ArtifactRun) : Prop where
  agrees : Agrees KernelArtifact.path s.reported (s.journal work.id).records
  /-- An open step has recorded nothing. -/
  blank : ∀ id step, s.steps.entries.get? (work.id, id) = some step → step.output = none →
    step.artifacts = []
  /-- What is reported and unsaved belongs to an open step. -/
  open_ : ∀ id artifacts, s.unsaved.get? id = some artifacts →
    ∃ step, s.steps.entries.get? (work.id, id) = some step ∧ step.output = none
  valid : (s.records work.id).all validArtifact = true

section Runs

variable {work : TurnWork} {s s' : ArtifactRun}

theorem ArtifactRun.records_eq (s : ArtifactRun) (workId : String) :
    s.records workId = (s.steps.journal workId).records :=
  StepStore.records_journal.symm

theorem ArtifactRun.journal_of_saved {workId : String} (h : ∀ id, s.unsaved.get? id = none) :
    s.journal workId = s.steps.journal workId := by
  unfold journal
  simp [h]

theorem ArtifactRun.nodup_journal {workId : String} : ((s.journal workId).map Prod.fst).Nodup := by
  have hnodup : ((s.steps.journal workId).map Prod.fst).Nodup := StepStore.nodup_journal
  simpa [journal, List.map_map, Function.comp_def] using hnodup

/-- A saved step takes its place in the journal, or joins it at the end. -/
theorem StepStore.save_eq_ok {store : StepStore} {workId : String} {step : ExecutionStep}
    (h : (store.save workId step).1 = .ok ()) :
    (store.save workId step).2 = ⟨store.entries.set (workId, step.id) step⟩ := by
  unfold StepStore.save at h ⊢
  split
  · rename_i prior hprior
    rw [hprior] at h
    dsimp only at h
    split at h
    · rename_i haccepts
      rw [if_pos haccepts]
    · cases h
  · rfl

theorem InventoryInv.of_start (h : (artifactRuns work).start s) : InventoryInv work s := by
  obtain ⟨_, hlist, hreported, hunsaved⟩ := h
  have hnone : ∀ id step, s.steps.entries.get? (work.id, id) ≠ some step := by
    intro id step hget
    have hmem : step ∈ s.steps.list work.id := by
      rw [JsMap.get?_eq_some_iff] at hget
      exact List.mem_map.2 ⟨_, List.mem_filter.2 ⟨hget, by simp⟩, rfl⟩
    rw [hlist] at hmem
    cases hmem
  refine ⟨?_, ?_, ?_, ?_⟩
  · rw [hreported]
    exact .nil
  · intro id step hget
    exact absurd hget (hnone id step)
  · intro id artifacts hget
    rw [hunsaved] at hget
    cases hget
  · simp [ArtifactRun.records, hlist]

/-! ### One event -/

/-- A step without a record of its own leaves the journal's records alone. -/
theorem InventoryInv.save_blank {step : ExecutionStep} (h : InventoryInv work s)
    (hopen : s.isOpen work.id step.id) (hblank : step.artifacts = [])
    (hunsaved : s.unsaved.get? step.id = none) :
    Journal.records (ArtifactRun.journal
        { s with steps := ⟨s.steps.entries.set (work.id, step.id) step⟩ } work.id)
      = (s.journal work.id).records := by
  unfold ArtifactRun.journal
  cases hprior : s.steps.entries.get? (work.id, step.id) with
  | none =>
      rw [StepStore.journal_set_of_none hprior]
      simp [Journal.records, hunsaved, hblank]
  | some prior =>
      rw [StepStore.journal_set_of_some hprior, Journal.fill_eq_self]
      intro entry hentry hid
      obtain ⟨id, artifacts⟩ := entry
      obtain ⟨found, hfound, rfl⟩ := StepStore.mem_journal_iff.1 hentry
      cases hid
      rw [hprior] at hfound
      cases hfound
      rw [hblank]
      exact h.blank _ _ hprior (hopen _ hprior)

/-- Saving what was reported moves it from the attempt into the steps. -/
theorem InventoryInv.save_reported {step prior : ExecutionStep} (h : InventoryInv work s)
    (hopen : s.isOpen work.id step.id)
    (hprior : s.steps.entries.get? (work.id, step.id) = some prior)
    (hreported : step.artifacts = (s.unsaved.get? step.id).getD []) :
    ArtifactRun.journal { s with
        steps := ⟨s.steps.entries.set (work.id, step.id) step⟩
        unsaved := s.unsaved.delete step.id } work.id
      = s.journal work.id := by
  unfold ArtifactRun.journal
  rw [StepStore.journal_set_of_some hprior]
  unfold Journal.fill
  rw [List.map_map]
  apply List.map_congr_left
  intro entry hentry
  obtain ⟨id, artifacts⟩ := entry
  obtain ⟨found, hfound, rfl⟩ := StepStore.mem_journal_iff.1 hentry
  by_cases hid : id = step.id
  · subst hid
    rw [hprior] at hfound
    cases hfound
    have hblank := h.blank _ _ hprior (hopen _ hprior)
    simp [JsMap.get?_delete, hreported, hblank]
  · simp [JsMap.get?_delete, hid]

/-- The records of the steps stay valid when a checked step joins them. -/
theorem InventoryInv.valid_save {step : ExecutionStep} (h : InventoryInv work s)
    (hvalid : step.artifacts.all validArtifact = true) :
    (Journal.records (StepStore.journal ⟨s.steps.entries.set (work.id, step.id) step⟩ work.id)).all
      validArtifact = true := by
  have hrecords := h.valid
  rw [ArtifactRun.records_eq] at hrecords
  cases hprior : s.steps.entries.get? (work.id, step.id) with
  | none =>
      rw [StepStore.journal_set_of_none hprior]
      simp only [Journal.records, List.flatMap_append, List.all_append, Bool.and_eq_true]
      exact ⟨hrecords, by simpa using hvalid⟩
  | some prior =>
      rw [StepStore.journal_set_of_some hprior]
      simp only [Journal.records, Journal.fill, List.all_eq_true, List.mem_flatMap, List.mem_map]
        at hrecords hvalid ⊢
      rintro artifact ⟨entry, ⟨before, hbefore, rfl⟩, hartifact⟩
      split at hartifact
      · exact hvalid artifact hartifact
      · exact hrecords artifact ⟨before, hbefore, hartifact⟩

/-- What an attempt loads agrees with the steps, if the ledger and the recovered calls do. -/
theorem agrees_loaded {fence : Nat} {prior recovered ledger : List KernelArtifact}
    (hprior : priorArtifacts fence (s.steps.list work.id) ledger = .ok prior)
    (h : Agrees KernelArtifact.path ((if 1 < fence then ledger else []) ++ recovered)
      (s.records work.id)) :
    Agrees KernelArtifact.path (prior ++ recovered) (s.records work.id) := by
  by_cases hfence : 1 < fence
  · rw [if_pos hfence] at h
    intro path artifact hlatest
    rw [latest_append, latest_priorArtifacts hprior hfence, ← Option.or_assoc,
      ← latest_append] at hlatest
    cases hreports : latest KernelArtifact.path (ledger ++ recovered) path with
    | none =>
        rw [hreports, Option.none_or] at hlatest
        exact hlatest
    | some reported =>
        rw [hreports, Option.some_or] at hlatest
        cases hlatest
        exact h _ _ hreports
  · rw [if_neg hfence] at h
    unfold priorArtifacts at hprior
    rw [if_neg hfence] at hprior
    cases hprior
    exact h

theorem InventoryInv.step {event : ArtifactEvent} (h : InventoryInv work s)
    (hok : event.deliverable work s) (hstep : (artifactRuns work).step s event s') :
    InventoryInv work s' := by
  cases event with
  | load env request calls =>
      obtain ⟨_, _, _, _, prior, recovered, hprior, hrecovered, rfl⟩ := hstep
      refine ⟨?_, h.blank, ?_, h.valid⟩
      · rw [ArtifactRun.journal_of_saved (fun _ => rfl), ← ArtifactRun.records_eq]
        exact agrees_loaded hprior (hok recovered hrecovered)
      · intro id artifacts hget
        cases hget
  | act write =>
      subst hstep
      exact ⟨h.agrees, h.blank, h.open_, h.valid⟩
  | start step =>
      obtain ⟨hopen, hunsaved, houtput, hblank, hsave, rfl⟩ := hstep
      rw [StepStore.save_eq_ok hsave]
      refine ⟨?_, ?_, ?_, ?_⟩
      · have hjournal := h.save_blank hopen hblank hunsaved
        rw [hjournal]
        exact h.agrees
      · intro id found hget hnone
        rw [JsMap.get?_set] at hget
        split at hget
        · cases hget
          exact hblank
        · exact h.blank id found hget hnone
      · intro id artifacts hget
        obtain ⟨found, hfound, hnone⟩ := h.open_ id artifacts hget
        refine ⟨found, ?_, hnone⟩
        rw [JsMap.get?_set_of_ne _ _]
        · exact hfound
        · intro hkey
          rw [(Prod.mk.inj hkey).2, hunsaved] at hget
          cases hget
      · rw [ArtifactRun.records_eq]
        exact h.valid_save (by simp [hblank])
  | report id artifacts =>
      obtain ⟨hopen, hunsaved, hbegun, rfl⟩ := hstep
      obtain ⟨step, hstep⟩ := Option.isSome_iff_exists.1 hbegun
      refine ⟨?_, h.blank, ?_, h.valid⟩
      · have hfill : ArtifactRun.journal { s with
            reported := s.reported ++ artifacts
            unsaved := s.unsaved.set id artifacts } work.id
            = (s.journal work.id).fill id artifacts := by
          unfold ArtifactRun.journal Journal.fill
          rw [List.map_map]
          apply List.map_congr_left
          intro entry _
          by_cases hid : entry.1 = id
          · simp [hid]
          · simp [hid, JsMap.get?_set_of_ne _ hid]
        rw [hfill]
        apply Journal.agrees_fill _ ArtifactRun.nodup_journal h.agrees hok
        apply List.mem_map.2
        refine ⟨(id, []), StepStore.mem_journal_iff.2 ⟨step, hstep, ?_⟩, by simp [hunsaved]⟩
        exact h.blank id step hstep (hopen step hstep)
      · intro other found hget
        rw [JsMap.get?_set] at hget
        split at hget
        · rename_i hid
          subst hid
          exact ⟨step, hstep, hopen step hstep⟩
        · exact h.open_ other found hget
  | save step =>
      obtain ⟨hopen, houtput, hreported, ⟨checked, hchecked⟩, hsave, rfl⟩ := hstep
      rw [StepStore.save_eq_ok hsave]
      refine ⟨?_, ?_, ?_, ?_⟩
      · cases hprior : s.steps.entries.get? (work.id, step.id) with
        | some prior =>
            rw [h.save_reported hopen hprior hreported]
            exact h.agrees
        | none =>
            have hunsaved : s.unsaved.get? step.id = none := by
              cases hget : s.unsaved.get? step.id with
              | none => rfl
              | some artifacts =>
                  obtain ⟨found, hfound, _⟩ := h.open_ _ _ hget
                  rw [hprior] at hfound
                  cases hfound
            have hjournal := h.save_blank hopen (by rw [hreported, hunsaved]; rfl) hunsaved
            have hdelete : ∀ id, (s.unsaved.delete step.id).get? id = s.unsaved.get? id := by
              intro id
              rw [JsMap.get?_delete]
              split
              · rename_i hid
                rw [hid, hunsaved]
              · rfl
            unfold ArtifactRun.journal at hjournal ⊢
            simp only [hdelete]
            rw [hjournal]
            exact h.agrees
      · intro id found hget hnone
        rw [JsMap.get?_set] at hget
        split at hget
        · cases hget
          rw [hnone] at houtput
          cases houtput
        · exact h.blank id found hget hnone
      · intro id artifacts hget
        rw [JsMap.get?_delete] at hget
        split at hget
        · cases hget
        · rename_i hid
          obtain ⟨found, hfound, hnone⟩ := h.open_ id artifacts hget
          refine ⟨found, ?_, hnone⟩
          rw [JsMap.get?_set_of_ne _ _]
          · exact hfound
          · intro hkey
            exact hid (Prod.mk.inj hkey).2
      · rw [ArtifactRun.records_eq]
        exact h.valid_save (snapshotArtifacts_eq_ok_iff.1 hchecked).2.1
  | present envelope =>
      obtain ⟨_, rfl⟩ := hstep
      exact h

/-- Under the invariant both checks pass exactly when the envelope is deliverable. -/
theorem InventoryInv.present_iff {envelope : List KernelArtifact} (h : InventoryInv work s)
    (hpresent : snapshotArtifacts s.reported = .ok envelope) :
    (commitRecords (s.steps.list work.id) envelope = true
        ∧ verifyRecords (s.steps.list work.id) (s.ledger.artifacts work.id) s.reported = true)
      ↔ (ArtifactEvent.present envelope).deliverable work s := by
  obtain ⟨hlength, hvalid, rfl⟩ := snapshotArtifacts_eq_ok_iff.1 hpresent
  have hfits : Fits s.reported := ⟨hlength, hvalid⟩
  unfold commitRecords verifyRecords
  rw [haveRecords_iff, haveRecords_iff]
  constructor
  · rintro ⟨⟨_, _, hcommit⟩, hfitsAll, _, hverify⟩
    refine ⟨hfitsAll, ?_⟩
    intro path artifact hlatest
    have hrecorded : latest KernelArtifact.path (s.records work.id) path = some artifact := by
      apply hcommit
      rw [latest_lastByPath]
      exact hlatest
    refine ⟨?_, ?_⟩
    · rw [hrecorded, h.agrees path artifact hlatest]
    · intro other hother
      have hfact := hverify path artifact hlatest
      rw [latest_append, hother, Option.some_or] at hfact
      rw [hrecorded, hfact]
  · rintro ⟨hfitsAll, hpaths⟩
    have hrecords : Fits (s.records work.id) := by
      refine ⟨?_, h.valid⟩
      have hall := hfitsAll.1
      rw [List.length_append] at hall
      exact Nat.le_of_add_right_le hall
    refine ⟨⟨hrecords, fits_lastByPath hfits, ?_⟩, hfitsAll, hfits, ?_⟩
    · intro path artifact hlatest
      rw [latest_lastByPath] at hlatest
      obtain ⟨hsaved, _⟩ := hpaths path artifact hlatest
      exact hsaved.trans (h.agrees path artifact hlatest)
    · intro path artifact hlatest
      obtain ⟨hsaved, hledger⟩ := hpaths path artifact hlatest
      have hrecorded := hsaved.trans (h.agrees path artifact hlatest)
      rw [latest_append]
      cases hother : latest KernelArtifact.path (s.ledger.artifacts work.id) path with
      | none =>
          rw [Option.none_or]
          exact hrecorded
      | some other =>
          rw [Option.some_or, ← hledger other hother]
          exact hrecorded

theorem inventoryInv_of_reachable
    (h : ((artifactRuns work).restrict (fun s event => event.deliverable work s)).Reachable s) :
    InventoryInv work s := by
  apply TransitionSystem.Reachable.invariant (I := InventoryInv work) _ _ h
  · intro s hstart
    exact .of_start hstart
  · intro s event s' hinv hstep
    exact hinv.step hstep.1 hstep.2

end Runs

section File

def fileWork : TurnWork where
  id := "w"
  tenantId := "t"
  agentId := "a"
  sessionId := "s"
  threadId := none
  kind := "turn"
  lane := .interactive
  triggerRef := "m"
  principalId := none
  meta_ := {}

def fileArtifact : KernelArtifact where
  path := "r.txt"
  size := 1
  mime := "text/plain"
  sha256 := "0123456789abcdef0123456789abcdef0123456789abcdef0123456789abcdef"

def fileOutput : ToolOutput := .whole ⟨[], none⟩

/-- The step of the only call, before and after it runs. -/
def fileStep (output : Option ToolOutput) (artifacts : List KernelArtifact) : ExecutionStep where
  id := "c"
  requestVersion := 1
  kind := "ipython"
  input := []
  output := output
  artifacts := artifacts

def fileIntent : ActionIntent where
  workId := "w"
  tenantId := "t"
  principalId := none
  agentId := "a"
  sessionId := "s"
  threadId := none
  requestVersion := some 1
  action := ⟨"w", "c", 0, "files.export", [], actionKeyOf "w" "c" 0⟩

def fileKey : String := fileIntent.action.idempotencyKey

/-- The action waits for an approval, and gives a file once it is approved. -/
def fileWaits : HostActionResult where
  ok := false
  approval := some "p"

def fileDone : HostActionResult where
  ok := true
  artifacts := [fileArtifact]

def fileEnv (fence : Nat) (s : ArtifactRun) : RestoreEnv where
  sha256 _ := ""
  work := fileWork
  fence := fence
  steps := s.steps
  ledger := s.ledger
  steer := 0
  serviceTools := []
  contextTools := []
  execute _ := .error (.error "")

def fileStart : ArtifactRun := ⟨0, .init, .init, [], .empty⟩

def fileLoad (fence : Nat) (reported : List KernelArtifact) (s : ArtifactRun) : ArtifactRun :=
  { s with fence := fence, reported := reported, unsaved := .empty }

def fileAct (write : LedgerWrite) (s : ArtifactRun) : ArtifactRun :=
  { s with ledger := write.apply s.ledger }

def fileSave (step : ExecutionStep) (s : ArtifactRun) : ArtifactRun :=
  { s with steps := (s.steps.save "w" step).2, unsaved := s.unsaved.delete step.id }

/-- The first attempt begins its only step. -/
def fileBegun : ArtifactRun :=
  { fileLoad 1 [] fileStart with steps := (StepStore.init.save "w" (fileStep none [])).2 }

/-- The action waits for its approval, and the step is saved without artifacts. -/
def fileParked : ArtifactRun :=
  fileSave (fileStep (some fileOutput) []) (fileAct (.record fileKey fileWaits)
    (fileAct (.reserve fileKey "h" fileIntent) fileBegun))

/-- The approved action runs, and the next attempt loads its artifact from the ledger. -/
def fileResumed : ArtifactRun :=
  fileLoad 2 [fileArtifact] (fileAct (.record fileKey fileDone) fileParked)

/-- The step reports the file itself, and is saved with it. -/
def fileReported : ArtifactRun :=
  { fileBegun with
    reported := [fileArtifact]
    unsaved := JsMap.empty.set "c" [fileArtifact] }

def fileSaved : ArtifactRun := fileSave (fileStep (some fileOutput) [fileArtifact]) fileReported

theorem fileBegun_isOpen (ledger : ActionLedger) (reported : List KernelArtifact)
    (unsaved : JsMap String (List KernelArtifact)) :
    ArtifactRun.isOpen { fileBegun with ledger := ledger, reported := reported, unsaved := unsaved }
      "w" "c" := by
  intro step hstep
  have hbegun : fileBegun.steps.entries.get? ("w", "c") = some (fileStep none []) := rfl
  rw [hbegun] at hstep
  cases hstep
  rfl

theorem fileBegun_step_load : (artifactRuns fileWork).step fileStart
    (.load (fileEnv 1 fileStart) none []) (fileLoad 1 [] fileStart) :=
  ⟨rfl, by decide, rfl, rfl, [], [], rfl, rfl, rfl⟩

theorem fileBegun_step_start : (artifactRuns fileWork).step (fileLoad 1 [] fileStart)
    (.start (fileStep none [])) fileBegun :=
  ⟨(by intro step hstep; cases hstep), rfl, rfl, rfl, rfl, rfl⟩

theorem fits_fileArtifact : Fits [fileArtifact] := by
  refine ⟨by decide, ?_⟩
  rw [List.all_cons, List.all_nil, Bool.and_true]
  unfold validArtifact isSha256HexAnyCase Text.isSha256Hex fileArtifact
  repeat rw [String.toList_ofList]
  decide +kernel

theorem snapshot_fileArtifact : snapshotArtifacts [fileArtifact] = .ok [fileArtifact] :=
  snapshotArtifacts_eq_ok_iff.2 ⟨fits_fileArtifact.1, fits_fileArtifact.2, rfl⟩

/-- The file is recorded in the ledger only. -/
theorem fileResumed_records :
    (fileResumed.steps.list "w").flatMap ExecutionStep.artifacts = []
      ∧ fileResumed.ledger.artifacts "w" = [fileArtifact] :=
  ⟨rfl, rfl⟩

theorem fileResumed_prior (steps : List ExecutionStep) (h : steps.foldlM collectStep .empty = .ok .empty) :
    priorArtifacts 2 steps [fileArtifact] = .ok [fileArtifact] := by
  rw [priorArtifacts, if_pos (by decide), h, snapshot_fileArtifact]
  rfl

end File

end LingxiOS
