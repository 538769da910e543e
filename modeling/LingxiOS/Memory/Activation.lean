-- SUMMARY: What an evolved memory is activated by.
import LingxiOS.Base.Checks
import LingxiOS.Memory.Evolution

/-! # Activation

What one status update does to the memories, what the loops of `finish` add up, and from
these what each call does; then any order of calls. -/

namespace LingxiOS

namespace Evolution

open Jobs (JobRow)

variable {tables tables' : EvolutionTables} {memories memories' : JsMap MemoryKey MemoryRow}
  {key : MemoryKey} {row row' : MemoryRow} {status : MemoryStatus} {evaluation : EvaluationRow}
  {benchmark : EvolutionBenchmark} {records : JsMap String EvolutionReport}
  {work : JobRow} {now : Int} {answer : Answer}

/-- Memories are stored under their tenant and id. -/
def Keyed (memories : JsMap MemoryKey MemoryRow) : Prop :=
  ∀ key row, memories.get? key = some row → (row.tenantId, row.id) = key

/-! ## One status update -/

/-- The row under the key has the status, and the others are as they were. -/
def Updates (key : MemoryKey) (status : MemoryStatus) (memories memories' : JsMap MemoryKey MemoryRow) :
    Prop :=
  ∀ key' row', memories'.get? key' = some row' → ∃ row, memories.get? key' = some row
    ∧ (row' = row ∨ key' = key ∧ row' = { row with status := status, version := row.version + 1 })

theorem setStatus_updates (h : setStatus memories key status = .ok memories') :
    Updates key status memories memories' := by
  intro key' row' hrow'
  unfold setStatus at h
  cases hrow : memories.get? key with
  | none =>
      rw [hrow] at h
      cases h
      exact ⟨row', hrow', .inl rfl⟩
  | some row =>
      rw [hrow] at h
      dsimp only at h
      rw [Except.guard_eq_ok_iff] at h
      cases h.2
      rw [JsMap.get?_set] at hrow'
      split at hrow'
      · rename_i hkey
        cases hrow'
        exact ⟨row, by rw [hkey, hrow], .inr ⟨hkey, rfl⟩⟩
      · exact ⟨row', hrow', .inl rfl⟩

theorem Updates.keyed (h : Updates key status memories memories') (hkeyed : Keyed memories) :
    Keyed memories' := by
  intro key' row' hrow'
  obtain ⟨row, hrow, rfl | ⟨-, rfl⟩⟩ := h key' row' hrow'
  · exact hkeyed key' row' hrow
  · exact hkeyed key' row hrow

/-- A row that became active by the update is the one under its key. -/
theorem Updates.active (h : Updates key status memories memories') {key' : MemoryKey}
    (hrow' : memories'.get? key' = some row') (hactive : row'.isActiveEvolved = true) :
    memories.get? key' = some row' ∨ key' = key ∧ status = .active ∧ ∃ row,
      memories.get? key' = some row ∧ row' = { row with status := .active, version := row.version + 1 } := by
  obtain ⟨row, hrow, rfl | ⟨hkey, rfl⟩⟩ := h key' row' hrow'
  · exact .inl hrow
  · obtain ⟨-, hstatus⟩ : row.origin = .evolved ∧ status = .active := by
      simpa [MemoryRow.isActiveEvolved] using hactive
    subst hstatus
    exact .inr ⟨hkey, rfl, row, hrow, rfl⟩

/-- The index keeps the active place of a scope and kind for one memory. -/
theorem setStatus_oneActive (hone : OneActive memories)
    (h : setStatus memories key status = .ok memories') : OneActive memories' := by
  have hupdates := setStatus_updates h
  -- a row that is activated has met no other active row of its slot
  have hfree : ∀ key' new other, memories'.get? key = some new → memories.get? key' = some other →
      new.isActiveEvolved = true → other.isActiveEvolved = true → other.sameSlot new = true →
      key' = key := by
    intro key' new other hnew hother hactive hactive' hslot
    by_contra hne
    obtain ⟨row, hrow, -⟩ := hupdates key new hnew
    unfold setStatus at h
    rw [hrow] at h
    dsimp only at h
    rw [Except.guard_eq_ok_iff] at h
    obtain ⟨hindex, hset⟩ := h
    cases hset
    rw [JsMap.get?_set_self] at hnew
    cases hnew
    rw [Bool.and_eq_true, List.any_eq_true] at hindex
    refine hindex ⟨hactive, ⟨key', other⟩, JsMap.get?_eq_some_iff.mp hother, ?_⟩
    simp [hne, hactive', hslot]
  intro key₁ key₂ row₁ row₂ hrow₁ hrow₂ hactive₁ hactive₂ hslot
  have hslot' : row₂.sameSlot row₁ = true := by
    simp only [MemoryRow.sameSlot, decide_eq_true_eq] at hslot ⊢
    exact ⟨hslot.1.symm, hslot.2.1.symm, hslot.2.2.1.symm, hslot.2.2.2.symm⟩
  rcases hupdates.active hrow₁ hactive₁ with hold₁ | ⟨rfl, -⟩
  · rcases hupdates.active hrow₂ hactive₂ with hold₂ | ⟨rfl, -⟩
    · exact hone _ _ _ _ hold₁ hold₂ hactive₁ hactive₂ hslot
    · exact hfree _ _ _ hrow₂ hold₁ hactive₂ hactive₁ hslot
  · rcases hupdates.active hrow₂ hactive₂ with hold₂ | ⟨rfl, -⟩
    · exact (hfree _ _ _ hrow₁ hold₂ hactive₁ hactive₂ hslot').symm
    · rfl

/-! ## The loops of `finish` -/

theorem mem_slots {slot : Slot} : slot ∈ slots benchmark ↔
    slot.case_ ∈ benchmark.cases ∧ slot.repetition < benchmark.repetitions := by
  obtain ⟨case_, repetition, variant⟩ := slot
  simp only [slots, List.mem_flatMap, List.mem_range, List.mem_map, List.mem_cons,
    List.not_mem_nil, or_false, Slot.mk.injEq]
  constructor
  · rintro ⟨case', hcase, repetition', hrepetition, variant', -, rfl, rfl, -⟩
    exact ⟨hcase, hrepetition⟩
  · rintro ⟨hcase, hrepetition⟩
    refine ⟨case_, hcase, repetition, hrepetition, variant, ?_, rfl, rfl, rfl⟩
    cases variant
    · exact .inl rfl
    · exact .inr rfl

/-- The successful reports of one split and variant. -/
def successes (benchmark : EvolutionBenchmark) (records : JsMap String EvolutionReport)
    (split : Split) (variant : Variant) : Nat :=
  (slots benchmark).countP fun slot => slot.case_.split = split ∧ slot.variant = variant
    ∧ (records.get? slot.key).any (·.success)

/-- The loops end only past a report for every slot, and add them all up. -/
theorem summarize_eq_some {summary result : Summary} {list : List Slot}
    (h : summarize records summary list = some result) :
    (∀ slot ∈ list, ∃ report, records.get? slot.key = some report)
      ∧ (result.gatesPassed = true → summary.gatesPassed = true ∧ ∀ slot ∈ list, ∀ report,
        records.get? slot.key = some report → ∀ gate ∈ report.gates, gate.2 = true)
      ∧ ∀ split variant, result.successes split variant = summary.successes split variant
        + list.countP fun slot => slot.case_.split = split ∧ slot.variant = variant
          ∧ (records.get? slot.key).any (·.success) := by
  induction list generalizing summary with
  | nil =>
      cases h
      exact ⟨nofun, fun hgates => ⟨hgates, nofun⟩, fun _ _ => rfl⟩
  | cons slot rest ih =>
      unfold summarize at h
      cases hreport : records.get? slot.key with
      | none =>
          rw [hreport] at h
          cases h
      | some report =>
          rw [hreport] at h
          obtain ⟨hcomplete, hgates, hcount⟩ := ih h
          refine ⟨List.forall_mem_cons.mpr ⟨⟨report, hreport⟩, hcomplete⟩, ?_, ?_⟩
          · intro hpassed
            obtain ⟨hadded, hrest⟩ := hgates hpassed
            obtain ⟨hsummary, hall⟩ := Bool.and_eq_true_iff.mp hadded
            refine ⟨hsummary, List.forall_mem_cons.mpr ⟨?_, hrest⟩⟩
            intro report' hreport' gate hgate
            rw [hreport] at hreport'
            cases hreport'
            exact List.all_eq_true.mp hall gate hgate
          · intro split variant
            rw [hcount, List.countP_cons, hreport]
            simp only [Summary.add, Option.any_some, decide_eq_true_eq, eq_comm (a := split),
              eq_comm (a := variant)]
            omega

/-! ## What an evaluation is passed by -/

/-- A complete evaluation that a pending candidate passes against its frozen baseline. -/
structure PassedEvaluation (tables : EvolutionTables) (key : MemoryKey) (row : MemoryRow) : Prop where
  candidate : row.status = .candidate
  evaluated : ∃ evaluation benchmark, tables.evaluations.get? key = some evaluation
    ∧ tables.benchmarks.get? (key.1, evaluation.benchmarkId) = some benchmark
    ∧ evaluation.verdict = .pending ∧ row.version = evaluation.candidateVersion
    ∧ (∀ case_ ∈ benchmark.cases, ∀ repetition < benchmark.repetitions, ∀ variant : Variant,
      ∃ report, evaluation.records.get? (caseKey case_.id repetition (.str variant.name)) = some report
        ∧ ∀ gate ∈ report.gates, gate.2 = true)
    ∧ successes benchmark evaluation.records .target .baseline
      < successes benchmark evaluation.records .target .candidate
    ∧ successes benchmark evaluation.records .holdout .baseline
      ≤ successes benchmark evaluation.records .holdout .candidate
    ∧ (activeRow tables.memories key.1 row).map referenceOf = evaluation.baseline.map Prod.fst

/-- What the verdict of `finish` was decided by. -/
theorem passed_of_decided {active : Option MemoryRow} {summary : Summary}
    (hsummary : summarize evaluation.records {} (slots benchmark) = some summary)
    (hpassed : decide_ evaluation active summary = .passed) :
    (∀ case_ ∈ benchmark.cases, ∀ repetition < benchmark.repetitions, ∀ variant : Variant,
        ∃ report, evaluation.records.get? (caseKey case_.id repetition (.str variant.name)) = some report
          ∧ ∀ gate ∈ report.gates, gate.2 = true)
      ∧ successes benchmark evaluation.records .target .baseline
        < successes benchmark evaluation.records .target .candidate
      ∧ successes benchmark evaluation.records .holdout .baseline
        ≤ successes benchmark evaluation.records .holdout .candidate
      ∧ active.map referenceOf = evaluation.baseline.map Prod.fst := by
  obtain ⟨hcomplete, hgates, hcount⟩ := summarize_eq_some hsummary
  have hsuccesses : ∀ split variant, summary.successes split variant
      = successes benchmark evaluation.records split variant :=
    fun split variant => (hcount split variant).trans (Nat.zero_add _)
  unfold decide_ at hpassed
  split at hpassed
  · cases hpassed
  · rename_i hbaseline
    split at hpassed
    · rename_i hbetter
      obtain ⟨hgatesPassed, htarget, hholdout⟩ := hbetter
      rw [hsuccesses, hsuccesses] at htarget hholdout
      refine ⟨?_, htarget, hholdout, not_not.mp hbaseline⟩
      intro case_ hcase repetition hrepetition variant
      have hmem : ⟨case_, repetition, variant⟩ ∈ slots benchmark := mem_slots.mpr ⟨hcase, hrepetition⟩
      obtain ⟨report, hreport⟩ := hcomplete _ hmem
      exact ⟨report, hreport, (hgates hgatesPassed).2 _ hmem report hreport⟩
    · cases hpassed

/-- A retired memory that passed its evaluation, of the kind and scope of an active one. -/
def Restorable (tables : EvolutionTables) (key : MemoryKey) (row : MemoryRow) : Prop :=
  row.status = .retired
    ∧ (∃ evaluation, tables.evaluations.get? key = some evaluation ∧ evaluation.verdict = .passed)
    ∧ ∃ key' active, tables.memories.get? key' = some active ∧ active.isActiveEvolved = true
      ∧ active.sameSlot row = true

/-! ## What stays -/

/-- Recorded reports and verdicts stay, and a decided evaluation takes no more reports. -/
def Keeps (tables tables' : EvolutionTables) : Prop :=
  ∀ key evaluation, tables.evaluations.get? key = some evaluation → ∃ evaluation',
    tables'.evaluations.get? key = some evaluation'
      ∧ (∀ caseKey report, evaluation.records.get? caseKey = some report →
        evaluation'.records.get? caseKey = some report)
      ∧ (evaluation.verdict ≠ .pending → evaluation'.verdict = evaluation.verdict
        ∧ evaluation'.records = evaluation.records)

theorem Keeps.of_eq (h : tables'.evaluations = tables.evaluations) : Keeps tables tables' := by
  intro key evaluation hevaluation
  exact ⟨evaluation, by rw [h, hevaluation], fun _ _ h => h, fun _ => ⟨rfl, rfl⟩⟩

theorem Keeps.trans {tables'' : EvolutionTables} (h : Keeps tables tables')
    (h' : Keeps tables' tables'') : Keeps tables tables'' := by
  intro key evaluation hevaluation
  obtain ⟨evaluation', hevaluation', hreports, hdecided⟩ := h key evaluation hevaluation
  obtain ⟨evaluation'', hevaluation'', hreports', hdecided'⟩ := h' key evaluation' hevaluation'
  refine ⟨evaluation'', hevaluation'', fun caseKey report hreport => ?_, fun hverdict => ?_⟩
  · exact hreports' caseKey report (hreports caseKey report hreport)
  · obtain ⟨hsame, hrecords⟩ := hdecided hverdict
    obtain ⟨hsame', hrecords'⟩ := hdecided' (by rwa [hsame])
    exact ⟨hsame'.trans hsame, hrecords'.trans hrecords⟩

/-- A pending evaluation is replaced by one with the same reports, or more. -/
theorem Keeps.of_set {evaluation' : EvaluationRow}
    (hevaluation : tables.evaluations.get? key = some evaluation)
    (hpending : evaluation.verdict = .pending)
    (hreports : ∀ caseKey report, evaluation.records.get? caseKey = some report →
      evaluation'.records.get? caseKey = some report)
    (h : tables'.evaluations = tables.evaluations.set key evaluation') : Keeps tables tables' := by
  intro key' other hother
  rw [h, JsMap.get?_set]
  split
  · rename_i hkey
    rw [hkey, hevaluation] at hother
    cases hother
    exact ⟨evaluation', rfl, hreports, fun hdecided => absurd hpending hdecided⟩
  · exact ⟨other, hother, fun _ _ h => h, fun _ => ⟨rfl, rfl⟩⟩

theorem record_eq_ok {caseKey : String} {report : EvolutionReport} {evaluation' : EvaluationRow}
    (h : record evaluation caseKey report = .ok evaluation') (caseKey' : String)
    (report' : EvolutionReport) (hreport : evaluation.records.get? caseKey' = some report') :
    evaluation'.records.get? caseKey' = some report' := by
  unfold record at h
  cases hrecorded : evaluation.records.get? caseKey with
  | some recorded =>
      rw [hrecorded] at h
      dsimp only at h
      split at h
      · cases h
        exact hreport
      · cases h
  | none =>
      rw [hrecorded] at h
      cases h
      rw [JsMap.get?_set_of_ne]
      · exact hreport
      · rintro rfl
        rw [hrecorded] at hreport
        cases hreport

/-! ## Each call -/

theorem leased_eq_some (hkeyed : Keyed tables.memories)
    (h : leased tables now work = some (row, evaluation, benchmark)) :
    tables.memories.get? (work.tenantId, row.id) = some row
      ∧ tables.evaluations.get? (work.tenantId, row.id) = some evaluation
      ∧ tables.benchmarks.get? (work.tenantId, evaluation.benchmarkId) = some benchmark
      ∧ row.tenantId = work.tenantId ∧ row.origin = .evolved := by
  simp only [leased, Option.bind_eq_bind, Option.bind_eq_some_iff, Option.guard_eq_some',
    Option.pure_def, Option.some.injEq, Prod.mk.injEq] at h
  obtain ⟨job, -, -, ⟨-, htenant, -⟩, memoryId, -, memory, hmemory, evaluation', hevaluation,
    benchmark', hbenchmark, source, -, -, -, -, ⟨horigin, -⟩, rfl, rfl, rfl⟩ := h
  have hkey := hkeyed _ _ hmemory
  obtain ⟨hrow, hid⟩ := Prod.mk.inj hkey
  rw [htenant] at hmemory hevaluation hbenchmark hrow
  rw [hid]
  exact ⟨hmemory, hevaluation, hbenchmark, hrow, horigin⟩

/-- A call leaves the memories alone, unless it is a `finish` that passes the candidate. -/
theorem executeEvolution_eq_ok (hkeyed : Keyed tables.memories) {scopes : List MemoryScope}
    {method : Method} {args : JsonObject}
    (h : executeEvolution tables now work scopes method args = .ok (answer, tables')) :
    tables'.benchmarks = tables.benchmarks ∧ Keeps tables tables'
      ∧ (tables'.memories = tables.memories ∨ method = .finish ∧ ∃ row,
        tables.memories.get? (work.tenantId, row.id) = some row ∧ row.tenantId = work.tenantId
          ∧ PassedEvaluation tables (work.tenantId, row.id) row
          ∧ promote tables.memories work.tenantId
            (activeRow tables.memories work.tenantId row) row = .ok tables'.memories) := by
  unfold executeEvolution at h
  split at h
  · cases h
  · rename_i row evaluation benchmark hleased
    obtain ⟨hrow, hevaluation, hbenchmark, htenant, -⟩ := leased_eq_some hkeyed hleased
    split at h
    · cases h
    · split at h
      · cases h
        exact ⟨rfl, .of_eq rfl, .inl rfl⟩
      · rename_i hpending
        rw [ne_eq, not_not] at hpending
        split at h
        · cases h
        · rename_i hcurrent
          rw [not_or, not_ne_iff, not_ne_iff] at hcurrent
          cases method with
          | load =>
              cases h
              exact ⟨rfl, .of_eq rfl, .inl rfl⟩
          | record =>
              dsimp only at h
              split at h
              · cases h
              · obtain ⟨evaluation', hrecord, h⟩ := Except.bind_ok h
                cases h
                exact ⟨rfl, .of_set hevaluation hpending (record_eq_ok hrecord) rfl, .inl rfl⟩
          | finish =>
              dsimp only [finish] at h
              split at h
              · cases h
                exact ⟨rfl, .of_eq rfl, .inl rfl⟩
              · rename_i summary hsummary
                split at h
                · rename_i hpassed
                  obtain ⟨memories, hmemories, h⟩ := Except.bind_ok h
                  cases h
                  refine ⟨rfl, ?_, .inr ⟨rfl, row, hrow, htenant, ⟨hcurrent.2, ?_⟩, hmemories⟩⟩
                  · refine .of_set hevaluation hpending ?_ rfl
                    exact fun _ _ hreport => hreport
                  · exact ⟨evaluation, benchmark, hevaluation, hbenchmark, hpending, hcurrent.1,
                      passed_of_decided hsummary hpassed⟩
                · obtain ⟨memories, hmemories, h⟩ := Except.bind_ok h
                  cases hmemories
                  cases h
                  refine ⟨rfl, ?_, .inl rfl⟩
                  refine .of_set hevaluation hpending ?_ rfl
                  exact fun _ _ hreport => hreport

/-- The candidate becomes active, and the active memory retires. -/
theorem promote_eq_ok {tenantId : String} {active : Option MemoryRow}
    (h : promote memories tenantId active row = .ok memories') :
    ∃ middle, (middle = memories ∨ ∃ id, Updates (tenantId, id) .retired memories middle)
      ∧ Updates (tenantId, row.id) .active middle memories'
      ∧ (OneActive memories → OneActive memories') := by
  unfold promote at h
  cases active with
  | none =>
      exact ⟨memories, .inl rfl, setStatus_updates h, fun hone => setStatus_oneActive hone h⟩
  | some active =>
      obtain ⟨middle, hretire, h⟩ := Except.bind_ok h
      exact ⟨middle, .inr ⟨active.id, setStatus_updates hretire⟩, setStatus_updates h,
        fun hone => setStatus_oneActive (setStatus_oneActive hone hretire) h⟩

theorem rollbackRow_eq_some {scope : MemoryScope} {id : String} {verdict : Verdict}
    (h : rollbackRow tables scope id = some (row, verdict)) :
    tables.memories.get? (scope.tenantId, id) = some row
      ∧ (∃ evaluation, tables.evaluations.get? (scope.tenantId, id) = some evaluation
        ∧ evaluation.verdict = verdict)
      ∧ row.scopeType = scope.scopeType ∧ row.scopeId = scope.scopeId ∧ row.origin = .evolved := by
  simp only [rollbackRow, Option.bind_eq_bind, Option.bind_eq_some_iff, Option.guard_eq_some',
    Option.pure_def, Option.some.injEq, Prod.mk.injEq] at h
  obtain ⟨row', hrow, evaluation, hevaluation, -, hscope, rfl, hverdict⟩ := h
  exact ⟨hrow, ⟨evaluation, hevaluation, hverdict⟩, hscope⟩

/-- A rollback retires the active memory, and restores a target that may be. -/
theorem rollbackEvolution_eq_ok (hkeyed : Keyed tables.memories) {scope : MemoryScope}
    {activeId : String} {expectedVersion : Nat} {targetId : Option String}
    (h : rollbackEvolution tables scope activeId expectedVersion targetId = .ok tables') :
    tables'.benchmarks = tables.benchmarks ∧ tables'.evaluations = tables.evaluations
      ∧ ∃ middle, Updates (scope.tenantId, activeId) .retired tables.memories middle
        ∧ (OneActive tables.memories → OneActive tables'.memories)
        ∧ (tables'.memories = middle ∨ ∃ id target,
          tables.memories.get? (scope.tenantId, id) = some target
            ∧ Restorable tables (scope.tenantId, id) target
            ∧ Updates (scope.tenantId, id) .active middle tables'.memories) := by
  unfold rollbackEvolution at h
  split at h
  · cases h
  · rename_i active verdict hactive
    obtain ⟨hrow, -, htype, hid, horigin⟩ := rollbackRow_eq_some hactive
    dsimp only at h
    split at h
    · cases h
    · rename_i hallowed
      simp only [not_or, not_and, ne_eq, not_not, Bool.not_eq_false] at hallowed
      obtain ⟨hstatus, -, hrestorable⟩ := hallowed
      obtain ⟨middle, hretire, h⟩ := Except.bind_ok h
      split at h
      · rename_i id hid'
        obtain ⟨memories, hrestore, h⟩ := Except.bind_ok h
        cases h
        obtain ⟨htarget, hne⟩ := Option.filter_eq_some_iff.mp hid'
        have hne' : id ≠ "" := by simpa using hne
        have hmay := hrestorable (by rw [htarget]; rfl)
        rw [htarget, Option.filter_some, if_pos (by simp [hne'])] at hmay
        unfold restorable at hmay
        obtain ⟨⟨target, verdict'⟩, hfound, hmay⟩ := (Option.any_eq_true _ _).mp hmay
        simp only [decide_eq_true_eq] at hmay
        obtain ⟨hretired, rfl, hkind⟩ := hmay
        obtain ⟨htargetRow, hevaluation, htype', hid'', -⟩ := rollbackRow_eq_some hfound
        refine ⟨rfl, rfl, middle, setStatus_updates hretire, ?_, .inr ⟨id, target, htargetRow, ?_,
          setStatus_updates hrestore⟩⟩
        · exact fun hone => setStatus_oneActive (setStatus_oneActive hone hretire) hrestore
        · refine ⟨hretired, hevaluation, _, active, hrow, ?_, ?_⟩
          · simp [MemoryRow.isActiveEvolved, horigin, hstatus]
          · have htenant := (Prod.mk.inj (hkeyed _ _ hrow)).1
            have htenant' := (Prod.mk.inj (hkeyed _ _ htargetRow)).1
            simp [MemoryRow.sameSlot, htenant, htenant', htype, htype', hid, hid'', hkind]
      · cases h
        exact ⟨rfl, rfl, middle, setStatus_updates hretire,
          fun hone => setStatus_oneActive hone hretire, .inl rfl⟩

/-! ## Any order of calls -/

/-- How a memory may become active in a step. -/
def ActivatedBy (tables : EvolutionTables) (event : Event) (key : MemoryKey) (row : MemoryRow) : Prop :=
  (∃ now work scopes args, event = .execute now work scopes .finish args)
      ∧ PassedEvaluation tables key row
    ∨ (∃ scope activeId expectedVersion targetId,
        event = .rollback scope activeId expectedVersion targetId) ∧ Restorable tables key row

/-- A step keeps the active places single and what is recorded, and activates no memory but a
    passed candidate or a restorable one. -/
theorem step_gated {event : Event} (hone : OneActive tables.memories)
    (hkeyed : Keyed tables.memories) (hstep : system.step tables event tables') :
    OneActive tables'.memories ∧ Keyed tables'.memories ∧ Keeps tables tables'
      ∧ ∀ key row', tables'.memories.get? key = some row' → row'.isActiveEvolved = true →
        ∃ row, tables.memories.get? key = some row
          ∧ (row.isActiveEvolved = true ∨ ActivatedBy tables event key row) := by
  have hsame : ∀ key row', tables.memories.get? key = some row' → row'.isActiveEvolved = true →
      ∃ row, tables.memories.get? key = some row
        ∧ (row.isActiveEvolved = true ∨ ActivatedBy tables event key row) :=
    fun key row hrow hactive => ⟨row, hrow, .inl hactive⟩
  cases event with
  | execute now work scopes method args =>
      simp only [system] at hstep
      split at hstep
      · rename_i answer left hexecute
        cases hstep
        obtain ⟨-, hkeeps, hmemories | ⟨rfl, row, hrow, htenant, hpassed, hpromote⟩⟩ :=
          executeEvolution_eq_ok hkeyed hexecute
        · rw [hmemories]
          exact ⟨hone, hkeyed, hkeeps, hsame⟩
        · obtain ⟨middle, hmiddle, hactivate, hone'⟩ := promote_eq_ok hpromote
          have hmiddleKeyed : Keyed middle := by
            rcases hmiddle with rfl | ⟨id, hretire⟩
            · exact hkeyed
            · exact hretire.keyed hkeyed
          refine ⟨hone' hone, hactivate.keyed hmiddleKeyed, hkeeps, ?_⟩
          intro key row' hrow' hactive
          -- a row of `middle` that is active was active before
          have hbefore : ∀ row, middle.get? key = some row → row.isActiveEvolved = true →
              tables.memories.get? key = some row := by
            intro row hrow hactive
            rcases hmiddle with rfl | ⟨id, hretire⟩
            · exact hrow
            · rcases hretire.active hrow hactive with hold | ⟨-, hstatus, -⟩
              · exact hold
              · cases hstatus
          rcases hactivate.active hrow' hactive with hold | ⟨rfl, -, -⟩
          · exact hsame key row' (hbefore row' hold hactive) hactive
          · exact ⟨row, hrow, .inr (.inl ⟨⟨now, work, scopes, args, rfl⟩, hpassed⟩)⟩
      · cases hstep
        exact ⟨hone, hkeyed, .of_eq rfl, hsame⟩
  | rollback scope activeId expectedVersion targetId =>
      simp only [system] at hstep
      split at hstep
      · rename_i left hrollback
        cases hstep
        obtain ⟨-, hevaluations, middle, hretire, hone', hmemories⟩ :=
          rollbackEvolution_eq_ok hkeyed hrollback
        have hbefore : ∀ key row, middle.get? key = some row → row.isActiveEvolved = true →
            tables.memories.get? key = some row := by
          intro key row hrow hactive
          rcases hretire.active hrow hactive with hold | ⟨-, hstatus, -⟩
          · exact hold
          · cases hstatus
        refine ⟨hone' hone, ?_, .of_eq hevaluations, ?_⟩
        · rcases hmemories with heq | ⟨id, target, -, -, hrestore⟩
          · rw [heq]
            exact hretire.keyed hkeyed
          · exact hrestore.keyed (hretire.keyed hkeyed)
        · intro key row' hrow' hactive
          rcases hmemories with heq | ⟨id, target, htarget, hrestorable, hrestore⟩
          · rw [heq] at hrow'
            exact hsame key row' (hbefore key row' hrow' hactive) hactive
          · rcases hrestore.active hrow' hactive with hold | ⟨rfl, -, -⟩
            · exact hsame key row' (hbefore key row' hold hactive) hactive
            · exact ⟨target, htarget,
                .inr (.inr ⟨⟨scope, activeId, expectedVersion, targetId, rfl⟩, hrestorable⟩)⟩
      · cases hstep
        exact ⟨hone, hkeyed, .of_eq rfl, hsame⟩
  | others =>
      have hbeside : Beside tables tables' := hstep
      refine ⟨?_, hbeside.keyed, ?_, ?_⟩
      · intro key key' row row' hrow hrow' hactive hactive' hslot
        exact hone key key' row row' (hbeside.evolved _ _ hrow hactive)
          (hbeside.evolved _ _ hrow' hactive') hactive hactive' hslot
      · intro key evaluation hevaluation
        exact ⟨evaluation, hbeside.evaluations _ _ hevaluation, fun _ _ h => h,
          fun _ => ⟨rfl, rfl⟩⟩
      · intro key row' hrow' hactive
        exact hsame key row' (hbeside.evolved _ _ hrow' hactive) hactive

theorem reachable_gated (h : system.Reachable tables) :
    OneActive tables.memories ∧ Keyed tables.memories := by
  refine h.invariant (I := fun tables => OneActive tables.memories ∧ Keyed tables.memories)
    (fun hstart => hstart) ?_
  rintro s e s' ⟨hone, hkeyed⟩ hstep
  obtain ⟨hone', hkeyed', -⟩ := step_gated hone hkeyed hstep
  exact ⟨hone', hkeyed'⟩

theorem run_keeps {events : List Event} (hone : OneActive tables.memories)
    (hkeyed : Keyed tables.memories) (hrun : system.Run tables events tables') :
    Keeps tables tables' := by
  refine (hrun.relates (I := fun tables => OneActive tables.memories ∧ Keyed tables.memories)
    (R := Keeps) (fun _ => .of_eq rfl) Keeps.trans ?_ ⟨hone, hkeyed⟩).2
  rintro s e s' ⟨hone, hkeyed⟩ hstep
  obtain ⟨hone', hkeyed', hkeeps, -⟩ := step_gated hone hkeyed hstep
  exact ⟨⟨hone', hkeyed'⟩, hkeeps⟩

/-- **In every state some order of calls leads to, at most one evolved memory of a scope and a
    kind is active; the next step activates no memory but a candidate that passed its complete
    evaluation against the baseline it was frozen with, or a retired memory that passed one and
    is restored; and what is recorded then is never changed.** -/
theorem evolution_gated (h : system.Reachable tables) :
    OneActive tables.memories
      ∧ (∀ event tables' key row', system.step tables event tables' →
        tables'.memories.get? key = some row' → row'.isActiveEvolved = true →
        ∃ row, tables.memories.get? key = some row
          ∧ (row.isActiveEvolved = true ∨ ActivatedBy tables event key row))
      ∧ ∀ events tables', system.Run tables events tables' → Keeps tables tables' := by
  obtain ⟨hone, hkeyed⟩ := reachable_gated h
  refine ⟨hone, ?_, fun events tables' hrun => run_keeps hone hkeyed hrun⟩
  intro event tables' key row' hstep hrow' hactive
  exact (step_gated hone hkeyed hstep).2.2.2 key row' hrow' hactive

private def evaluated (id : String) (status : MemoryStatus) : MemoryRow where
  tenantId := "t1"
  id := id
  scopeType := "project"
  scopeId := "s1"
  kind := "skill"
  body := "Check the total twice."
  origin := .evolved
  status := status
  version := 1

private def evaluationJob : JobRow :=
  { Jobs.EnqueueWorkInput.row
      { id := "j1", tenantId := "t1", agentId := "a1", sessionId := "s1", threadId := none,
        kind := "memory_evaluation", lane := .background, triggerRef := "m2",
        principalId := some "u1", conversation := none
        meta_ := some (.obj [("memoryId", .str "m2"), ("sourceRunId", .str "w1")]) } 0 with
    status := .leased, leaseExpiresAt := some 10 }

private def twoCases : EvolutionBenchmark where
  id := "b1"
  evaluatorVersion := "1"
  repetitions := 1
  gates := ["authorization"]
  cases := [⟨"c1", .target, .null⟩, ⟨"c2", .holdout, .null⟩]

/-- Only the candidate succeeds at the target. -/
private def fullReports : JsMap String EvolutionReport :=
  (slots twoCases).foldl (fun records slot => records.set slot.key
    ⟨slot.variant = .candidate || slot.case_.split = .holdout, [("authorization", true)], 1, 1⟩) .empty

private def passing : EvolutionTables where
  works := JsMap.empty.set "j1" evaluationJob
  sources := JsMap.empty.set "w1" ⟨"t1", "u1", true⟩
  memories := (JsMap.empty.set ("t1", "m1") (evaluated "m1" .active)).set
    ("t1", "m2") (evaluated "m2" .candidate)
  evaluations := JsMap.empty.set ("t1", "m2")
    { candidateVersion := 1, benchmarkId := "b1", records := fullReports, verdict := .pending
      baseline := some (referenceOf (evaluated "m1" .active), candidateOf (evaluated "m1" .active))
      summary := none }
  benchmarks := JsMap.empty.set ("t1", "b1") twoCases

private def finishPassing : Event :=
  .execute 1 evaluationJob [⟨"t1", "project", "s1"⟩] .finish []

private def finishCall : Except String (Answer × EvolutionTables) :=
  executeEvolution passing 1 evaluationJob [⟨"t1", "project", "s1"⟩] .finish []

/-- The last call decides over four reports: the candidate takes the place of the baseline. -/
theorem passing_candidate_activated : ∃ tables', system.step passing finishPassing tables'
    ∧ tables'.memories.get? ("t1", "m1") = some { evaluated "m1" .retired with version := 2 }
    ∧ tables'.memories.get? ("t1", "m2") = some { evaluated "m2" .active with version := 2 }
    ∧ ActivatedBy passing finishPassing ("t1", "m2") (evaluated "m2" .candidate)
    ∧ OneActive passing.memories := by
  have hrows : ∀ key row, passing.memories.get? key = some row →
      key = ("t1", "m2") ∧ row = evaluated "m2" .candidate
        ∨ key = ("t1", "m1") ∧ row = evaluated "m1" .active := by
    intro key row hrow
    simp only [passing, JsMap.get?_set, JsMap.get?_empty] at hrow
    split at hrow
    · rename_i hkey
      exact .inl ⟨hkey, (Option.some.inj hrow).symm⟩
    · split at hrow
      · rename_i hkey
        exact .inr ⟨hkey, (Option.some.inj hrow).symm⟩
      · cases hrow
  have hstart : system.start passing := by
    refine ⟨?_, ?_⟩
    · intro key key' row row' hrow hrow' hactive hactive' _
      obtain ⟨rfl, rfl⟩ | ⟨rfl, rfl⟩ := hrows key row hrow
      · cases hactive
      · obtain ⟨rfl, rfl⟩ | ⟨rfl, rfl⟩ := hrows key' row' hrow'
        · cases hactive'
        · rfl
    · intro key row hrow
      obtain ⟨rfl, rfl⟩ | ⟨rfl, rfl⟩ := hrows key row hrow
      · rfl
      · rfl
  obtain ⟨answer, left, hfinish⟩ : ∃ answer left, finishCall = .ok (answer, left) := by
    have hok : finishCall.isOk = true := by decide +kernel
    cases h : finishCall with
    | ok result => exact ⟨result.1, result.2, rfl⟩
    | error _ =>
        rw [h] at hok
        cases hok
  have hstep : system.step passing finishPassing left := by
    rw [finishCall] at hfinish
    simp only [system, finishPassing, hfinish]
  have hmemory : ∀ id row, finishCall.toOption.bind (·.2.memories.get? ("t1", id)) = some row →
      left.memories.get? ("t1", id) = some row := by
    intro id row h
    rw [hfinish] at h
    exact h
  have hactivated := hmemory "m2" { evaluated "m2" .active with version := 2 } (by decide +kernel)
  obtain ⟨hone, hgated, -⟩ := evolution_gated (.of_start hstart)
  refine ⟨left, hstep, hmemory _ _ (by decide +kernel), hactivated, ?_, hone⟩
  obtain ⟨row, hrow, hbefore⟩ := hgated _ left _ _ hstep hactivated rfl
  obtain ⟨-, rfl⟩ | ⟨hkey, -⟩ := hrows _ row hrow
  · exact hbefore.resolve_left (by decide)
  · exact absurd hkey (by decide)

end Evolution

end LingxiOS
