-- SUMMARY: When a repeated commitResult is recognised.
import LingxiOS.ControlPlane.CommitResult

/-! # Repeating a Commit

The delivery gives the lease up, so a repeated call is only known by the message that is
stored. Trusted components, added inside the delivery, make it another message, and so does
the result of a later attempt. -/

namespace LingxiOS

namespace CommitResult

open Jobs (JobRow)
open CommitTables

variable {env env' : CommitEnv} {tables tables' tables'' : CommitTables} {now later : Int}
  {proof : LeaseProof} {message message' : AssistantMessage} {work stored : JobRow}
  {resultId : String}

/-! ## What holds of the tables -/

/-- Works are stored under their id. -/
def Keyed (tables : CommitTables) : Prop :=
  ∀ id row, tables.works.get? id = some row → row.id = id

/-- The lease of a work is one of its attempts, as the trigger on the table records it. -/
def Tracked (tables : CommitTables) : Prop :=
  ∀ id row hash, tables.works.get? id = some row → row.status = .leased →
    row.leaseTokenHash = some hash → ⟨id, row.fence, hash⟩ ∈ tables.attempts

/-- A result is stored under the digest of its message. -/
def Addressed (env : CommitEnv) (tables : CommitTables) : Prop :=
  ∀ workId message row, tables.results.get? (resultIdOf env workId message) = some row →
    row.message = message

/-- What any later state keeps: attempts, works and results are never deleted, and every new
    lease raises the fence. The run may have got another result. -/
structure Since (proof : LeaseProof) (tables tables'' : CommitTables) : Prop where
  attempts : tables.attempts ⊆ tables''.attempts
  work : ∀ row, tables.works.get? proof.id = some row → ∃ row'',
    tables''.works.get? proof.id = some row'' ∧ row''.id = row.id
      ∧ (row''.fence = proof.fence → row''.leaseTokenHash = none)
  results : ∀ id row, tables.results.get? id = some row → tables''.results.get? id = some row

/-- `result_id` of a run. -/
def resultOf (tables : CommitTables) (runId : String) : Option String :=
  (tables.works.get? runId).bind JobRow.resultId

/-- No component had been rendered for the message, if the run still has the result it was
    delivered with; and where a later attempt replaced that result, it is of the same message. -/
structure KeptAsPresented (env : CommitEnv) (tables tables' tables'' : CommitTables)
    (proof : LeaseProof) (message : AssistantMessage) : Prop where
  kept : resultOf tables'' proof.id = resultOf tables' proof.id →
    env.presents = false ∨ tables.rendered proof.id message.envelope.requestVersion = []
  replaced : resultOf tables'' proof.id ≠ resultOf tables' proof.id →
    ∃ result, (resultOf tables'' proof.id).bind tables''.results.get? = some result
      ∧ result.message = message

/-! ## The lease -/

theorem getLeased_eq_some_iff : tables.getLeased now proof = some work ↔
    tables.works.get? proof.id = some work ∧ work.fence = proof.fence
      ∧ work.leaseTokenHash = some proof.leaseTokenHash ∧ work.status = .leased
      ∧ work.leaseExpiresAt.any (now < ·) = true := by
  simp [getLeased, Option.filter_eq_some_iff]

theorem requireLease_eq_ok (h : tables.requireLease now proof = .ok work) :
    tables.getLeased now proof = some work := by
  unfold requireLease at h
  split at h
  · cases h
  · split at h
    · cases h
    · rename_i found hfound
      split at h
      · cases h
      · cases h
        exact hfound

/-- A call without the lease that is not a repetition is refused, and changes nothing. -/
theorem commitResult_unleased (env : CommitEnv) (hlease : tables.getLeased now proof = none)
    (hreplay : tables.replays now proof message = false) :
    ∃ e, tables.commitResult env now proof message = (.error e, tables) := by
  unfold commitResult
  rw [hreplay, if_neg Bool.false_ne_true]
  cases hrequire : tables.requireLease now proof with
  | error e => exact ⟨_, rfl⟩
  | ok work => simp [requireLease_eq_ok hrequire] at hlease

/-! ## The message that is stored -/

theorem checkEnvelope_presentations (h : checkEnvelope env work message = .ok ()) :
    message.envelope.presentations = none := by
  unfold checkEnvelope at h
  obtain ⟨expected, -, h⟩ := Except.bind_ok h
  split at h
  · cases h
  · rename_i hsame
    rw [← not_not.mp hsame]
    rfl

theorem mapM_isEmpty {α β : Type} {f : α → Except String β} {xs : List α} {ys : List β}
    (h : xs.mapM f = .ok ys) : ys.isEmpty = xs.isEmpty := by
  cases xs with
  | nil =>
      cases h
      rfl
  | cons x xs =>
      rw [List.mapM_cons] at h
      obtain ⟨y, -, h⟩ := Except.bind_ok h
      obtain ⟨ys', -, h⟩ := Except.bind_ok h
      cases h
      rfl

/-- A message without components is stored as it is exactly when none was rendered. -/
theorem present_eq_self_iff (hnone : message.envelope.presentations = none)
    (h : tables.present env work message = .ok message') : message' = message ↔
      env.presents = false ∨ tables.rendered work.id message.envelope.requestVersion = [] := by
  unfold present at h
  cases hpresents : env.presents with
  | false =>
      rw [hpresents, if_neg Bool.false_ne_true] at h
      cases h
      exact iff_of_true rfl (.inl rfl)
  | true =>
      rw [hpresents, if_pos rfl] at h
      simp only [Except.throw_eq_error, Except.pure_eq_ok] at h
      split at h
      · cases h
      · obtain ⟨-, -, h⟩ := Except.bind_ok h
        obtain ⟨components, hcomponents, h⟩ := Except.bind_ok h
        have hempty := mapM_isEmpty hcomponents
        split at h
        · rename_i hnil
          cases h
          refine iff_of_true rfl (.inr ?_)
          rw [hempty] at hnil
          exact List.isEmpty_iff.mp hnil
        · rename_i hsome
          cases h
          refine iff_of_false ?_ ?_
          · intro heq
            rw [← heq] at hnone
            cases hnone
          · rintro (h | hnil)
            · cases h
            · simp [hempty, hnil] at hsome

/-! ## The delivery -/

theorem deliverMessage_eq_ok (h : tables.deliverMessage env now work message = .ok tables') :
    ∃ stored message', tables.works.get? work.id = some stored
      ∧ tables.present env work message = .ok message'
      ∧ tables' = tables.store env now work stored (resultIdOf env work.id message') message' := by
  unfold deliverMessage at h
  obtain ⟨-, -, h⟩ := Except.bind_ok h
  cases hcurrent : tables.current now work message.envelope.requestVersion with
  | none => simp [hcurrent] at h
  | some stored =>
      simp only [hcurrent] at h
      obtain ⟨-, -, h⟩ := Except.bind_ok h
      obtain ⟨message', hpresent, h⟩ := Except.bind_ok h
      obtain ⟨-, -, h⟩ := Except.bind_ok h
      have hstored : tables.works.get? work.id = some stored :=
        (Option.filter_eq_some_iff.mp hcurrent).1
      refine ⟨stored, message', hstored, hpresent, ?_⟩
      split at h
      · obtain ⟨-, -, h⟩ := Except.bind_ok h
        exact (Except.ok.inj h).symm
      · exact (Except.ok.inj h).symm

/-- The work has the result, and its lease is gone. -/
theorem store_work (tables : CommitTables) (env : CommitEnv) (now : Int) (work stored : JobRow)
    (resultId : String) (message : AssistantMessage) : ∃ row,
      (tables.store env now work stored resultId message).works.get? work.id = some row
        ∧ row.id = stored.id ∧ row.resultId = some resultId ∧ row.leaseTokenHash = none := by
  unfold store
  dsimp only
  split
  · exact ⟨_, JsMap.get?_set_self .., rfl, rfl, rfl⟩
  · rw [Jobs.cancelDescendants, JsMap.get?_mapValues, JsMap.get?_set_self, Option.map_some]
    refine ⟨_, rfl, ?_⟩
    split <;> exact ⟨rfl, rfl, rfl⟩

/-- The result is there, under its message. -/
theorem store_result (haddressed : Addressed env tables) (now : Int) (work stored : JobRow)
    (message : AssistantMessage) :
    ∃ row, (tables.store env now work stored (resultIdOf env work.id message)
        message).results.get? (resultIdOf env work.id message) = some row
      ∧ row.message = message := by
  unfold store
  dsimp only
  split
  · rename_i hhas
    obtain ⟨row, hrow⟩ := Option.isSome_iff_exists.mp hhas
    exact ⟨row, hrow, haddressed _ _ _ hrow⟩
  · exact ⟨_, JsMap.get?_set_self .., rfl⟩

/-! ## The call -/

/-- A renewed lease leaves everything else of the tables. -/
theorem heartbeat_eq (hkeyed : Keyed tables) (env : CommitEnv) (now : Int) (proof : LeaseProof) :
    ∃ works, (tables.heartbeat env now proof).2 = { tables with works := works }
      ∧ Keyed { tables with works := works } := by
  unfold heartbeat
  split
  · exact ⟨tables.works, rfl, hkeyed⟩
  · rename_i found hfound
    refine ⟨_, rfl, ?_⟩
    intro id row hrow
    rw [JsMap.get?_set] at hrow
    split at hrow
    · rename_i hid
      cases hrow
      rw [hid]
      exact hkeyed _ found (getLeased_eq_some_iff.mp hfound).1
    · exact hkeyed id row hrow

/-- A call that was accepted under its lease delivered the message, and its envelope was the
    one that its records make. -/
theorem commitResult_leased (hkeyed : Keyed tables)
    (hleased : (tables.getLeased now proof).isSome = true)
    (h : tables.commitResult env now proof message = (.ok (), tables')) :
    ∃ work works, tables.getLeased now proof = some work
      ∧ message.envelope.presentations = none ∧ Keyed { tables with works := works }
      ∧ deliverMessage { tables with works := works } env now work message = .ok tables' := by
  have hreplay : tables.replays now proof message = false := by
    obtain ⟨work, hwork⟩ := Option.isSome_iff_exists.mp hleased
    simp [CommitTables.replays, hwork]
  unfold commitResult at h
  rw [hreplay, if_neg Bool.false_ne_true] at h
  split at h
  · cases h
  · rename_i work hwork
    split at h
    · cases h
    · cases h
    · obtain ⟨works, hworks, hkeyed⟩ := heartbeat_eq hkeyed env now proof
      obtain ⟨works', hworks', hkeyed'⟩ := heartbeat_eq hkeyed env now proof
      dsimp only at h
      rw [hworks] at h
      split at h
      · cases h
      · cases h
      · rename_i henvelope
        rw [hworks'] at h
        split at h
        · cases h
        · split at h
          · cases h
          · rename_i tables'' hdeliver
            cases h
            exact ⟨work, works', requireLease_eq_ok hwork, checkEnvelope_presentations henvelope,
              hkeyed', hdeliver⟩

/-- What an accepted call leaves: the lease is gone, the attempt is on record, and the run has
    the message as it was presented to its readers. -/
theorem commitResult_stored (hkeyed : Keyed tables) (htracked : Tracked tables)
    (haddressed : Addressed env tables) (hleased : (tables.getLeased now proof).isSome = true)
    (h : tables.commitResult env now proof message = (.ok (), tables')) :
    ∃ row result message', tables'.works.get? proof.id = some row ∧ row.id = proof.id
      ∧ row.leaseTokenHash = none
      ∧ ⟨proof.id, proof.fence, proof.leaseTokenHash⟩ ∈ tables'.attempts
      ∧ row.resultId.bind tables'.results.get? = some result ∧ result.message = message'
      ∧ (message' = message ↔ env.presents = false
        ∨ tables.rendered proof.id message.envelope.requestVersion = []) := by
  obtain ⟨work, works, hwork, hnone, hkeyed', hdeliver⟩ := commitResult_leased hkeyed hleased h
  obtain ⟨hfound, hfence, htoken, hstatus, -⟩ := getLeased_eq_some_iff.mp hwork
  have hid : work.id = proof.id := hkeyed _ _ hfound
  obtain ⟨stored, message', hstored, hpresent, rfl⟩ := deliverMessage_eq_ok hdeliver
  obtain ⟨row, hrow, hrowId, hresultId, hunleased⟩ :=
    store_work { tables with works := works } env now work stored
      (resultIdOf env work.id message') message'
  have haddressed' : Addressed env { tables with works := works } := haddressed
  obtain ⟨result, hresult, hmessage⟩ := store_result haddressed' now work stored message'
  have hattempt := htracked _ _ _ hfound hstatus htoken
  rw [hfence] at hattempt
  have hsame := present_eq_self_iff hnone hpresent
  rw [hid] at hsame
  refine ⟨row, result, message', ?_, ?_, hunleased, hattempt, ?_, hmessage, hsame⟩
  · rw [← hid]
    exact hrow
  · rw [hrowId, hkeyed' _ _ hstored, hid]
  · rw [hresultId, Option.bind_some]
    exact hresult

/-- Nothing has happened yet. -/
theorem Since.refl (hkeyed : Keyed tables) (hleased : (tables.getLeased now proof).isSome = true)
    (h : tables.commitResult env now proof message = (.ok (), tables')) :
    Since proof tables' tables' := by
  obtain ⟨work, works, hwork, -, -, hdeliver⟩ := commitResult_leased hkeyed hleased h
  obtain ⟨stored, message', -, -, rfl⟩ := deliverMessage_eq_ok hdeliver
  refine ⟨fun _ h => h, fun row hrow => ⟨row, hrow, rfl, fun _ => ?_⟩, fun _ _ h => h⟩
  obtain ⟨row', hrow', -, -, hunleased⟩ := store_work { tables with works := works } env now work
    stored (resultIdOf env work.id message') message'
  rw [← hkeyed _ _ (getLeased_eq_some_iff.mp hwork).1, hrow'] at hrow
  cases hrow
  exact hunleased

/-- A call is recognised as a repetition exactly when the run has its message. -/
theorem replays_iff {row : JobRow} (hlease : tables.getLeased now proof = none)
    (hattempt : ⟨proof.id, proof.fence, proof.leaseTokenHash⟩ ∈ tables.attempts)
    (hrow : tables.works.get? proof.id = some row) (hid : row.id = proof.id) :
    tables.replays now proof message = true ↔
      ∃ result, (resultOf tables proof.id).bind tables.results.get? = some result
        ∧ result.message = message := by
  have hgot : (tables.getAttempt proof).bind tables.getMessage
      = ((resultOf tables proof.id).bind tables.results.get?).map ResultRow.message := by
    simp [getAttempt, hattempt, hrow, getMessage, hid, Option.filter_some, resultOf]
  rw [CommitTables.replays, hlease, hgot]
  cases (resultOf tables proof.id).bind tables.results.get? with
  | none => simp
  | some result => simp

/-- Without the lease, a call is answered as accepted exactly when it is a repetition. -/
theorem commitResult_replayed_iff (env : CommitEnv) (hlease : tables.getLeased now proof = none) :
    tables.commitResult env now proof message = (.ok (), tables) ↔
      tables.replays now proof message = true := by
  constructor
  · intro hagain
    by_contra hnew
    rw [Bool.not_eq_true] at hnew
    obtain ⟨e, herror⟩ := commitResult_unleased env hlease hnew
    rw [herror] at hagain
    cases hagain
  · intro hreplays
    unfold commitResult
    rw [hreplays, if_pos rfl]

/-- **At any later state, a repeated call is answered as the first one was, and changes nothing,
    exactly when the run has the message as it was presented.** -/
theorem commitResult_again_iff (hkeyed : Keyed tables) (htracked : Tracked tables)
    (haddressed : Addressed env tables) (hleased : (tables.getLeased now proof).isSome = true)
    (h : tables.commitResult env now proof message = (.ok (), tables'))
    (hsince : Since proof tables' tables'') :
    tables''.commitResult env' later proof message = (.ok (), tables'') ↔
      KeptAsPresented env tables tables' tables'' proof message := by
  obtain ⟨row, result, message', hrow, hid, -, hattempt, hresult, hmessage, hsame⟩ :=
    commitResult_stored hkeyed htracked haddressed hleased h
  obtain ⟨row'', hrow'', hid'', hunleased⟩ := hsince.work row hrow
  have hlease : tables''.getLeased later proof = none := by
    cases hfound : tables''.getLeased later proof with
    | none => rfl
    | some found =>
        obtain ⟨hfound, hfence, htoken, -⟩ := getLeased_eq_some_iff.mp hfound
        rw [hrow''] at hfound
        cases hfound
        simp [hunleased hfence] at htoken
  -- the result of the first call is still stored, whichever one the run has now
  obtain ⟨resultId, hresultId, hstored⟩ := Option.bind_eq_some_iff.mp hresult
  have hfirst : (resultOf tables' proof.id).bind tables''.results.get? = some result := by
    rw [resultOf, hrow, Option.bind_some, hresultId, Option.bind_some]
    exact hsince.results _ _ hstored
  rw [commitResult_replayed_iff env' hlease,
    replays_iff hlease (hsince.attempts hattempt) hrow'' (hid''.trans hid)]
  constructor
  · intro hhas
    refine ⟨?_, fun _ => hhas⟩
    intro hkept
    obtain ⟨found, hfound, hits⟩ := hhas
    rw [hkept, hfirst] at hfound
    cases hfound
    exact hsame.mp (hmessage.symm.trans hits)
  · intro hkept
    by_cases hresults : resultOf tables'' proof.id = resultOf tables' proof.id
    · refine ⟨result, by rw [hresults, hfirst], ?_⟩
      rw [hmessage, hsame]
      exact hkept.kept hresults
    · exact hkept.replaced hresults

/-! ### A chart that was rendered for the message -/

private def chartWork : JobRow where
  id := "w"
  fence := 1
  tenantId := "t"
  agentId := "a"
  sessionId := "s"
  threadId := none
  kind := "turn"
  lane := .interactive
  triggerRef := "m1"
  principalId := some "u"
  priority := 0
  status := .leased
  createdAt := 0
  availableAt := 0
  attempts := 1
  preemptions := 0
  leaseTokenHash := some "digest of token"
  leasedBy := some "worker"
  leaseExpiresAt := some 60000
  cancelRequestedAt := none
  preemptRequestedAt := none
  steerInputs := []
  goalOutcome := none
  error := none
  meta_ := none
  conversation := none
  resultId := none
  finishedAt := none

private def chartProof : LeaseProof := ⟨"w", 1, "digest of token"⟩

private def chartOutcome : GoalOutcome := ⟨.blocked, .notRun, 1, some ["no data"], none⟩

private def chartCandidate : CandidateEnvelope where
  body := "Here is the chart"
  artifacts := []
  goalOutcome := chartOutcome
  rest := [("citationEvidence", .arr []), ("citations", .arr []),
    ("evidenceSnapshotId", .str "w:evidence:1")]

private def chartMessage : AssistantMessage :=
  ⟨"w", "a", "s", none, "Here is the chart", chartCandidate.envelope⟩

/-- The digest of the one result that is committed. -/
private def chartEnv (digest : String) : CommitEnv where
  sha256 := fun _ => digest
  leaseTtlMs := 60000
  checkRecords := fun _ _ => .ok ()
  recompute := fun _ _ => .ok chartCandidate
  persistArtifacts := fun _ _ => .ok ()
  authorizeConversation := fun _ => .ok ()
  presents := true
  renderContract := "contract"
  prepare := fun _ _ => .ok ()
  accept := fun _ _ => .ok ()
  learns := false
  delivers := true

private def chartComponent : Json :=
  .obj [("fields", .obj [("total", .num 12)]),
    ("hash", .str "cdb9f75a4f7b5fd228d2542704c620c3b6c797beb140b5157bf06a0ee44fc8ac"),
    ("reference", .str "sales"),
    ("sources", .arr [.obj [("observedAt", .str "2026-01-02T00:00:00.000Z"), ("ref", .str "crm"),
      ("version", .str "7")]]),
    ("type", .str "chart"), ("version", .str "1")]

private def chartRendering : ActionRow where
  idempotencyKey := "k"
  recordedAt := 5
  intent := ⟨"w", "t", some "u", "a", "s", none, some 1, some "contract",
    ⟨"w", "c1", 0, "presentation.render", [], "k"⟩⟩
  result := { ok := true, value := some (.obj [("presentation", chartComponent)]) }

private def chartTables (actions : List ActionRow) : CommitTables where
  works := ⟨[("w", chartWork)], by simp⟩
  attempts := [⟨"w", 1, "digest of token"⟩]
  results := .empty
  actions := actions
  memoryCapture := []
  deliveryOutbox := []
  runEvents := []

private def chartCommit (actions : List ActionRow) (digest : String) :
    Except Failure Unit × CommitTables :=
  (chartTables actions).commitResult (chartEnv digest) 10 chartProof chartMessage

private theorem chartFound {actions : List ActionRow} {id : String} {row : JobRow}
    (h : (chartTables actions).works.get? id = some row) : id = "w" ∧ row = chartWork := by
  have hmem := JsMap.get?_eq_some_iff.mp h
  simpa [chartTables] using hmem

/-- Without a rendering the call may be repeated. -/
theorem plain_commit_again :
    let left := (chartCommit [] "6f3ff4fd85d8f85da0b6a5bca30b488675fc68513dc130229c3ee254a3ff7e5e").2
    left.commitResult (chartEnv "") 20 chartProof chartMessage = (.ok (), left) := by
  intro left
  have hkeyed : Keyed (chartTables []) := by
    intro id row hrow
    obtain ⟨rfl, rfl⟩ := chartFound hrow
    rfl
  have htracked : Tracked (chartTables []) := by
    intro id row hash hrow _ htoken
    obtain ⟨rfl, rfl⟩ := chartFound hrow
    cases htoken
    decide
  have hcommit : chartCommit []
      "6f3ff4fd85d8f85da0b6a5bca30b488675fc68513dc130229c3ee254a3ff7e5e" = (.ok (), left) := rfl
  exact (commitResult_again_iff hkeyed htracked (fun _ _ _ h => nomatch h) rfl hcommit
    (.refl hkeyed rfl hcommit)).mpr ⟨fun _ => .inr rfl, fun h => absurd rfl h⟩

/-- The chart is delivered with the message, and the repeated call is told that its lease is
    lost. -/
theorem rendered_commit_refused :
    let first := chartCommit [chartRendering]
      "0761ffa9e30246055b367c8f34158860a00ae588b9c9971acc12ed630ba2f84d"
    first.1 = .ok ()
      ∧ (first.2.commitResult (chartEnv "") 20 chartProof chartMessage).1
        = .error (.controlPlane ⟨409, "work lease lost or expired", some "lease_lost"⟩) := by
  decide +kernel

end CommitResult

end LingxiOS
