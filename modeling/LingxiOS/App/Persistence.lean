-- SUMMARY: What every step of the application keeps of runs, sessions and saved requests.
import LingxiOS.App.System

/-! # Persistence

A step keeps every run with what it belongs to, and adds to its steering inputs only
at the end: `reviseRun` and `continueInput` add one entry each, every other step adds
none. Sessions keep their identity and never go back to an older revision. -/

namespace LingxiOS

namespace App

open Collaboration (require_eq_ok_iff)
open Jobs (JobRow StoredRunIdentity)

/-! ## What a step keeps -/

/-- A stored session that may have been saved since. -/
structure SameSession (session session' : SessionRecord) : Prop where
  tenantId : session'.tenantId = session.tenantId
  agentId : session'.agentId = session.agentId
  sessionId : session'.sessionId = session.sessionId
  threadId : session'.threadId = session.threadId
  revision : session.revision ≤ session'.revision

theorem SameSession.refl (session : SessionRecord) : SameSession session session :=
  ⟨rfl, rfl, rfl, rfl, Nat.le_refl _⟩

theorem SameSession.trans {a b c : SessionRecord} (h : SameSession a b) (h' : SameSession b c) :
    SameSession a c :=
  ⟨h'.tenantId.trans h.tenantId, h'.agentId.trans h.agentId, h'.sessionId.trans h.sessionId,
    h'.threadId.trans h.threadId, Nat.le_trans h.revision h'.revision⟩

/-- Runs, sessions and saved requests stay what they are, and inputs are only added to. -/
structure Persists (db db' : Database) : Prop where
  works : ∀ {id work}, db.works.get? id = some work → ∃ work', db'.works.get? id = some work' ∧
    SameRun work work' ∧ work.steerInputs <+: work'.steerInputs
  conversations : db'.tables.conversations = db.tables.conversations
  threads : db'.tables.threads = db.tables.threads
  sessions : ∀ {key session}, db.sessions.get? key = some session →
    ∃ session', db'.sessions.get? key = some session' ∧ SameSession session session'
  requests : ∀ {id row}, db.requests.get? id = some row →
    ∃ row', db'.requests.get? id = some row' ∧ row'.sessionKey = row.sessionKey

theorem Persists.refl (db : Database) : Persists db db where
  works {_ work} h := ⟨work, h, .refl work, List.prefix_rfl⟩
  conversations := rfl
  threads := rfl
  sessions {_ session} h := ⟨session, h, .refl session⟩
  requests {_ row} h := ⟨row, h, rfl⟩

theorem Persists.trans {a b c : Database} (h : Persists a b) (h' : Persists b c) : Persists a c where
  works hwork := by
    obtain ⟨work', hwork', hrun, hinputs⟩ := h.works hwork
    obtain ⟨work'', hwork'', hrun', hinputs'⟩ := h'.works hwork'
    exact ⟨work'', hwork'', hrun.trans hrun', hinputs.trans hinputs'⟩
  conversations := h'.conversations.trans h.conversations
  threads := h'.threads.trans h.threads
  sessions hsession := by
    obtain ⟨session', hsession', hsame⟩ := h.sessions hsession
    obtain ⟨session'', hsession'', hsame'⟩ := h'.sessions hsession'
    exact ⟨session'', hsession'', hsame.trans hsame'⟩
  requests hrow := by
    obtain ⟨row', hrow', hkey⟩ := h.requests hrow
    obtain ⟨row'', hrow'', hkey'⟩ := h'.requests hrow'
    exact ⟨row'', hrow'', hkey'.trans hkey⟩

/-- The steering inputs of a run; one that is not stored has none. -/
def inputsOf (works : JsMap String JobRow) (id : String) : List SteerInput :=
  ((works.get? id).map fun work => work.steerInputs).getD []

theorem inputsOf_of_some {works : JsMap String JobRow} {id : String} {work : JobRow}
    (h : works.get? id = some work) : inputsOf works id = work.steerInputs := by
  rw [inputsOf, h]
  rfl

theorem Keeps.inputsOf {works works' : JsMap String JobRow} (h : Keeps works works') (id : String) :
    inputsOf works' id = inputsOf works id := by
  cases hwork : works.get? id with
  | some work =>
      obtain ⟨work', hwork', hsame⟩ := h.rows hwork
      rw [inputsOf_of_some hwork, inputsOf_of_some hwork', hsame.inputs]
  | none =>
      cases hwork' : works'.get? id with
      | none => simp [App.inputsOf, hwork, hwork']
      | some work' =>
          obtain hsome | hnone := h.inserted hwork'
          · simp [hwork] at hsome
          · simp [App.inputsOf, hwork, hwork', hnone]

/-- One entry is added to the inputs of one run. -/
structure Adds (id : String) (entry : SteerInput) (works works' : JsMap String JobRow) : Prop where
  target : ∃ work work', works.get? id = some work ∧ works'.get? id = some work' ∧ SameRun work work'
    ∧ work'.steerInputs = work.steerInputs ++ [entry]
  rest : ∀ {other work}, other ≠ id → works.get? other = some work →
    ∃ work', works'.get? other = some work' ∧ SameInputs work work'
  inserted : ∀ {other work'}, works'.get? other = some work' → (works.get? other).isSome = true

namespace Adds

variable {id : String} {entry : SteerInput} {works works' works'' : JsMap String JobRow}

theorem set {work changed : JobRow} (hwork : works.get? id = some work) (hrun : SameRun work changed)
    (hinputs : changed.steerInputs = work.steerInputs ++ [entry]) :
    Adds id entry works (works.set id changed) where
  target := ⟨work, changed, hwork, JsMap.get?_set_self .., hrun, hinputs⟩
  rest {other row} hne hrow := ⟨row, by rw [JsMap.get?_set_of_ne _ hne, hrow], .refl row⟩
  inserted {other row} hrow := by
    rw [JsMap.get?_set] at hrow
    split at hrow
    · rename_i hother
      rw [hother, hwork]
      rfl
    · exact Option.isSome_iff_exists.2 ⟨row, hrow⟩

/-- Cancelling descendants adds nothing. -/
theorem cancelDescendants (h : Adds id entry works works') (now : Int) (parentId : String) :
    Adds id entry works (Jobs.cancelDescendants now works' parentId) where
  target := by
    obtain ⟨work, work', hwork, hwork', hrun, hinputs⟩ := h.target
    obtain ⟨work'', hwork'', hsame⟩ := (Keeps.cancelDescendants now works' parentId).rows hwork'
    exact ⟨work, work'', hwork, hwork'', hrun.trans hsame.run, hsame.inputs.trans hinputs⟩
  rest hne hwork := by
    obtain ⟨work', hwork', hsame⟩ := h.rest hne hwork
    obtain ⟨work'', hwork'', hsame'⟩ := (Keeps.cancelDescendants now works' parentId).rows hwork'
    exact ⟨work'', hwork'', hsame.trans hsame'⟩
  inserted {other row} hrow := by
    rw [Jobs.cancelDescendants, JsMap.get?_mapValues] at hrow
    obtain ⟨work', hwork', -⟩ := Option.map_eq_some_iff.1 hrow
    exact h.inserted hwork'

theorem inputsOf (h : Adds id entry works works') (other : String) :
    inputsOf works' other = App.inputsOf works other ++ if other = id then [entry] else [] := by
  by_cases hother : other = id
  · subst hother
    obtain ⟨work, work', hwork, hwork', -, hinputs⟩ := h.target
    rw [inputsOf_of_some hwork, inputsOf_of_some hwork', hinputs, if_pos rfl]
  · rw [if_neg hother, List.append_nil]
    cases hwork : works.get? other with
    | some work =>
        obtain ⟨work', hwork', hsame⟩ := h.rest hother hwork
        rw [inputsOf_of_some hwork, inputsOf_of_some hwork', hsame.inputs]
    | none =>
        cases hwork' : works'.get? other with
        | none => simp [App.inputsOf, hwork, hwork']
        | some work' =>
            have hstored := h.inserted hwork'
            simp [hwork] at hstored

end Adds

/-! ## The two transactions that add an input -/

section

variable {now : Int} {db db' : Database}

theorem reviseRun_ok {randomUUID : String} {identity : StoredRunIdentity} {text : String}
    {author : SteerAuthor} {found : Bool}
    (h : reviseRun now randomUUID identity text author db = .ok (found, db')) :
    db' = db ∨ ∃ works, db' = db.withWorks works ∧
      Adds identity.runId ⟨randomUUID, text, now, some author, none⟩ db.works works := by
  simp only [reviseRun, Except.bind_eq_ok_iff] at h
  obtain ⟨-, -, -, -, -, -, h⟩ := h
  cases hwork : db.works.get? identity.runId with
  | none =>
      rw [hwork] at h
      cases h
      exact .inl rfl
  | some work =>
      rw [hwork] at h
      simp only at h
      split at h
      · cases h
        refine .inr ⟨_, rfl, Adds.cancelDescendants (.set hwork ?_ rfl) now identity.runId⟩
        exact ⟨rfl, rfl, rfl, rfl, rfl, rfl⟩
      · cases h
        exact .inl rfl

/-- The rows `continueInput` joins. -/
structure Joins (db : Database) (input : InputContinuation) (row : ContinuationRow) : Prop where
  work : db.works.get? input.runId = some row.work
  identity : row.work.tenantId = input.tenantId ∧ row.work.agentId = input.agentId
    ∧ row.work.sessionId = input.sessionId ∧ row.work.principalId = some input.principalId
    ∧ row.work.threadId = input.threadId
  session : db.sessions.get? input.sessionKey = some row.session
  sameSession : row.session.tenantId = row.work.tenantId ∧ row.session.agentId = row.work.agentId
    ∧ row.session.sessionId = row.work.sessionId ∧ row.session.threadId = row.work.threadId
  request : db.requests.get? input.runId = some ⟨input.sessionKey, row.request⟩

theorem continuationRow_iff {input : InputContinuation} {row : ContinuationRow} :
    continuationRow db input = some row ↔ Joins db input row := by
  obtain ⟨work, session, request⟩ := row
  simp only [continuationRow, Option.bind_eq_bind, Option.bind_eq_some_iff, Option.filter_eq_some_iff,
    decide_eq_true_eq, Option.some.injEq, ContinuationRow.mk.injEq]
  constructor
  · rintro ⟨_, ⟨hwork, hidentity⟩, _, ⟨hsession, hsame⟩, ⟨key, request⟩, ⟨hrequest, hkey⟩, rfl, rfl, rfl⟩
    obtain rfl : key = input.sessionKey := hkey
    exact ⟨hwork, hidentity, hsession, hsame, hrequest⟩
  · rintro ⟨hwork, hidentity, hsession, hsame, hrequest⟩
    exact ⟨work, ⟨hwork, hidentity⟩, session, ⟨hsession, hsame⟩, ⟨input.sessionKey, request⟩,
      ⟨hrequest, rfl⟩, rfl, rfl, rfl⟩

/-- A call that passed every check before the revisions are read. -/
structure Admitted (db : Database) (input : InputContinuation) (row : ContinuationRow) : Prop where
  valid : checkContinuation input = .ok ()
  attachments : snapshotAttachments input.stored = .ok input.stored
  authorized : authorizeRun db.tables input.identity = .ok ()
  joins : Joins db input row

theorem snapshotAttachments_mapError_iff {ε : Type} {items snapshot : List RequestAttachment}
    {f : String → ε} : (snapshotAttachments items).mapError f = .ok snapshot
      ↔ snapshot = items ∧ snapshotAttachments items = .ok items := by
  rw [Except.mapError_eq_ok_iff]
  constructor
  · intro h
    obtain ⟨rfl, -⟩ := snapshotAttachments_eq_ok h
    exact ⟨rfl, h⟩
  · rintro ⟨rfl, h⟩
    exact h

/-- An answer either repeats one that is there, or is added. -/
theorem continueInput_ok_iff {input : InputContinuation} {status : Continued} :
    continueInput now db input = .ok (status, db') ↔ ∃ row, Admitted db input row ∧
      ((∃ existing, row.work.steerInputs.find? (·.id = input.revisionId) = some existing
          ∧ existing.text = input.text
          ∧ (attachmentsOf existing).map GivenAttachment.readBack = input.attachments.getD []
          ∧ status = .alreadyResumed ∧ db' = db) ∨
        row.work.steerInputs.find? (·.id = input.revisionId) = none
          ∧ admitInput now db input input.stored row = .ok ()
          ∧ status = .resumed
          ∧ db' = applyInput now db input (revisionOf now input input.stored) row) := by
  simp only [continueInput, Except.bind_eq_ok_iff, snapshotAttachments_mapError_iff]
  constructor
  · rintro ⟨⟨⟩, hvalid, attachments, ⟨rfl, hattachments⟩, ⟨⟩, hauthorized, h⟩
    cases hrow : continuationRow db input with
    | none =>
        rw [hrow] at h
        cases h
    | some row =>
        refine ⟨row, ⟨hvalid, hattachments, hauthorized, continuationRow_iff.1 hrow⟩, ?_⟩
        rw [hrow] at h
        simp only at h
        cases hfound : row.work.steerInputs.find? (·.id = input.revisionId) with
        | some existing =>
            simp only [hfound, Except.bind_eq_ok_iff, require_eq_ok_iff, decide_eq_true_eq] at h
            obtain ⟨-, ⟨htext, hsame⟩, hresult⟩ := h
            cases hresult
            exact .inl ⟨existing, rfl, htext, hsame, rfl, rfl⟩
        | none =>
            simp only [hfound, Except.bind_eq_ok_iff] at h
            obtain ⟨⟨⟩, hchecked, hresult⟩ := h
            cases hresult
            exact .inr ⟨rfl, hchecked, rfl, rfl⟩
  · rintro ⟨row, ⟨hvalid, hattachments, hauthorized, hjoins⟩, hcases⟩
    refine ⟨(), hvalid, _, ⟨rfl, hattachments⟩, (), hauthorized, ?_⟩
    rw [continuationRow_iff.2 hjoins]
    rcases hcases with ⟨existing, hfound, htext, hsame, rfl, rfl⟩ | ⟨hnone, hchecked, rfl, rfl⟩
    · simp only [hfound, Except.bind_eq_ok_iff, require_eq_ok_iff, decide_eq_true_eq]
      exact ⟨(), ⟨htext, hsame⟩, rfl⟩
    · simp only [hnone, Except.bind_eq_ok_iff]
      exact ⟨(), hchecked, rfl⟩

theorem adds_applyInput {input : InputContinuation} {row : ContinuationRow} (revision : SteerInput)
    (hjoins : Joins db input row) :
    Adds input.runId revision db.works (applyInput now db input revision row).works :=
  .set hjoins.work ⟨rfl, rfl, rfl, rfl, rfl, rfl⟩ rfl

end

/-! ## The other transactions -/

/-- Only works, leases and the ledger change. -/
structure Frame (db db' : Database) : Prop where
  conversations : db'.tables.conversations = db.tables.conversations
  threads : db'.tables.threads = db.tables.threads
  sessions : db'.sessions = db.sessions
  requests : db'.requests = db.requests

theorem Frame.refl (db : Database) : Frame db db := ⟨rfl, rfl, rfl, rfl⟩

section

variable {now : Int} {db db' : Database}

theorem keeps_claim (now ttl : Int) (workId workerId tokenHash : String) (db : Database) :
    Keeps db.works (claim now ttl workId workerId tokenHash db).works ∧
      Frame db (claim now ttl workId workerId tokenHash db) := by
  unfold claim
  split
  · rename_i work hwork
    split
    · exact ⟨.set hwork ⟨⟨rfl, rfl, rfl, rfl, rfl, rfl⟩, rfl⟩, ⟨rfl, rfl, rfl, rfl⟩⟩
    · exact ⟨.refl _, ⟨rfl, rfl, rfl, rfl⟩⟩
  · exact ⟨.refl _, ⟨rfl, rfl, rfl, rfl⟩⟩

theorem keeps_settle (now : Int) (proof : LeaseProof) (status : WorkStatus) (error : Option String)
    (outcome : Option GoalOutcome) (db : Database) :
    Keeps db.works (settle now proof status error outcome db).works ∧
      Frame db (settle now proof status error outcome db) := by
  unfold settle
  split
  · rename_i work hwork
    split
    · have hset : Keeps db.works
          (db.works.set proof.id (FanIn.settled now status error outcome work)) :=
        .set hwork ⟨⟨rfl, rfl, rfl, rfl, rfl, rfl⟩, rfl⟩
      refine ⟨?_, ⟨rfl, rfl, rfl, rfl⟩⟩
      dsimp only [Database.works, Database.withWorks]
      split
      · exact hset
      · exact hset.trans (.cancelDescendants now _ _)
    · exact ⟨.refl _, .refl _⟩
  · exact ⟨.refl _, .refl _⟩

theorem ownRun_some {identity : StoredRunIdentity} {work : JobRow}
    (h : ownRun db identity = some work) : db.works.get? identity.runId = some work :=
  (Option.filter_eq_some_iff.1 h).1

theorem sameInputs_reopened (now : Int) (work : JobRow) : SameInputs work (reopened now work) :=
  ⟨⟨rfl, rfl, rfl, rfl, rfl, rfl⟩, rfl⟩

/-- A reconciliation changes nothing, or queues a run that was neither cancelled nor revised. -/
theorem reconcileAction_ok {tools : List ReconcilableTool} {identity : StoredRunIdentity}
    {actionKey : String} {answer : Reconciled}
    (h : reconcileAction tools now db identity actionKey = .ok (answer, db')) :
    answer ≠ .queued ∧ db' = db ∨
      answer = .queued ∧ ∃ intent work, intentOf db actionKey = some intent ∧
        ownRun db identity = some work ∧ intentWork intent = some identity.runId ∧
        work.cancelRequestedAt = none ∧ intentVersion intent = some (requestVersion work) ∧
        db' = db.withWorks (db.works.set identity.runId (reopened now work)) := by
  simp only [reconcileAction, Except.bind_eq_ok_iff, require_eq_ok_iff] at h
  obtain ⟨-, -, h⟩ := h
  cases hintent : intentOf db actionKey with
  | none =>
      rw [hintent] at h
      cases h
  | some intent =>
      cases hwork : ownRun db identity with
      | none =>
          rw [hintent, hwork] at h
          cases h
      | some work =>
          rw [hintent, hwork] at h
          simp only [Except.bind_eq_ok_iff, require_eq_ok_iff, decide_eq_true_eq] at h
          obtain ⟨-, hrun, h⟩ := h
          split at h
          · cases h
            exact .inl ⟨by simp, rfl⟩
          · simp only [Except.bind_eq_ok_iff, require_eq_ok_iff, decide_eq_true_eq] at h
            obtain ⟨-, ⟨hcancel, hversion⟩, h⟩ := h
            split at h
            · cases h
              exact .inl ⟨by simp, rfl⟩
            · split at h
              · cases h
                exact .inl ⟨by simp, rfl⟩
              · simp only [Except.bind_eq_ok_iff, require_eq_ok_iff, decide_eq_true_eq] at h
                obtain ⟨-, -, h⟩ := h
                cases h
                exact .inr ⟨rfl, intent, work, rfl, rfl, hrun, hcancel, hversion.symm, rfl⟩

/-- The first call of a resolution changes the ledger only. -/
theorem recordResolution_ok {identity : StoredRunIdentity} {resolution : ActionResolution}
    (h : recordResolution db identity resolution = .ok db') :
    ∃ ledger, db' = { db with ledger := ledger } := by
  simp only [recordResolution, Except.bind_eq_ok_iff] at h
  obtain ⟨-, -, h⟩ := h
  split at h
  · cases h
  · simp only [Except.bind_eq_ok_iff] at h
    obtain ⟨-, -, -, -, h⟩ := h
    cases h
    exact ⟨_, rfl⟩

/-- The second call of a resolution changes nothing, or queues a resolvable run. -/
theorem reopenResolved_cases (now : Int) (db : Database) (identity : StoredRunIdentity)
    (actionKey : String) :
    reopenResolved now db identity actionKey = db ∧ resolvable now db identity actionKey = none ∨
      ∃ intent workId work, intentOf db actionKey = some intent ∧ intentWork intent = some workId ∧
        resolvable now db identity actionKey = some work ∧ db.works.get? workId = some work ∧
        reopenResolved now db identity actionKey
          = db.withWorks (db.works.set workId (reopened now work)) := by
  unfold reopenResolved
  cases hintent : intentOf db actionKey with
  | none => exact .inl ⟨rfl, by simp [resolvable, hintent]⟩
  | some intent =>
      cases hworkId : intentWork intent with
      | none => exact .inl ⟨by simp [hworkId], by simp [resolvable, hintent, hworkId]⟩
      | some workId =>
          simp only [Option.bind_some, hworkId]
          cases hwork : resolvable now db identity actionKey with
          | none => exact .inl ⟨rfl, rfl⟩
          | some work =>
              refine .inr ⟨intent, workId, work, rfl, hworkId, rfl, ?_, rfl⟩
              simp only [resolvable, hintent, hworkId, Option.bind_eq_bind, Option.bind_some] at hwork
              exact ownRun_some (Option.filter_eq_some_iff.1 hwork).1

/-- A save changes nothing, or stores a record under a session that stays the same. -/
theorem save_cases (now : Int) (proof : LeaseProof) (session : SessionRecord) (db : Database) :
    (save now proof session db).1 = none ∧ (save now proof session db).2 = db ∨
      ∃ record, savedRecord (db.sessions.get? session.key) session = some record ∧
        (save now proof session db).2 = { db with
          sessions := db.sessions.set session.key record
          requests := syncRequest db.requests session.key session.request } := by
  unfold save
  split
  · exact .inl ⟨rfl, rfl⟩
  · cases hrecord : savedRecord (db.sessions.get? session.key) session with
    | none => exact .inl ⟨rfl, rfl⟩
    | some record => exact .inr ⟨record, rfl, rfl⟩

theorem savedRecord_same {stored session record : SessionRecord}
    (h : savedRecord (some stored) session = some record) :
    SameSession stored record ∧ session.revision = stored.revision := by
  unfold savedRecord at h
  simp only at h
  split at h
  · rename_i hrevision
    cases h
    exact ⟨⟨rfl, rfl, rfl, rfl, Nat.le_succ _⟩, hrevision.2.symm⟩
  · cases h

theorem syncRequest_keeps {requests : JsMap String RequestRow} {id : String} {row : RequestRow}
    (h : requests.get? id = some row) (key : SessionKey) (request : Option RequestSnapshot) :
    ∃ row', (syncRequest requests key request).get? id = some row' ∧
      row'.sessionKey = row.sessionKey := by
  cases request with
  | none => exact ⟨row, h, rfl⟩
  | some request =>
      simp only [syncRequest]
      cases hstored : requests.get? request.workId with
      | none =>
          have hne : id ≠ request.workId := by
            rintro rfl
            rw [h] at hstored
            cases hstored
          exact ⟨row, by rw [JsMap.get?_set_of_ne _ hne, h], rfl⟩
      | some stored =>
          simp only
          split
          · rw [JsMap.get?_set]
            split
            · rename_i hid
              subst hid
              obtain rfl := Option.some.inj (h.symm.trans hstored)
              exact ⟨_, rfl, rfl⟩
            · exact ⟨row, h, rfl⟩
          · exact ⟨row, h, rfl⟩

end

/-! ## Steps -/

/-- What a step does to runs, sessions and saved requests. -/
inductive Change (db : Database) : Event → Database → Prop
  | revised {now : Int} {randomUUID text : String} {identity : StoredRunIdentity}
      {author : SteerAuthor} {works : JsMap String JobRow} (hid : IsUUID randomUUID)
      (hadds : Adds identity.runId ⟨randomUUID, text, now, some author, none⟩ db.works works) :
      Change db (.revise now randomUUID identity text author) (db.withWorks works)
  | answered {now : Int} {input : InputContinuation} {row : ContinuationRow}
      (hadmitted : Admitted db input row)
      (hnew : row.work.steerInputs.find? (·.id = input.revisionId) = none)
      (hchecked : admitInput now db input input.stored row = .ok ()) :
      Change db (.continueInput now input (.ok .resumed))
        (applyInput now db input (revisionOf now input input.stored) row)
  | saved {now : Int} {proof : LeaseProof} {session record : SessionRecord}
      (hrecord : savedRecord (db.sessions.get? session.key) session = some record) :
      Change db (.save now proof session) { db with
        sessions := db.sessions.set session.key record
        requests := syncRequest db.requests session.key session.request }
  | kept {event : Event} {db' : Database} (hworks : Keeps db.works db'.works)
      (hframe : Frame db db')
      (hquiet : ∀ now input, event ≠ .continueInput now input (.ok .resumed)) : Change db event db'

theorem change_self {db : Database} {event : Event}
    (hquiet : ∀ now input, event ≠ .continueInput now input (.ok .resumed)) : Change db event db :=
  .kept (.refl _) (.refl _) hquiet

theorem next_change (config : AppConfig) {db : Database} {event : Event} (h : event.Admits db) :
    Change db event (next config db event) := by
  cases event with
  | enqueue now input =>
      refine .kept ?_ ⟨rfl, rfl, rfl, rfl⟩ nofun
      rw [next, Database.works_withWorks]
      cases hcall : Jobs.enqueueWork now db.works input with
      | error e => exact .refl _
      | ok works => exact .enqueueWork hcall
  | ingest now policyMeta input =>
      simp only [next]
      cases hcall : Conversations.ingestMessage config.sha256 now policyMeta db.tables input with
      | error e => exact .kept (.refl _) ⟨rfl, rfl, rfl, rfl⟩ nofun
      | ok found =>
          obtain ⟨outcome, tables⟩ := found
          have hkept := keeps_ingestMessage hcall
          exact .kept hkept.works ⟨hkept.conversations, hkept.threads, rfl, rfl⟩ nofun
  | claim now ttl workId workerId tokenHash =>
      obtain ⟨hworks, hframe⟩ := keeps_claim now ttl workId workerId tokenHash db
      exact .kept hworks hframe nofun
  | save now proof session =>
      obtain ⟨-, hsame⟩ | ⟨record, hrecord, hsaved⟩ := save_cases now proof session db
      · rw [next, hsame]
        exact change_self nofun
      · rw [next, hsaved]
        exact .saved hrecord
  | settle now proof status error outcome =>
      obtain ⟨hworks, hframe⟩ := keeps_settle now proof status error outcome db
      exact .kept hworks hframe nofun
  | cancel now identity =>
      exact .kept (.cancelRun now db.works identity) ⟨rfl, rfl, rfl, rfl⟩ nofun
  | revise now randomUUID identity text author =>
      refine committed_snd_of (change_self nofun) fun found db' hcall => ?_
      obtain rfl | ⟨works, rfl, hadds⟩ := reviseRun_ok hcall
      · exact change_self nofun
      · exact .revised h hadds
  | continueInput now input outcome =>
      simp only [next]
      cases hcall : continueInput now db input with
      | error e =>
          refine change_self fun now' input' heq => ?_
          injection heq with _ _ hresumed
          rw [Event.Admits, hcall, hresumed] at h
          cases h
      | ok found =>
          obtain ⟨status, db'⟩ := found
          rw [Event.Admits, hcall] at h
          subst h
          obtain ⟨row, hadmitted, ⟨_, -, -, -, rfl, rfl⟩ | ⟨hnew, hchecked, rfl, rfl⟩⟩ :=
            continueInput_ok_iff.1 hcall
          · exact change_self nofun
          · exact .answered hadmitted hnew hchecked
  | reserve | record => exact .kept (.refl _) ⟨rfl, rfl, rfl, rfl⟩ nofun
  | reconcile now identity actionKey =>
      refine committed_snd_of (change_self nofun) fun answer db' hcall => ?_
      obtain ⟨-, rfl⟩ | ⟨-, _, work, -, hwork, -, -, -, rfl⟩ := reconcileAction_ok hcall
      · exact change_self nofun
      · exact .kept (.set (ownRun_some hwork) (sameInputs_reopened now work))
          ⟨rfl, rfl, rfl, rfl⟩ nofun
  | recordResolution identity resolution =>
      refine committed_of (change_self nofun) fun db' hcall => ?_
      obtain ⟨ledger, rfl⟩ := recordResolution_ok hcall
      exact .kept (.refl _) ⟨rfl, rfl, rfl, rfl⟩ nofun
  | reopen now identity actionKey =>
      rw [next]
      obtain ⟨hsame, -⟩ | ⟨_, _, work, -, -, -, hwork, hset⟩ :=
        reopenResolved_cases now db identity actionKey
      · rw [hsame]
        exact change_self nofun
      · rw [hset]
        exact .kept (.set hwork (sameInputs_reopened now work)) ⟨rfl, rfl, rfl, rfl⟩ nofun

/-! ## Runs -/

theorem persists_of_keeps {db db' : Database} (hworks : Keeps db.works db'.works)
    (hframe : Frame db db') : Persists db db' where
  works hwork := by
    obtain ⟨work', hwork', hsame⟩ := hworks.rows hwork
    exact ⟨work', hwork', hsame.run, hsame.inputs ▸ List.prefix_rfl⟩
  conversations := hframe.conversations
  threads := hframe.threads
  sessions {_ session} h := ⟨session, by rw [hframe.sessions, h], .refl session⟩
  requests {_ row} h := ⟨row, by rw [hframe.requests, h], rfl⟩

theorem Adds.persists {id : String} {entry : SteerInput} {works works' : JsMap String JobRow}
    (h : Adds id entry works works') {other : String} {work : JobRow}
    (hwork : works.get? other = some work) : ∃ work', works'.get? other = some work' ∧
      SameRun work work' ∧ work.steerInputs <+: work'.steerInputs := by
  by_cases hother : other = id
  · subst hother
    obtain ⟨found, work', hfound, hwork', hrun, hinputs⟩ := h.target
    obtain rfl := Option.some.inj (hfound.symm.trans hwork)
    exact ⟨work', hwork', hrun, hinputs ▸ List.prefix_append _ _⟩
  · obtain ⟨work', hwork', hsame⟩ := h.rest hother hwork
    exact ⟨work', hwork', hsame.run, hsame.inputs ▸ List.prefix_rfl⟩

/-- Storing a session that stays the same keeps every session. -/
theorem sessions_set {sessions : JsMap SessionKey SessionRecord} {key : SessionKey}
    {record : SessionRecord}
    (h : ∀ stored, sessions.get? key = some stored → SameSession stored record) {other : SessionKey}
    {session : SessionRecord} (hsession : sessions.get? other = some session) :
    ∃ session', (sessions.set key record).get? other = some session' ∧ SameSession session session' := by
  rw [JsMap.get?_set]
  split
  · rename_i hother
    subst hother
    exact ⟨record, rfl, h session hsession⟩
  · exact ⟨session, hsession, .refl session⟩

theorem resumedSession_same (runId : String) (request : RequestSnapshot) (session : SessionRecord) :
    SameSession session (resumedSession runId request session) := by
  unfold resumedSession
  split
  · exact ⟨rfl, rfl, rfl, rfl, Nat.le_succ _⟩
  · exact .refl session

theorem persists_applyInput {db : Database} {now : Int} {input : InputContinuation}
    {row : ContinuationRow} (hjoins : Joins db input row) (revision : SteerInput) :
    Persists db (applyInput now db input revision row) := by
  refine ⟨(adds_applyInput _ hjoins).persists, rfl, rfl, ?_, ?_⟩
  · refine sessions_set fun stored hstored => ?_
    obtain rfl := Option.some.inj (hjoins.session.symm.trans hstored)
    exact resumedSession_same _ _ _
  · intro id stored hstored
    rw [applyInput, JsMap.get?_set]
    split
    · rename_i hid
      subst hid
      obtain rfl := Option.some.inj (hjoins.request.symm.trans hstored)
      exact ⟨_, rfl, rfl⟩
    · exact ⟨stored, hstored, rfl⟩

theorem Change.persists {db db' : Database} {event : Event} (h : Change db event db') :
    Persists db db' := by
  cases h with
  | kept hworks hframe _ => exact persists_of_keeps hworks hframe
  | revised _ hadds =>
      exact ⟨hadds.persists, rfl, rfl, fun h => ⟨_, h, .refl _⟩, fun h => ⟨_, h, rfl⟩⟩
  | saved hrecord =>
      refine ⟨fun h => ⟨_, h, .refl _, List.prefix_rfl⟩, rfl, rfl, ?_, ?_⟩
      · refine sessions_set fun stored hstored => ?_
        rw [hstored] at hrecord
        exact (savedRecord_same hrecord).1
      · exact fun h => syncRequest_keeps h _ _
  | answered hadmitted _ _ => exact persists_applyInput hadmitted.joins _

theorem persists_of_run {config : AppConfig} {db db' : Database} {events : List Event}
    (h : (system config).Run db events db') : Persists db db' :=
  (h.relates (I := fun _ => True) Persists.refl Persists.trans
    (fun {_ _ _} _ hstep => ⟨trivial, by
      obtain ⟨hadmits, rfl⟩ := hstep
      exact (next_change config hadmits).persists⟩) trivial).2

end App

end LingxiOS
