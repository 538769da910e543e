-- SUMMARY: An answer to a question is applied exactly once, whatever else happens to the run.
import LingxiOS.App.Persistence

/-! # Answers

Every accepted answer is one entry of the run's inputs for good, so a repeated call
finds it and changes nothing. Whoever accepted it also moved the saved request, the
run's state and, for the active request, the session's revision. -/

namespace LingxiOS

namespace App

open Jobs (JobRow)

/-! ## Ids -/

theorem comma_not_mem_toDigits (n : Nat) : ',' ∉ Nat.toDigits 10 n := by
  intro h
  exact absurd (Nat.isDigit_of_mem_toDigits (by decide) (by decide) h) (by decide)

/-- What lies before the first comma, and after it. -/
theorem append_comma_inj {x y z w : List Char} (hx : ',' ∉ x) (hy : ',' ∉ y)
    (h : x ++ ',' :: z = y ++ ',' :: w) : x = y ∧ z = w := by
  induction x generalizing y with
  | nil =>
      cases y with
      | nil => exact ⟨rfl, (List.cons.inj h).2⟩
      | cons d y => exact absurd ((List.cons.inj h).1 ▸ List.mem_cons_self) hy
  | cons c x ih =>
      cases y with
      | nil => exact absurd ((List.cons.inj h).1 ▸ List.mem_cons_self) hx
      | cons d y =>
          obtain ⟨hhead, htail⟩ := List.cons.inj h
          obtain ⟨hxy, hzw⟩ := ih (fun hmem => hx (List.mem_cons_of_mem _ hmem))
            (fun hmem => hy (List.mem_cons_of_mem _ hmem)) htail
          exact ⟨by rw [hhead, hxy], hzw⟩

theorem toList_revisionId (requestVersion : Nat) (inputId : String) :
    (revisionId requestVersion inputId).toList = ("[" ++ Text.quote "input" ++ ",").toList
      ++ (Nat.toDigits 10 requestVersion ++ ',' :: (Text.quote inputId ++ "]").toList) := by
  have hdigits : (requestVersion : Int).repr.toList = Nat.toDigits 10 requestVersion :=
    Nat.toList_repr
  simp [revisionId, Json.stringify, Json.stringifyItems, hdigits]

/-- The id of an answer names its version and its input. -/
theorem revisionId_inj {v w : Int} {i j : String} (hv : 1 ≤ v) (hw : 1 ≤ w)
    (h : revisionId v i = revisionId w j) : v = w ∧ i = j := by
  obtain ⟨m, rfl⟩ := Int.eq_ofNat_of_zero_le (by omega : 0 ≤ v)
  obtain ⟨n, rfl⟩ := Int.eq_ofNat_of_zero_le (by omega : 0 ≤ w)
  have hlist := congrArg String.toList h
  rw [toList_revisionId, toList_revisionId, List.append_right_inj] at hlist
  obtain ⟨hdigits, hquote⟩ :=
    append_comma_inj (comma_not_mem_toDigits m) (comma_not_mem_toDigits n) hlist
  exact ⟨congrArg Int.ofNat (Text.toDigits_inj hdigits),
    (Text.quote_append_inj (String.toList_inj.1 hquote)).1⟩

/-- It is JSON, which no random id is. -/
theorem revisionId_not_uuid (requestVersion : Int) (inputId : String) :
    ¬IsUUID (revisionId requestVersion inputId) := by
  intro h
  have hmem : '[' ∈ (revisionId requestVersion inputId).toList := by
    simp [revisionId, Json.stringify]
  rcases h '[' hmem with h | h
  · exact absurd h (by decide)
  · exact absurd h (by decide)

/-! ## Exactly once -/

/-- The step that accepts this answer. -/
def Event.accepts (runId : String) (requestVersion : Int) (inputId : String) : Event → Bool
  | .continueInput _ input (.ok .resumed) =>
      input.runId = runId ∧ input.requestVersion = requestVersion ∧ input.inputId = inputId
  | _ => false

/-- How often an answer stands in the inputs of a run. -/
def timesAnswered (db : Database) (runId : String) (requestVersion : Int) (inputId : String) : Nat :=
  (inputsOf db.works runId).countP (·.id = revisionId requestVersion inputId)

theorem one_le_of_check {input : InputContinuation} (h : checkContinuation input = .ok ()) :
    1 ≤ input.requestVersion := by
  simp only [checkContinuation, Collaboration.require_eq_ok_iff, Bool.and_eq_true,
    decide_eq_true_eq] at h
  exact h.2

section

variable {config : AppConfig} {db db' : Database} {event : Event} {runId inputId : String}
  {requestVersion : Int}

theorem Change.timesAnswered (h : Change db event db') (hversion : 1 ≤ requestVersion) :
    timesAnswered db' runId requestVersion inputId = timesAnswered db runId requestVersion inputId
        + (if event.accepts runId requestVersion inputId then 1 else 0) ∧
      (event.accepts runId requestVersion inputId = true →
        timesAnswered db runId requestVersion inputId = 0) := by
  cases h with
  | kept hworks _ hquiet =>
      have hnot : event.accepts runId requestVersion inputId = false := by
        unfold Event.accepts
        split
        · exact absurd rfl (hquiet _ _)
        · rfl
      simp [App.timesAnswered, hworks.inputsOf, hnot]
  | saved => simp [App.timesAnswered, Event.accepts, Database.works]
  | @revised _ randomUUID text identity author works hid hadds =>
      have hne : randomUUID ≠ revisionId requestVersion inputId := by
        rintro rfl
        exact revisionId_not_uuid _ _ hid
      simp only [App.timesAnswered, Database.works_withWorks, hadds.inputsOf, Event.accepts,
        List.countP_append]
      split <;> simp [hne]
  | @answered now input row hadmitted hnew _ =>
      have hvalid := one_le_of_check hadmitted.valid
      have hid : input.revisionId = revisionId requestVersion inputId ↔
          input.requestVersion = requestVersion ∧ input.inputId = inputId := by
        constructor
        · exact revisionId_inj hvalid hversion
        · rintro ⟨rfl, rfl⟩
          rfl
      simp only [App.timesAnswered, (adds_applyInput _ hadmitted.joins).inputsOf, Event.accepts,
        List.countP_append, decide_eq_true_eq]
      constructor
      · congr 1
        by_cases hrun : runId = input.runId
        · subst hrun
          simp [revisionOf, hid]
        · simp [hrun, Ne.symm hrun]
      · rintro ⟨rfl, hsame⟩
        rw [inputsOf_of_some hadmitted.joins.work, ← hid.2 hsame, List.countP_eq_zero]
        simpa using hnew

theorem timesAnswered_of_run {db₀ : Database} {events : List Event}
    (hstart : (system config).start db₀) (hrun : (system config).Run db₀ events db)
    (hversion : 1 ≤ requestVersion) :
    timesAnswered db runId requestVersion inputId
        = events.countP (Event.accepts runId requestVersion inputId) ∧
      timesAnswered db runId requestVersion inputId ≤ 1 := by
  refine hrun.traces (I := fun events db => timesAnswered db runId requestVersion inputId
      = events.countP (Event.accepts runId requestVersion inputId) ∧
    timesAnswered db runId requestVersion inputId ≤ 1) ?_ ?_
  · rintro events db event _ ⟨hcount, hle⟩ ⟨hadmits, rfl⟩
    have hchange := next_change config hadmits
    obtain ⟨hnext, hfresh⟩ := @Change.timesAnswered _ _ event runId inputId _ hchange hversion
    rw [hnext, List.countP_append, List.countP_singleton, ← hcount]
    refine ⟨rfl, ?_⟩
    split
    · rename_i haccepts
      rw [hfresh haccepts]
    · exact hle
  · simp [timesAnswered, inputsOf, hstart.1]

end

/-! ## Repeated calls -/

/-- The content of an answer. -/
structure SameContent (a b : InputContinuation) : Prop where
  text : a.text = b.text
  attachments : a.attachments.getD [] = b.attachments.getD []

/-- Who may execute a run depends on what it belongs to and on its conversation. -/
theorem authorizeRun_congr {db db' : Database} (h : Persists db db')
    {identity : Jobs.StoredRunIdentity} {work : JobRow}
    (hwork : db.works.get? identity.runId = some work) :
    authorizeRun db'.tables identity = authorizeRun db.tables identity := by
  obtain ⟨work', hwork', hsame, -⟩ := h.works hwork
  have hreader (conversation : Json) : authorizeReader db'.tables identity work' conversation
      = authorizeReader db.tables identity work conversation := by
    simp only [authorizeReader, policyOf, authorizeExecution, hsame.threadId, hsame.tenantId,
      hsame.principalId, hsame.agentId, h.conversations, h.threads]
  simp only [Database.works] at hwork hwork'
  simp only [authorizeRun, hwork, hwork', Option.filter_some, hsame.tenantId, hsame.agentId,
    hsame.sessionId]
  by_cases hscope : work.tenantId = identity.tenantId ∧ work.agentId = identity.agentId
      ∧ work.sessionId = identity.sessionId
  · simp only [hscope, decide_true, and_self, if_true, conversationOf, hsame.conversation, hreader]
  · simp only [hscope, decide_false, Bool.false_eq_true, if_false]

theorem attachmentsOf_revisionOf (now : Int) (input : InputContinuation)
    (attachments : List RequestAttachment) :
    attachmentsOf (revisionOf now input attachments) = attachments := by
  cases attachments <;> rfl

section

variable {config : AppConfig} {db₀ db₁ db : Database} {now₀ now : Int}
  {input₀ input : InputContinuation}

/-- Where an accepted answer is found ever after. -/
theorem answered_found {row : ContinuationRow} (hjoins : Joins db₀ input₀ row)
    (hnew : row.work.steerInputs.find? (·.id = input₀.revisionId) = none) (revision : SteerInput)
    (hid : revision.id = input₀.revisionId)
    (hpersists : Persists (applyInput now₀ db₀ input₀ revision row) db) :
    ∃ row', Joins db input₀ row' ∧
      row'.work.steerInputs.find? (·.id = input₀.revisionId) = some revision := by
  have hall := (persists_applyInput hjoins revision).trans hpersists
  obtain ⟨session, hsession, hsame⟩ := hall.sessions hjoins.session
  obtain ⟨request, hrequest, hkey⟩ := hall.requests hjoins.request
  have hwork : (applyInput now₀ db₀ input₀ revision row).works.get? input₀.runId
      = some (resumedWork now₀ revision row.work) := JsMap.get?_set_self ..
  obtain ⟨work, hwork, hrun, hinputs⟩ := hpersists.works hwork
  obtain ⟨htenant, hagent, hsessionId, hprincipal, hthread⟩ := hjoins.identity
  obtain ⟨hstenant, hsagent, hssession, hsthread⟩ := hjoins.sameSession
  refine ⟨⟨work, session, request.request⟩, ⟨hwork, ?_, hsession, ?_, ?_⟩, ?_⟩
  · exact ⟨hrun.tenantId.trans htenant, hrun.agentId.trans hagent, hrun.sessionId.trans hsessionId,
      hrun.principalId.trans hprincipal, hrun.threadId.trans hthread⟩
  · exact ⟨hsame.tenantId.trans (hstenant.trans hrun.tenantId.symm),
      hsame.agentId.trans (hsagent.trans hrun.agentId.symm),
      hsame.sessionId.trans (hssession.trans hrun.sessionId.symm),
      hsame.threadId.trans (hsthread.trans hrun.threadId.symm)⟩
  · rw [hrequest]
    obtain ⟨key, request⟩ := request
    obtain rfl : key = input₀.sessionKey := hkey
    rfl
  · obtain ⟨later, hlater⟩ := hinputs
    have hstored : (resumedWork now₀ revision row.work).steerInputs
        = row.work.steerInputs ++ [revision] := rfl
    rw [← hlater, hstored, List.append_assoc, List.find?_append, hnew, List.find?_append]
    simp [hid]

/-- A call that names an accepted answer is told by what it says: it repeats the answer if it
    gives what was stored of it, and else it throws. -/
theorem repeated_answer (hchange : Change db₀ (.continueInput now₀ input₀ (.ok .resumed)) db₁)
    (hpersists : Persists db₁ db) (hsame : input.Same input₀) :
    (continueInput now db input = .ok (.alreadyResumed, db) ∨
        ∃ e, continueInput now db input = .error e) ∧
      (continueInput now db input = .ok (.alreadyResumed, db) ↔ input.text = input₀.text
        ∧ input.attachments.getD [] = input₀.stored.map GivenAttachment.readBack) := by
  cases hchange with
  | kept _ _ hquiet => exact absurd rfl (hquiet _ _)
  | @answered _ _ row hadmitted hnew _ =>
      obtain ⟨row', hjoins', hfound⟩ := answered_found hadmitted.joins hnew
        (revisionOf now₀ input₀ input₀.stored) rfl hpersists
      have hattachments := attachmentsOf_revisionOf now₀ input₀ input₀.stored
      have hauthorized : authorizeRun db.tables input₀.identity = .ok () := by
        rw [authorizeRun_congr ((persists_applyInput hadmitted.joins _).trans hpersists)
          hadmitted.joins.work]
        exact hadmitted.authorized
      obtain ⟨runId, tenantId, agentId, sessionId, threadId, principalId, inputId, requestVersion,
        text, attachments⟩ := input
      obtain ⟨hidentity, rfl, rfl⟩ := hsame
      cases hidentity
      refine ⟨?_, ⟨fun hcall => ?_, ?_⟩⟩
      · cases hcall : continueInput now db _ with
        | error e => exact .inr ⟨e, rfl⟩
        | ok found =>
            obtain ⟨status, db'⟩ := found
            obtain ⟨other, hother, ⟨_, -, -, -, rfl, rfl⟩ | ⟨hnone, -, -, -⟩⟩ :=
              continueInput_ok_iff.1 hcall
            · exact .inl rfl
            · have hwork : other.work = row'.work :=
                Option.some.inj (hother.joins.work.symm.trans hjoins'.work)
              rw [hwork] at hnone
              exact absurd (hnone.symm.trans hfound) nofun
      · obtain ⟨other, hother, ⟨existing, hexisting, htext, hsaid, -, -⟩ | ⟨-, -, hstatus, -⟩⟩ :=
          continueInput_ok_iff.1 hcall
        · have hwork : other.work = row'.work :=
            Option.some.inj (hother.joins.work.symm.trans hjoins'.work)
          rw [hwork] at hexisting
          obtain rfl := Option.some.inj (hexisting.symm.trans hfound)
          exact ⟨htext.symm, by rw [← hsaid, hattachments]⟩
        · cases hstatus
      · rintro ⟨rfl, hcontent⟩
        refine continueInput_ok_iff.2 ⟨row', ⟨hadmitted.valid, ?_, hauthorized, ?_⟩,
          .inl ⟨_, hfound, rfl, ?_, rfl, rfl⟩⟩
        · rw [InputContinuation.stored, hcontent, List.map_map, GivenAttachment.stored_comp_readBack,
            List.map_id']
          exact hadmitted.attachments
        · exact ⟨hjoins'.work, hjoins'.identity, hjoins'.session, hjoins'.sameSession, hjoins'.request⟩
        · rw [hattachments, hcontent]

/-- Every call that names an accepted answer is told right exactly if JSON keeps the answer. -/
theorem repeated_answer_iff (hchange : Change db₀ (.continueInput now₀ input₀ (.ok .resumed)) db₁)
    (hpersists : Persists db₁ db) :
    (∀ now input, input.Same input₀ →
        (SameContent input input₀ → continueInput now db input = .ok (.alreadyResumed, db)) ∧
        (¬SameContent input input₀ → ∃ e, continueInput now db input = .error e)) ↔
      ∀ item ∈ input₀.attachments.getD [], item.Kept := by
  rw [← GivenAttachment.map_readBack_stored_iff]
  constructor
  · intro h
    have hagain := (h 0 input₀ ⟨rfl, rfl, rfl⟩).1 ⟨rfl, rfl⟩
    exact ((repeated_answer hchange hpersists ⟨rfl, rfl, rfl⟩).2.1 hagain).2.symm
  · intro hkept now input hsame
    obtain ⟨hcases, hiff⟩ := @repeated_answer _ _ _ now₀ now _ _ hchange hpersists hsame
    rw [InputContinuation.stored, hkept] at hiff
    refine ⟨fun h => hiff.2 ⟨h.text, h.attachments⟩, fun h => ?_⟩
    rcases hcases with hagain | herror
    · obtain ⟨htext, hattachments⟩ := hiff.1 hagain
      exact absurd ⟨htext, hattachments⟩ h
    · exact herror

end

/-! ## What an accepted answer does -/

/-- A record that is behind the stored one is not saved. -/
theorem save_stale {db : Database} {key : SessionKey} {stored record : SessionRecord}
    (hstored : db.sessions.get? key = some stored) (hkey : record.key = key)
    (hbehind : record.revision < stored.revision) (now : Int) (proof : LeaseProof) :
    save now proof record db = (none, db) := by
  subst hkey
  have hnone : savedRecord (db.sessions.get? record.key) record = none := by
    rw [hstored, savedRecord]
    exact if_neg fun h => by omega
  unfold save
  split
  · rfl
  · rw [hnone]

/-- The work, the saved request and the session move together. -/
structure Applied (config : AppConfig) (now : Int) (input : InputContinuation) (revision : SteerInput)
    (row : ContinuationRow) (db db' : Database) : Prop where
  entry : revision.id = input.revisionId ∧ revision.text = input.text
    ∧ attachmentsOf revision = input.stored ∧ revision.createdAt = now
  before : Joins db input row ∧ row.work.status = .waiting ∧ row.request.revisions = row.work.steerInputs
  work : ∃ work', db'.works.get? input.runId = some work' ∧ work'.status = .queued
    ∧ work'.steerInputs = row.work.steerInputs ++ [revision]
  request : ∃ request', db'.requests.get? input.runId = some ⟨input.sessionKey, request'⟩
    ∧ request'.revisions = row.request.revisions ++ [revision]
  others : ∀ id, id ≠ input.runId → db'.works.get? id = db.works.get? id
    ∧ db'.requests.get? id = db.requests.get? id
  active : (row.session.request.any fun request => request.workId = input.runId) = true →
    (∃ session', db'.sessions.get? input.sessionKey = some session'
      ∧ session'.revision = row.session.revision + 1
      ∧ session'.request = (db'.requests.get? input.runId).map RequestRow.request)
    ∧ ∀ {events db''}, (system config).Run db' events db'' → ∀ later proof record,
      record.key = input.sessionKey → record.revision ≤ row.session.revision →
      save later proof record db'' = (none, db'')
  inactive : (row.session.request.any fun request => request.workId = input.runId) = false →
    db'.sessions.get? input.sessionKey = some row.session

theorem admitInput_ok {now : Int} {db : Database} {input : InputContinuation}
    {attachments : List RequestAttachment} {row : ContinuationRow}
    (h : admitInput now db input attachments row = .ok ()) :
    row.work.status = .waiting ∧ row.request.revisions = row.work.steerInputs := by
  simp only [admitInput, Except.bind_eq_ok_iff, Collaboration.require_eq_ok_iff, awaitsInput,
    decide_eq_true_eq] at h
  obtain ⟨-, ⟨hstatus, -⟩, -, -, -, -, -, -, hrevisions⟩ := h
  exact ⟨hstatus, hrevisions⟩

theorem applied_applyInput (config : AppConfig) {now : Int} {db : Database}
    {input : InputContinuation} {row : ContinuationRow} (hadmitted : Admitted db input row)
    (hchecked : admitInput now db input input.stored row = .ok ()) :
    Applied config now input (revisionOf now input input.stored) row db
      (applyInput now db input (revisionOf now input input.stored) row) := by
  obtain ⟨hwaiting, hrevisions⟩ := admitInput_ok hchecked
  constructor
  · exact ⟨rfl, rfl, attachmentsOf_revisionOf _ _ _, rfl⟩
  · exact ⟨hadmitted.joins, hwaiting, hrevisions⟩
  · exact ⟨_, JsMap.get?_set_self .., rfl, rfl⟩
  · exact ⟨_, JsMap.get?_set_self .., rfl⟩
  · exact fun id hne => ⟨JsMap.get?_set_of_ne _ hne, JsMap.get?_set_of_ne _ hne⟩
  · intro hactive
    have hsession := JsMap.get?_set_self db.sessions input.sessionKey
      (resumedSession input.runId (resumedRequest (revisionOf now input input.stored) row.request) row.session)
    have hrevision : (resumedSession input.runId (resumedRequest (revisionOf now input input.stored) row.request) row.session).revision = row.session.revision + 1 := by
      rw [resumedSession, if_pos hactive]
    refine ⟨⟨_, hsession, hrevision, ?_⟩, ?_⟩
    · rw [resumedSession, if_pos hactive, applyInput, JsMap.get?_set_self]
      rfl
    · intro events db'' hrun later proof record hkey hle
      obtain ⟨stored, hstored, hsame⟩ := (persists_of_run hrun).sessions hsession
      have hbehind := hsame.revision
      rw [hrevision] at hbehind
      exact save_stale hstored hkey (by omega) later proof
  · intro hinactive
    rw [applyInput, JsMap.get?_set_self, resumedSession, if_neg (by simp [hinactive])]

/-- Every accepted answer is applied exactly once: it is one entry of the run's inputs and
    of its saved request, queues the run, and outdates every save of the active session that
    was prepared before. A repeated call changes nothing, and one that says something else
    throws, exactly if JSON keeps the attachments of the answer. Any other call that is not
    accepted changes nothing. -/
theorem answer_applied_once {config : AppConfig} {db₀ db : Database} {events : List Event}
    (hstart : (system config).start db₀) (hrun : (system config).Run db₀ events db) :
    (∀ runId requestVersion inputId, 1 ≤ requestVersion →
      timesAnswered db runId requestVersion inputId
          = events.countP (Event.accepts runId requestVersion inputId) ∧
        timesAnswered db runId requestVersion inputId ≤ 1) ∧
    (∀ now₀ input₀, .continueInput now₀ input₀ (.ok .resumed) ∈ events →
      ((∀ now input, input.Same input₀ →
          (SameContent input input₀ → continueInput now db input = .ok (.alreadyResumed, db)) ∧
          (¬SameContent input input₀ → ∃ e, continueInput now db input = .error e)) ↔
        ∀ item ∈ input₀.attachments.getD [], item.Kept)) ∧
    (∀ now input db', continueInput now db input = .ok (.resumed, db') →
      ∃ revision row, Applied config now input revision row db db') ∧
    ∀ now input outcome db', (system config).step db (.continueInput now input outcome) db' →
      outcome ≠ .ok .resumed → db' = db := by
  refine ⟨fun _ _ _ => timesAnswered_of_run hstart hrun, ?_, ?_, ?_⟩
  · intro now₀ input₀ hmem
    obtain ⟨db₁, db₂, _, _, -, ⟨hadmits, rfl⟩, hrest⟩ := hrun.exists_step hmem
    exact repeated_answer_iff (next_change config hadmits) (persists_of_run hrest)
  · intro now input db' hcall
    obtain ⟨row, hadmitted, ⟨_, -, -, -, hstatus, -⟩ | ⟨-, hchecked, -, rfl⟩⟩ :=
      continueInput_ok_iff.1 hcall
    · cases hstatus
    · exact ⟨_, row, applied_applyInput config hadmitted hchecked⟩
  · rintro now input outcome db' ⟨hadmits, rfl⟩ hne
    simp only [Event.Admits] at hadmits
    simp only [next]
    cases hcall : continueInput now db input with
    | error e => rfl
    | ok found =>
        obtain ⟨status, db'⟩ := found
        rw [hcall] at hadmits
        obtain ⟨row, -, ⟨_, -, -, -, -, rfl⟩ | ⟨-, -, rfl, -⟩⟩ := continueInput_ok_iff.1 hcall
        · rfl
        · exact absurd hadmits hne

/-! ## A run -/

private def givenInput (attachments : List GivenAttachment) : InputContinuation where
  runId := "run"
  tenantId := "tenant"
  agentId := "agent"
  sessionId := "session"
  principalId := "user"
  inputId := "answer"
  requestVersion := 1
  text := "yes"
  attachments := some attachments

private def plainSession : SessionRecord where
  key := (givenInput []).sessionKey
  tenantId := "tenant"
  agentId := "agent"
  sessionId := "session"
  threadId := none
  request := some {
    version := 1, workId := "run", tenantId := "tenant", sessionId := "session", authorId := "user"
    sourceRef := "message", originalText := "go", revisions := [], attachments := []
    evidence := ⟨1, "evidence", []⟩ }

/-- A run that asks a question, and its answer. -/
private def questionRun (attachments : List GivenAttachment) : List Event :=
  [.enqueue 0 ⟨"run", "tenant", "agent", "session", none, "turn", .interactive, "message",
      some "user", 0, none, none, none⟩,
    .claim 0 100 "run" "worker" "hash",
    .save 1 ⟨"run", 1, "hash"⟩ plainSession,
    .settle 2 ⟨"run", 1, "hash"⟩ .waiting none (some ⟨.awaitingInput, .notRun, 1, none, some "?"⟩),
    .continueInput 3 (givenInput attachments) (.ok .resumed)]

private def answered (attachments : List GivenAttachment) : Database :=
  (questionRun attachments).foldl (next plainConfig) emptyDatabase

private def note (text : OwnKey String) : GivenAttachment :=
  ⟨"note", "1", "note.txt", "text/plain", some 3, text, .absent⟩

/-- The answer is accepted, with any text of the note. -/
private theorem questionRun_plays {attachments : List GivenAttachment}
    (h : attachments = [] ∨ attachments = [note .undefined]) :
    Plays plainConfig emptyDatabase (questionRun attachments) := by
  refine ⟨trivial, trivial, trivial, trivial, ?_, trivial⟩
  show Except.ok Continued.resumed = (continueInput _ _ _).map Prod.fst
  rcases h with rfl | rfl
  · rfl
  · rfl

theorem answer_applied_once_question :
    timesAnswered (answered []) "run" 1 "answer" = 1 :=
  ((answer_applied_once (emptyDatabase_start plainConfig) (run_play (questionRun_plays (.inl rfl)))).1
    "run" 1 "answer" (by decide)).1.trans (by decide +kernel)

/-- An answer whose attachment has the key `text` with the value `undefined` is accepted, and
    refused when it is repeated. -/
theorem undefined_text_refused :
    (system plainConfig).Run emptyDatabase (questionRun [note .undefined])
        (answered [note .undefined]) ∧
      (continueInput 4 (answered [note .undefined]) (givenInput [note .undefined])).map Prod.fst
        = .error (.error "input identity was reused with different text or attachments") :=
  ⟨run_play (questionRun_plays (.inr rfl)), by decide +kernel⟩

end App

end LingxiOS
