-- SUMMARY: Overlapping saves of one session's request.
import LingxiOS.ControlPlane.Admission
import LingxiOS.ControlPlane.SaveSession
import LingxiOS.Protocol.Jsonb

/-! # Append-Only Requests

A save is checked against the request a call has read, and stored if its record
carries the stored revision. The two are about the same request where the
revision read is still the stored one; then the stored request only grows. -/

namespace LingxiOS

open Program

/-! ## Extension -/

/-- A resource check with the keys of its objects in order. -/
def ResourceCheckRecord.sorted (record : ResourceCheckRecord) : Json :=
  (Json.obj [("actionKey", .str record.actionKey), ("result", record.result.toJson)]).sortKeys

def RequestSnapshot.checks (request : RequestSnapshot) : List ResourceCheckRecord :=
  request.resourceChecks.getD []

/-- The obligations of a request with the keys of their objects in order. -/
def RequestSnapshot.duties (request : RequestSnapshot) : List Json :=
  (request.obligations.getD []).map (fun obligation => obligation.toJson.sortKeys)

/-- What later saves of a request may do to it. -/
structure RequestSnapshot.Extends (earlier later : RequestSnapshot) : Prop where
  revisions : earlier.revisions <+: later.revisions
  evidence : earlier.evidence.items <+: later.evidence.items
  checks : earlier.checks.map ResourceCheckRecord.sorted
    <+: later.checks.map ResourceCheckRecord.sorted
  originalText : later.originalText = earlier.originalText
  authorId : later.authorId = earlier.authorId
  sourceRef : later.sourceRef = earlier.sourceRef
  mode : later.mode = earlier.mode
  codeExecution : later.codeExecution = earlier.codeExecution
  deliveryMode : later.deliveryMode = earlier.deliveryMode
  duties : later.duties = earlier.duties

namespace RequestSnapshot.Extends

theorem refl (request : RequestSnapshot) : request.Extends request := by
  constructor <;> first | exact List.prefix_refl _ | rfl

theorem trans {a b c : RequestSnapshot} (hab : a.Extends b) (hbc : b.Extends c) : a.Extends c where
  revisions := hab.revisions.trans hbc.revisions
  evidence := hab.evidence.trans hbc.evidence
  checks := hab.checks.trans hbc.checks
  originalText := hbc.originalText.trans hab.originalText
  authorId := hbc.authorId.trans hab.authorId
  sourceRef := hbc.sourceRef.trans hab.sourceRef
  mode := hbc.mode.trans hab.mode
  codeExecution := hbc.codeExecution.trans hab.codeExecution
  deliveryMode := hbc.deliveryMode.trans hab.deliveryMode
  duties := hbc.duties.trans hab.duties

end RequestSnapshot.Extends

/-! ## What the checks make sure of -/

namespace Json

theorem deepEqual_arr_iff {xs ys : List Json} :
    deepEqual (.arr xs) (.arr ys) = true ↔ xs.map sortKeys = ys.map sortKeys := by
  simp [deepEqual, sortKeys, sortItems_eq_map]

end Json

theorem sameChecks_iff {a b : List ResourceCheckRecord} :
    sameChecks a b = true ↔ a.map ResourceCheckRecord.sorted = b.map ResourceCheckRecord.sorted := by
  unfold sameChecks
  rw [Json.deepEqual_arr_iff, List.map_map, List.map_map]
  rfl

theorem keepsRequest_duties {previous next : RequestSnapshot}
    (h : sameObligations (next.obligations.getD []) (previous.obligations.getD []) = true) :
    next.duties = previous.duties := by
  unfold sameObligations at h
  rw [Json.deepEqual_arr_iff, List.map_map, List.map_map] at h
  exact h

section Checks

variable {work : TurnWork} {previous next : Option RequestSnapshot} {own request : RequestSnapshot}

theorem checkRequest_own {env : SaveEnv} {session : SessionRecord}
    (h : checkRequest env work session = .ok ()) :
    session.key = work.sessionKey ∧
      ∀ request, session.request = some request → request.workId = work.id := by
  obtain ⟨_, hrecord, -⟩ := Except.bind_ok h
  have hvalid : validIdentity work session = true ∧
      ∀ request, session.request = some request → validRequest work request = true := by
    unfold checkRecord at hrecord
    cases hrequest : session.request with
    | none => simp_all
    | some request => simp_all
  refine ⟨?_, fun request hsome => ?_⟩
  · have hidentity := hvalid.1
    simp only [validIdentity, Bool.and_eq_true, beq_iff_eq] at hidentity
    exact hidentity.1.1.1.1.1.1
  · have hrequest := hvalid.2 request hsome
    simp only [validRequest, Bool.and_eq_true, beq_iff_eq] at hrequest
    exact hrequest.1.1.1.1.1.1.2

/-- A save that passed the rewrite check keeps what it may not change. -/
theorem checkRewrite_keeps (h : checkRewrite work previous next = .ok ())
    (hown : ownPrevious work previous = some own) :
    ∃ request, next = some request ∧ keepsRequest own request = true := by
  unfold checkRewrite at h
  rw [hown] at h
  dsimp only at h
  split at h
  · rename_i hkeeps
    rw [Option.any_eq_true] at hkeeps
    exact hkeeps
  · cases h

/-- The three checks against the request saved before make the next one extend it. -/
theorem extends_of_checks
    (hresources : sameChecks (request.checks.take own.checks.length) own.checks = true)
    (hkeeps : keepsRequest own request = true)
    (hevidence : own.evidence.items <+: request.evidence.items) : own.Extends request := by
  simp only [keepsRequest, Bool.and_eq_true, beq_iff_eq] at hkeeps
  obtain ⟨⟨⟨⟨⟨⟨⟨htext, hauthor⟩, hsource⟩, hcode⟩, hdelivery⟩, hmode⟩, hduties⟩, hrevisions⟩ := hkeeps
  constructor
  · exact List.isPrefixOf_iff_prefix.1 hrevisions
  · exact hevidence
  · rw [← sameChecks_iff.1 hresources]
    exact (List.take_prefix _ _).map _
  · exact htext
  · exact hauthor
  · exact hsource
  · exact hmode
  · exact hcode
  · exact hdelivery
  · exact keepsRequest_duties hduties

end Checks

/-! ## What a call has read

The state of a call is the record it read last: none at all before its first read. -/

/-- The last record a call has read. -/
abbrev LastRead := Option (Option SessionRecord)

/-- The record may be saved by the work: what it was checked against is extended. -/
structure Validated (work : TurnWork) (last : LastRead) (session : SessionRecord) : Prop where
  key : session.key = work.sessionKey
  own : ∀ request, session.request = some request → request.workId = work.id
  extends_ : ∃ read, last = some read ∧ ∀ previous, read.bind SessionRecord.request = some previous →
    previous.workId = work.id → ∃ request, session.request = some request ∧ previous.Extends request

/-- Of the session store, a call of the work only reads its own record. -/
def ServiceOp.ReadsOwn (work : TurnWork) : ServiceOp → Prop
  | .getSession key workId => key = work.sessionKey ∧ workId = work.id ∧ work.id ≠ ""
  | _ => True

/-- A lease that is valid is one of the work. -/
abbrev LeasesWork (work : TurnWork) : ServiceEvent → Prop :=
  ServiceEvent.Leases (fun leased => leased.work = work)

def LastRead.next (last : LastRead) : ServiceEvent → LastRead
  | ⟨.getSession _ _, .ok found⟩ => some found
  | _ => last

/-- What a call has read last after one more event. -/
def LastRead.after (last : LastRead) : SaveEvent → LastRead
  | ⟨.service op, answer⟩ => last.next ⟨op, answer⟩
  | ⟨.save _ _, _⟩ => last

def lastRead (trace : List SaveEvent) : LastRead := trace.foldl LastRead.after none

/-- `read?.revision ?? 0`. -/
def readRevision (read : Option SessionRecord) : Nat := (read.map SessionRecord.revision).getD 0

/-- The monitor of the checks alone. -/
def reads (work : TurnWork) : Monitor ServiceOp ServiceOp.Value Failure LastRead where
  allows _ op := op.ReadsOwn work
  trusts _ event := LeasesWork work event
  next := LastRead.next

/-- The monitor of a whole call: it only saves what it has validated. -/
def validates (work : TurnWork) : Monitor SaveOp SaveOp.Value Failure LastRead where
  allows last op := match op with
    | .service op => op.ReadsOwn work
    | .save session _ => Validated work last session
  trusts _ event := match event with
    | ⟨.service op, answer⟩ => LeasesWork work ⟨op, answer⟩
    | ⟨.save _ _, _⟩ => True
  next := LastRead.after

section Walk

variable {work : TurnWork} {proof : LeaseProof} {service : ServiceConfig} {last : LastRead}
  {previous next : Option RequestSnapshot} {session : SessionRecord}

namespace Service

/-- What a check that succeeds makes sure of, for a call that has read what it had. -/
def Ensures (last : LastRead) (Q : Prop) {α : Type} (last' : LastRead) (outcome : Except Failure α) :
    Prop :=
  last' = last ∧ ∀ a, outcome = .ok a → Q

theorem Ensures.error {Q : Prop} {α : Type} {e : Failure} :
    Ensures (α := α) last Q last (.error e) := ⟨rfl, nofun⟩

theorem Ensures.ok {Q : Prop} {α : Type} {a : α} (h : Q) : Ensures last Q last (.ok a) :=
  ⟨rfl, fun _ _ => h⟩

theorem recordedRead_reads {requestVersion : Nat} {permits : String → Bool}
    {noIntent noResult key : String} :
    (recordedRead work requestVersion permits noIntent noResult key).Obeys (reads work)
      (Ensures last True) last := by
  apply Obeys.perform_bind
  · trivial
  · exact fun e _ => .error
  · intro intent _
    cases intent with
    | none => exact .error
    | some intent =>
        dsimp only
        split
        · exact .error
        · apply Obeys.perform_bind
          · trivial
          · exact fun e _ => .error
          · intro result _
            cases result with
            | none => exact .error
            | some result => exact .ok trivial

theorem replayChecks_reads {requestVersion : Nat} {records expected : List ResourceCheckRecord} :
    (replayChecks work requestVersion expected records).Obeys (reads work)
      (Ensures last True) last := by
  induction records generalizing expected with
  | nil => exact .ok trivial
  | cons record records ih =>
      apply Obeys.bind
      apply Obeys.mono recordedRead_reads
      rintro _ read ⟨rfl, -⟩
      cases read with
      | error e => exact .error
      | ok read =>
          dsimp only
          split
          · exact ih
          · exact .error

theorem replayEvidence_reads {requestVersion : Nat} {items : List EvidenceItem}
    {expected : EvidenceSnapshot} :
    (replayEvidence service work requestVersion expected items).Obeys (reads work)
      (Ensures last True) last := by
  induction items generalizing expected with
  | nil => exact .ok trivial
  | cons item items ih =>
      unfold replayEvidence
      split
      · exact .error
      · apply Obeys.bind
        apply Obeys.mono recordedRead_reads
        rintro _ read ⟨rfl, -⟩
        cases read with
        | error e => exact .error
        | ok read =>
            dsimp only
            split
            · exact ih
            · exact .error

/-- The checks of the next request begin with those of the one saved before. -/
theorem checkResources_reads :
    (checkResources work previous next).Obeys (reads work) (Ensures last
      (∀ own request, ownPrevious work previous = some own → next = some request →
        sameChecks (request.checks.take own.checks.length) own.checks = true)) last := by
  unfold checkResources
  dsimp only
  split
  · exact .error
  · rename_i hguard
    have hsame : ∀ own request, ownPrevious work previous = some own → next = some request →
        sameChecks (request.checks.take own.checks.length) own.checks = true := by
      intro own request hown hnext
      simp only [Bool.or_eq_true, not_or, Bool.not_eq_true, Bool.not_eq_false', hown, hnext,
        Option.bind_some] at hguard
      exact hguard.2
    split
    · exact .ok hsame
    · split
      · apply Obeys.bind
        apply Obeys.mono replayChecks_reads
        rintro _ expected ⟨rfl, -⟩
        cases expected with
        | error e => exact .error
        | ok expected =>
            dsimp only
            split
            · exact .ok hsame
            · exact .error
      · exact .error

/-- The evidence of the next request begins with that of the one saved before. -/
theorem checkEvidenceGrowth_reads :
    (checkEvidenceGrowth service work previous next).Obeys (reads work) (Ensures last
      (∀ own request, ownPrevious work previous = some own → next = some request →
        own.evidence.items <+: request.evidence.items)) last := by
  unfold checkEvidenceGrowth
  generalize ownPrevious work previous = earlier
  match earlier, next with
  | none, none => exact .ok fun own request hown => by cases hown
  | none, some request =>
      dsimp only
      split
      · exact .error
      · exact .ok fun own request' hown => by cases hown
  | some own, none => exact .error
  | some own, some request =>
      have hgrown : own.evidence.items <+: request.evidence.items →
          ∀ own' request', some own = some own' → some request = some request' →
            own'.evidence.items <+: request'.evidence.items := by
        intro hprefix own' request' hown hrequest
        cases hown
        cases hrequest
        exact hprefix
      dsimp only
      split
      · rename_i hsame
        exact .ok (hgrown (hsame ▸ List.prefix_refl _))
      · split
        · exact .error
        · rename_i hguard
          have hprefix : own.evidence.items <+: request.evidence.items := by
            simp only [Bool.or_eq_true, bne_iff_ne, not_or, not_not] at hguard
            rw [← hguard.2]
            exact List.take_prefix _ _
          apply Obeys.bind
          apply Obeys.mono replayEvidence_reads
          rintro _ expected ⟨rfl, -⟩
          cases expected with
          | error e => exact .error
          | ok expected =>
              dsimp only
              split
              · exact .ok (hgrown hprefix)
              · exact .error

/-- The checks against the request saved before, if it is one of the work. -/
theorem checkPrevious_reads :
    (checkPrevious service work previous next).Obeys (reads work) (Ensures last
      (∀ own, ownPrevious work previous = some own →
        ∃ request, next = some request ∧ own.Extends request)) last := by
  apply Obeys.bind
  apply Obeys.mono checkResources_reads
  rintro _ outcome ⟨rfl, hresources⟩
  cases outcome with
  | error e => exact .error
  | ok =>
      cases hrewrite : checkRewrite work previous next with
      | error e => exact .error
      | ok =>
          apply Obeys.mono checkEvidenceGrowth_reads
          rintro _ outcome ⟨rfl, hevidence⟩
          refine ⟨rfl, fun _ hok own hown => ?_⟩
          obtain ⟨request, hnext, hkeeps⟩ := checkRewrite_keeps hrewrite hown
          exact ⟨request, hnext, extends_of_checks (hresources _ rfl own request hown hnext) hkeeps
            (hevidence _ hok own request hown hnext)⟩

theorem requireLease_reads (hproof : proof.id = work.id) :
    (requireLease proof false).Obeys (reads work) (fun last' outcome => last' = last ∧
      ∀ leased, outcome = .ok leased → leased.work = work ∧ work.id ≠ "") last := by
  unfold requireLease
  split
  · exact ⟨rfl, fun leased h => by cases h⟩
  · rename_i hcomplete
    have hid : work.id ≠ "" := by
      intro h
      simp [hproof, h] at hcomplete
    apply Obeys.perform_bind
    · trivial
    · exact fun e _ => ⟨rfl, fun leased h => by cases h⟩
    · intro leased htrust
      cases leased with
      | none => exact ⟨rfl, fun leased h => by cases h⟩
      | some leased =>
          refine ⟨rfl, fun leased' h => ?_⟩
          cases h
          exact ⟨htrust, hid⟩

theorem checkSteering_reads :
    (checkSteering proof next).Obeys (reads work) (Ensures last True) last := by
  unfold checkSteering
  split
  · exact .ok trivial
  · apply Obeys.perform_bind
    · trivial
    · exact fun e _ => .error
    · exact fun current _ => ⟨rfl, fun _ _ => trivial⟩

/-- A record that passed every check is one the work may save, as far as it has read. -/
theorem checkSession_reads (hproof : proof.id = work.id) :
    (checkSession service proof session).Obeys (reads work) (fun last outcome =>
      ∀ work', outcome = .ok work' → work' = work ∧ work.id ≠ "" ∧ Validated work last session)
      last := by
  apply Obeys.bind
  apply Obeys.mono (requireLease_reads hproof)
  rintro _ leased ⟨rfl, hleased⟩
  cases leased with
  | error e => exact fun work' h => by cases h
  | ok leased =>
      obtain ⟨hwork, hid⟩ := hleased leased rfl
      dsimp only
      rw [hwork]
      apply Obeys.perform_bind
      · trivial
      · exact fun e _ work' h => by cases h
      · intro _ _
        cases hrequest : checkRequest (saveEnv service) work session with
        | error e => exact fun work' h => by cases h
        | ok =>
            obtain ⟨hkey, hown⟩ := checkRequest_own hrequest
            show Obeys (reads work) _ _ (checkSteering proof session.request >>= _)
            apply Obeys.bind
            apply Obeys.mono checkSteering_reads
            rintro _ steered ⟨rfl, -⟩
            cases steered with
            | error e => exact fun work' h => by cases h
            | ok =>
                apply Obeys.perform_bind
                · exact ⟨rfl, rfl, hid⟩
                · exact fun e _ work' h => by cases h
                · intro read _
                  apply Obeys.bind
                  apply Obeys.mono checkPrevious_reads
                  rintro _ outcome ⟨rfl, hextends⟩
                  cases outcome with
                  | error e => exact fun work' h => by cases h
                  | ok =>
                      intro work' h
                      cases h
                      refine ⟨rfl, hid, hkey, hown, read, rfl, fun previous hread hprevious => ?_⟩
                      apply hextends _ rfl previous
                      rw [ownPrevious, hread, Option.filter_some_pos]
                      exact beq_iff_eq.2 hprevious

theorem readBack_reads (hproof : proof.id = work.id) (hid : work.id ≠ "")
    (hkey : session.key = work.sessionKey) :
    (readBack proof work session).Obeys (reads work) (fun _ _ => True) last := by
  apply Obeys.bind
  apply Obeys.mono (requireLease_reads hproof)
  intro last leased _
  cases leased with
  | error e => trivial
  | ok leased =>
      apply Obeys.perform_bind
      · exact ⟨hkey, rfl, hid⟩
      · exact fun _ _ => trivial
      · intro current _
        cases current with
        | none => trivial
        | some current =>
            dsimp only
            split <;> trivial

end Service

/-- A call awaits what its checks await. -/
theorem serve_validates {α : Type} {p : Service α} {post : LastRead → Except Failure α → Prop}
    (h : p.Obeys (reads work) post last) :
    (p.interpret SaveCall.serve).Obeys (validates work) post last := by
  apply Obeys.mono (Obeys.interpret (I := Eq) _ h rfl)
  · rintro m outcome ⟨n, rfl, hpost⟩
    exact hpost
  · rintro n op _ hallows rfl
    exact ⟨hallows, fun answer htrust => ⟨htrust, rfl⟩⟩

theorem saveSession_validates (hproof : proof.id = work.id) :
    (saveSession service proof session).Obeys (validates work) (fun _ _ => True) last := by
  apply Obeys.bind
  apply Obeys.mono (serve_validates (Service.checkSession_reads hproof))
  intro last outcome hvalidated
  cases outcome with
  | error e => trivial
  | ok work' =>
      obtain ⟨rfl, hid, hvalid⟩ := hvalidated work' rfl
      apply Obeys.perform_bind
      · exact hvalid
      · exact fun _ _ => trivial
      · intro saved _
        cases saved with
        | some revision => trivial
        | none => exact serve_validates (Service.readBack_reads hproof hid hvalid.key)

end Walk

/-! ## Saves under one lease -/

namespace MemorySessionStore

/-- A stored request is one of the work, and its session is stored too. -/
def Sound (work : TurnWork) (store : MemorySessionStore) : Prop :=
  ∀ request, store.requests.get? work.id = some request →
    request.workId = work.id ∧ (store.sessions.get? work.sessionKey).isSome = true

theorem sound_empty (work : TurnWork) : Sound work {} := by
  intro request h
  cases h

/-- The steps of the store: the answers of the lease are about the work, the session
    store answers as it does, and every other answer is anyone's. -/
def world (work : TurnWork) (store : MemorySessionStore) (event : SaveEvent)
    (store' : MemorySessionStore) : Prop :=
  match event with
  | ⟨.service (.getSession key workId), answer⟩ =>
      (∀ found, answer = .ok found → found = store.get key (some workId)) ∧ store' = store
  | ⟨.service op, answer⟩ => LeasesWork work ⟨op, answer⟩ ∧ store' = store
  | ⟨.save session _, .ok saved⟩ => (saved, store') = store.save session
  -- The answer of a save may be lost.
  | ⟨.save session _, .error _⟩ => store' = store ∨ store' = (store.save session).2

end MemorySessionStore

abbrev SavePool := Pool MemorySessionStore SaveOp SaveOp.Value Failure Nat

abbrev SavePoolStep := PoolStep SaveOp SaveOp.Value Failure Nat

/-- Calls of `saveSession` under the lease of one work, beside saves of other works. -/
def leasedSaves (service : ServiceConfig) (work : TurnWork) (proof : LeaseProof) :
    PoolSpec MemorySessionStore SaveOp SaveOp.Value Failure Nat where
  world := MemorySessionStore.world work
  env store store' := ∃ session : SessionRecord,
    (∀ request, session.request = some request → request.workId ≠ work.id)
      ∧ store' = (store.save session).2
  entry p := proof.id = work.id ∧ ∃ session, p = saveSession service proof session
  start := MemorySessionStore.Sound work

/-- The revision of the record a call has read last. -/
def SavePool.readRevision (s : SavePool) (index : Nat) : Option Nat :=
  ((s.calls[index]?).bind (fun call => lastRead call.trace)).map LingxiOS.readRevision

/-- A save whose record carries the stored revision was checked against the request
    that is stored: the revision its call has read is the stored one too. -/
def SavesCurrent (s : SavePool) : SavePoolStep → Prop
  | .step index ⟨.save session _, _⟩ =>
      session.revision = s.shared.revision session.key →
        s.readRevision index = some (s.shared.revision session.key)
  | _ => True

instance (s : SavePool) : DecidablePred (SavesCurrent s)
  | .step _ ⟨.save _ _, _⟩ => inferInstanceAs (Decidable (_ → _))
  | .step _ ⟨.service _, _⟩ => inferInstanceAs (Decidable True)
  | .begin _ => inferInstanceAs (Decidable True)
  | .other => inferInstanceAs (Decidable True)

/-! ## The store under saves -/

namespace MemorySessionStore

variable {work : TurnWork} {store store' : MemorySessionStore} {session : SessionRecord}
  {last : LastRead} {read : Option SessionRecord}

/-- What a step does to the stored request. -/
structure Moves (work : TurnWork) (store store' : MemorySessionStore) : Prop where
  sound : store'.Sound work
  revision : store.revision work.sessionKey ≤ store'.revision work.sessionKey
  request : store'.revision work.sessionKey = store.revision work.sessionKey →
    store'.requests.get? work.id = store.requests.get? work.id

/-- What a call has read is not newer than the store, and still there at the same revision. -/
structure Knows (work : TurnWork) (store : MemorySessionStore) (read : Option SessionRecord) :
    Prop where
  revision : readRevision read ≤ store.revision work.sessionKey
  request : readRevision read = store.revision work.sessionKey →
    read.bind SessionRecord.request = store.requests.get? work.id

theorem Moves.refl (h : store.Sound work) : Moves work store store := ⟨h, le_rfl, fun _ => rfl⟩

theorem Knows.of_moves (h : Knows work store read) (hmoves : Moves work store store') :
    Knows work store' read where
  revision := h.revision.trans hmoves.revision
  request hread := by
    have hsame : readRevision read = store.revision work.sessionKey :=
      le_antisymm h.revision (hread ▸ hmoves.revision)
    rw [h.request hsame, hmoves.request (hread.symm.trans hsame)]

/-- The record just read is known. -/
theorem knows_get (h : store.Sound work) (hid : work.id ≠ "") :
    Knows work store (store.get work.sessionKey (some work.id)) where
  revision := le_of_eq get_revision
  request _ := by
    cases hstored : store.sessions.get? work.sessionKey with
    | some stored => exact get_request hid (by rw [hstored]; rfl)
    | none =>
        -- Without a session there is no request of the work either.
        cases hrequest : store.requests.get? work.id with
        | none => simp [get, hstored]
        | some request =>
            have hsome := (h request hrequest).2
            rw [hstored] at hsome
            cases hsome

/-- A save of another work leaves the request of this one alone. -/
theorem moves_of_other (h : store.Sound work)
    (hother : ∀ request, session.request = some request → request.workId ≠ work.id) :
    Moves work store (store.save session).2 where
  sound request hrequest := by
    rw [request_save_of_ne hother] at hrequest
    exact ⟨(h request hrequest).1, isSome_save (h request hrequest).2⟩
  revision := revision_le_save _
  request _ := request_save_of_ne hother

/-- A save of the work that is not a conflict reaches the next revision. -/
theorem moves_of_save (h : store.Sound work) (hvalid : Validated work last session) :
    Moves work store (store.save session).2 := by
  rcases eq_or_ne session.revision (store.revision session.key) with heq | hne
  · constructor
    · intro request hrequest
      have hstored : ((store.save session).2.sessions.get? work.sessionKey).isSome = true := by
        rw [save_of_eq heq, hvalid.key]
        simp
      cases hsession : session.request with
      | none =>
          rw [save_of_eq heq, hsession] at hrequest
          exact ⟨(h request hrequest).1, hstored⟩
      | some saved =>
          have hown := hvalid.own saved hsession
          have hset := request_save_self heq hsession
          rw [hown] at hset
          obtain rfl : saved = request := Option.some.inj (hset.symm.trans hrequest)
          exact ⟨hown, hstored⟩
    · exact revision_le_save _
    · intro hrevision
      have hnext := revision_save_self heq
      rw [hvalid.key] at hnext
      omega
  · rw [save_of_ne hne]
    exact .refl h

/-- A save that was checked against the stored request extends it. -/
theorem extends_of_save (h : store.Sound work) (hvalid : Validated work last session)
    (hknows : ∀ read, last = some read → Knows work store read)
    (hcurrent : session.revision = store.revision session.key → ∀ read, last = some read →
      readRevision read = store.revision session.key)
    {earlier : RequestSnapshot} (hearlier : store.requests.get? work.id = some earlier) :
    ∃ later, (store.save session).2.requests.get? work.id = some later ∧ earlier.Extends later := by
  rcases eq_or_ne session.revision (store.revision session.key) with heq | hne
  · obtain ⟨read, hread, hextends⟩ := hvalid.extends_
    have hsame : readRevision read = store.revision work.sessionKey := by
      rw [← hvalid.key]
      exact hcurrent heq read hread
    have hstored : read.bind SessionRecord.request = some earlier := by
      rw [(hknows read hread).request hsame, hearlier]
    obtain ⟨later, hlater, hextends⟩ := hextends earlier hstored (h earlier hearlier).1
    refine ⟨later, ?_, hextends⟩
    rw [← hvalid.own later hlater]
    exact request_save_self heq hlater
  · rw [save_of_ne hne]
    exact ⟨earlier, hearlier, .refl earlier⟩

end MemorySessionStore

/-! ## Runs -/

section Runs

variable {service : ServiceConfig} {work : TurnWork} {proof : LeaseProof} {s s' : SavePool}
  {label : SavePoolStep}

/-- What holds in every state the calls of a lease reach. -/
structure SavesSound (work : TurnWork) (s : SavePool) : Prop where
  sound : s.shared.Sound work
  obeys : s.Each fun _ call => Call.Obeys (validates work) (fun _ _ => True) none call
  fresh : s.Each fun _ call => ∀ read, lastRead call.trace = some read → s.shared.Knows work read

theorem SavesSound.start (h : (leasedSaves service work proof).system.start s) :
    SavesSound work s := by
  obtain ⟨hcalls, hsound⟩ := h
  have hnone : ∀ {Q}, s.Each Q := by
    intro Q index call hget
    rw [hcalls] at hget
    cases hget
  exact ⟨hsound, hnone, hnone⟩

theorem lastRead_concat (trace : List SaveEvent) (event : SaveEvent) :
    lastRead (trace ++ [event]) = (lastRead trace).after event := by
  simp [lastRead]

namespace MemorySessionStore

variable {store store' : MemorySessionStore} {trace : List SaveEvent} {event : SaveEvent}

/-- One event of a call moves the store, and is one its monitor trusts. -/
theorem moves_of_world (h : store.Sound work) {last : LastRead}
    (hallows : (validates work).allows last event.op) (hworld : store.world work event store') :
    Moves work store store' ∧ (validates work).trusts last event := by
  obtain ⟨op, answer⟩ := event
  cases op with
  | save session lease =>
      refine ⟨?_, trivial⟩
      cases answer with
      | ok saved =>
          have hstore : store' = (store.save session).2 := congrArg Prod.snd hworld
          rw [hstore]
          exact moves_of_save h hallows
      | error e =>
          rcases hworld with rfl | rfl
          · exact .refl h
          · exact moves_of_save h hallows
  | service op =>
      cases op with
      | getSession key workId =>
          obtain ⟨-, rfl⟩ := hworld
          exact ⟨.refl h, trivial⟩
      | _ =>
          obtain ⟨htrust, rfl⟩ := hworld
          exact ⟨.refl h, htrust⟩

/-- What a call has read after an event is what it had read before, or what the store has. -/
theorem knows_of_world (h : store.Sound work) {last : LastRead}
    (hallows : (validates work).allows last event.op) (hworld : store.world work event store')
    (hknows : ∀ read, last = some read → Knows work store' read) {read : Option SessionRecord}
    (hread : last.after event = some read) : Knows work store' read := by
  obtain ⟨op, answer⟩ := event
  cases op with
  | save session lease => exact hknows read hread
  | service op =>
      cases op with
      | getSession key workId =>
          obtain ⟨hfound, rfl⟩ := hworld
          cases answer with
          | error e => exact hknows read hread
          | ok found =>
              obtain ⟨rfl, rfl, hid⟩ := hallows
              obtain rfl := hfound found rfl
              cases hread
              exact knows_get h hid
      | _ => exact hknows read hread

end MemorySessionStore

/-- Every step moves the store. -/
theorem SavesSound.moves (h : SavesSound work s)
    (hstep : (leasedSaves service work proof).system.step s label s') :
    s.shared.Moves work s'.shared := by
  cases label with
  | begin entry =>
      obtain ⟨-, rfl⟩ := hstep
      exact .refl h.sound
  | step index event =>
      obtain ⟨trace, next, hget, hworld, -⟩ := hstep
      exact (MemorySessionStore.moves_of_world h.sound (h.obeys index _ hget).1 hworld).1
  | other =>
      obtain ⟨⟨session, hother, hshared⟩, -⟩ := hstep
      rw [hshared]
      exact MemorySessionStore.moves_of_other h.sound hother

theorem SavesSound.step (h : SavesSound work s)
    (hstep : (leasedSaves service work proof).system.step s label s') : SavesSound work s' := by
  have hmoves := h.moves hstep
  -- What was known before the step still is, and the call that stepped may know more.
  have hbefore : s.Each fun _ call => Call.Obeys (validates work) (fun _ _ => True) none call ∧
      ∀ read, lastRead call.trace = some read → s'.shared.Knows work read := by
    intro index call hget
    refine ⟨h.obeys index call hget, fun read hread => ?_⟩
    exact (h.fresh index call hget read hread).of_moves hmoves
  have hafter : s'.Each fun _ call => Call.Obeys (validates work) (fun _ _ => True) none call ∧
      ∀ read, lastRead call.trace = some read → s'.shared.Knows work read := by
    apply hbefore.step hstep
    · rintro _ ⟨hproof, session, rfl⟩
      exact ⟨saveSession_validates hproof, fun read hread => by cases hread⟩
    · rintro index event trace next _ ⟨hobeys, hknows⟩ hworld
      refine ⟨hobeys.step (MemorySessionStore.moves_of_world h.sound hobeys.1 hworld).2, ?_⟩
      intro read hread
      rw [lastRead_concat] at hread
      exact MemorySessionStore.knows_of_world h.sound hobeys.1 hworld hknows hread
  exact ⟨hmoves.sound, fun index call hget => (hafter index call hget).1,
    fun index call hget => (hafter index call hget).2⟩

/-- A step at which no save is checked against an older request extends the stored one. -/
theorem SavesSound.extends_step (h : SavesSound work s) (hcurrent : SavesCurrent s label)
    (hstep : (leasedSaves service work proof).system.step s label s') {earlier : RequestSnapshot}
    (hearlier : s.shared.requests.get? work.id = some earlier) :
    ∃ later, s'.shared.requests.get? work.id = some later ∧ earlier.Extends later := by
  have hsame : s'.shared = s.shared →
      ∃ later, s'.shared.requests.get? work.id = some later ∧ earlier.Extends later := by
    intro hshared
    rw [hshared]
    exact ⟨earlier, hearlier, .refl earlier⟩
  cases label with
  | begin entry =>
      obtain ⟨-, rfl⟩ := hstep
      exact hsame rfl
  | other =>
      obtain ⟨⟨session, hother, hshared⟩, -⟩ := hstep
      refine ⟨earlier, ?_, .refl earlier⟩
      rw [hshared, MemorySessionStore.request_save_of_ne hother]
      exact hearlier
  | step index event =>
      obtain ⟨trace, next, hget, hworld, -⟩ := hstep
      have hobeys := h.obeys index _ hget
      have hknows := h.fresh index _ hget
      obtain ⟨op, answer⟩ := event
      cases op with
      | save session lease =>
          have hread : session.revision = s.shared.revision session.key →
              ∀ read, lastRead trace = some read →
                readRevision read = s.shared.revision session.key := by
            intro heq read hread
            have hsame := hcurrent heq
            rw [SavePool.readRevision, hget, Option.bind_some, hread] at hsame
            exact Option.some.inj hsame
          have hextends : ∃ later, (s.shared.save session).2.requests.get? work.id = some later ∧
              earlier.Extends later :=
            MemorySessionStore.extends_of_save h.sound hobeys.1 hknows hread hearlier
          cases answer with
          | ok saved =>
              have hstore : s'.shared = (s.shared.save session).2 := congrArg Prod.snd hworld
              rw [hstore]
              exact hextends
          | error e =>
              rcases hworld with hshared | hshared
              · exact hsame hshared
              · rw [hshared]
                exact hextends
      | service op =>
          cases op with
          | getSession key workId => exact hsame hworld.2
          | _ => exact hsame hworld.2

/-- While every save that hits the stored revision was checked against the request stored
    at it, the revisions, the evidence and the checks of the stored request only grow, and
    the rest of it stays. -/
theorem saved_request_only_extended {labels : List SavePoolStep}
    (hreach : ((leasedSaves service work proof).system.restrict SavesCurrent).Reachable s)
    (hrun : ((leasedSaves service work proof).system.restrict SavesCurrent).Run s labels s')
    {earlier : RequestSnapshot} (hearlier : s.shared.requests.get? work.id = some earlier) :
    ∃ later, s'.shared.requests.get? work.id = some later ∧ earlier.Extends later := by
  have hsound : SavesSound work s := by
    apply hreach.invariant
    · exact fun hstart => SavesSound.start hstart
    · rintro t e t' ht ⟨-, hstep⟩
      exact ht.step hstep
  have hkept : SavesSound work s' ∧
      ∃ later, s'.shared.requests.get? work.id = some later ∧ earlier.Extends later := by
    apply hrun.preserves (I := fun u => SavesSound work u ∧
      ∃ later, u.shared.requests.get? work.id = some later ∧ earlier.Extends later)
    · rintro u e u' ⟨hu, between, hbetween, hextends⟩ ⟨hcurrent, hstep⟩
      obtain ⟨later, hlater, hextends'⟩ := hu.extends_step hcurrent hstep hbetween
      exact ⟨hu.step hstep, later, hlater, hextends.trans hextends'⟩
    · exact ⟨hsound, earlier, hearlier, .refl earlier⟩
  exact hkept.2

end Runs

/-! ## A correction that is dropped

A note is drafted and corrected once. One save carries the correction; another was
checked before it against the empty store, and carries the revision it will leave. -/

section Draft

private def draftWork : TurnWork where
  id := "n"
  tenantId := "t"
  agentId := "a"
  sessionId := "s"
  threadId := none
  kind := "turn"
  lane := .interactive
  triggerRef := "m1"
  principalId := some "u"
  meta_ := { text := some "Draft the note" }

private def draftProof : LeaseProof := ⟨"n", 1, "token"⟩

private def draftCorrection (id : String) : SteerInput where
  id := id
  text := "Shorter, please"
  createdAt := 0

private def draftSession (revision : Nat) (revisions : List SteerInput) : SessionRecord where
  key := draftWork.sessionKey
  tenantId := "t"
  agentId := "a"
  sessionId := "s"
  threadId := none
  revision := revision
  request := some {
    version := 1
    workId := "n"
    tenantId := "t"
    sessionId := "s"
    authorId := "u"
    sourceRef := "m1"
    originalText := "Draft the note"
    revisions := revisions
    attachments := []
    evidence := ⟨1, "n:evidence:1", []⟩ }

private def draftService : ServiceConfig where
  sha256 := fun _ => ""
  tools := []
  toolContractHash := fun _ => ""

private def draftHandler : Handler MemorySessionStore SaveOp SaveOp.Value Failure
  | store, .save session _ => (.ok (store.save session).1, (store.save session).2)
  | store, .service (.getLeased _) => (.ok (some ⟨draftWork, 1, false⟩), store)
  | store, .service (.heartbeat _) =>
      (.ok (some ⟨false, false, [draftCorrection "c1", draftCorrection "c2"]⟩), store)
  | store, .service (.authorizeWork _) => (.ok (), store)
  | store, .service (.getSession key workId) => (.ok (store.get key (some workId)), store)
  | store, .service _ => (.error (.error "not awaited"), store)

private theorem draftHandler_world (store : MemorySessionStore) (op : SaveOp) :
    (leasedSaves draftService draftWork draftProof).world store ⟨op, (draftHandler store op).1⟩
      (draftHandler store op).2 := by
  cases op with
  | save session lease => rfl
  | service op =>
      cases op with
      | getSession key workId =>
          refine ⟨fun found h => ?_, rfl⟩
          cases h
          rfl
      | getLeased proof => exact ⟨rfl, rfl⟩
      | _ => exact ⟨trivial, rfl⟩

private abbrev DraftMove := Move SaveOp SaveOp.Value Failure Nat

private def draftSave (revision : Nat) (revisions : List SteerInput) : DraftMove :=
  .begin (saveSession draftService draftProof (draftSession revision revisions))

private theorem draftEntries {moves : List DraftMove}
    (h : ∀ entry, Move.begin entry ∈ moves → ∃ revision revisions,
      Move.begin entry = draftSave revision revisions) :
    ∀ entry, Move.begin entry ∈ moves →
      (leasedSaves draftService draftWork draftProof).entry entry := by
  intro entry hentry
  obtain ⟨revision, revisions, hsave⟩ := h entry hentry
  cases hsave
  exact ⟨rfl, _, rfl⟩

/-- The save that is ahead reads the empty store, then the correction is saved. -/
private def draftCorrected : List DraftMove :=
  [draftSave 1 [], .step 0, .step 0, .step 0,
    draftSave 0 [draftCorrection "c1"], .step 1, .step 1, .step 1, .step 1, .step 1]

private def draftStart : SavePool := ⟨{}, []⟩

private def storedRevisions (s : SavePool) : Option (List SteerInput) :=
  (s.shared.requests.get? "n").map RequestSnapshot.revisions

/-- One save of a correction after another, each checked against the request before it. -/
private def draftFirst : List DraftMove :=
  draftSave 0 [draftCorrection "c1"] :: List.replicate 5 (.step 0)

private def draftSecond : List DraftMove :=
  draftSave 1 [draftCorrection "c1", draftCorrection "c2"] :: List.replicate 5 (.step 1)

private theorem draftSaved_entries {revision : Nat} {revisions : List SteerInput} {index : Nat} :
    ∀ entry, Move.begin entry ∈ draftSave revision revisions :: List.replicate 5 (.step index) →
      (leasedSaves draftService draftWork draftProof).entry entry := by
  apply draftEntries
  intro entry h
  rcases List.mem_cons.1 h with h | h
  · exact ⟨_, _, h⟩
  · cases List.eq_of_mem_replicate h

/-- A second correction is saved after the first, and keeps it. -/
theorem saved_request_only_extended_draft : ∃ later : RequestSnapshot,
    ((draftStart.play draftHandler draftFirst).2.play draftHandler draftSecond).2.shared.requests.get?
        "n" = some later ∧
      [draftCorrection "c1"] <+: later.revisions := by
  have hfirst : ((leasedSaves draftService draftWork draftProof).system.restrict SavesCurrent).Run
      draftStart _ (draftStart.play draftHandler draftFirst).2 :=
    Pool.run_restrict_of_play draftHandler_world draftSaved_entries (by decide +kernel)
  have hsecond : ((leasedSaves draftService draftWork draftProof).system.restrict SavesCurrent).Run
      (draftStart.play draftHandler draftFirst).2 _
      ((draftStart.play draftHandler draftFirst).2.play draftHandler draftSecond).2 :=
    Pool.run_restrict_of_play draftHandler_world draftSaved_entries (by decide +kernel)
  have hbefore : storedRevisions (draftStart.play draftHandler draftFirst).2
      = some [draftCorrection "c1"] := by decide +kernel
  obtain ⟨earlier, hearlier, hrevisions⟩ := Option.map_eq_some_iff.1 hbefore
  have hreach : ((leasedSaves draftService draftWork draftProof).system.restrict
      SavesCurrent).Reachable (draftStart.play draftHandler draftFirst).2 :=
    ⟨draftStart, _, ⟨rfl, MemorySessionStore.sound_empty _⟩, hfirst⟩
  obtain ⟨later, hlater, hextends⟩ := saved_request_only_extended hreach hsecond hearlier
  exact ⟨later, hlater, hrevisions ▸ hextends.revisions⟩

/-- A save checked against an older request drops a correction that is stored. -/
theorem stale_save_drops_revision : ∃ (s s' : SavePool) (labels : List SavePoolStep),
    (leasedSaves draftService draftWork draftProof).system.Reachable s ∧
    (leasedSaves draftService draftWork draftProof).system.Run s labels s' ∧
    ∃ earlier later, s.shared.requests.get? draftWork.id = some earlier ∧
      s'.shared.requests.get? draftWork.id = some later ∧ ¬ earlier.Extends later := by
  have hentries : ∀ entry, Move.begin entry ∈ draftCorrected →
      (leasedSaves draftService draftWork draftProof).entry entry := by
    apply draftEntries
    intro entry h
    simp only [draftCorrected, List.mem_cons, reduceCtorEq, List.not_mem_nil, or_false,
      false_or] at h
    rcases h with h | h
    · exact ⟨_, _, h⟩
    · exact ⟨_, _, h⟩
  have hbefore : storedRevisions (draftStart.play draftHandler draftCorrected).2
      = some [draftCorrection "c1"] := by decide +kernel
  have hafter : storedRevisions ((draftStart.play draftHandler draftCorrected).2.play draftHandler
      [.step 0]).2 = some [] := by decide +kernel
  obtain ⟨earlier, hearlier, hrevisions⟩ := Option.map_eq_some_iff.1 hbefore
  obtain ⟨later, hlater, hdropped⟩ := Option.map_eq_some_iff.1 hafter
  refine ⟨_, _, _, ⟨draftStart, _, ⟨rfl, MemorySessionStore.sound_empty _⟩,
    Pool.run_of_play draftHandler_world hentries⟩,
    Pool.run_of_play draftHandler_world (fun entry h => by simp at h), earlier, later, hearlier,
    hlater, fun hextends => ?_⟩
  have hprefix := hextends.revisions
  rw [hrevisions, hdropped] at hprefix
  simp at hprefix

end Draft

end LingxiOS
