-- SUMMARY: What a captured request passes at its first save.
import LingxiOS.Request.Save

/-! # Capture and Save Agree

The rules that capture a request and the rules that accept it live apart. Here
they are compared field by field along any chain of delegations: what a work
captures is what its first save expects, with one exception, the action keys a
child inherits with its parent's evidence. -/

namespace LingxiOS

variable {env : SaveEnv} {work : TurnWork} {request : RequestSnapshot}

/-! ## Accepted requests -/

/-- `saveSession` accepted a session of the work with this request. -/
def Accepted (env : SaveEnv) (work : TurnWork) (request : RequestSnapshot) : Prop :=
  ∃ session steer previous, session.request = some request ∧
    saveChecks env work session steer previous = .ok ()

/-- The stages of a successful save. -/
theorem saveChecks_eq_ok_iff {session : SessionRecord} {steer : Option (List SteerInput)}
    {previous : Option RequestSnapshot} (hrequest : session.request = some request) :
    saveChecks env work session steer previous = .ok () ↔
      (validIdentity work session = true ∧ validRequest work request = true) ∧
      checkContract env request = .ok () ∧ checkDelegation work request = .ok () ∧
      checkRequestAttachments work request = .ok () ∧ checkEvidence request = .ok () ∧
      checkRevisions steer (some request) = .ok () ∧
      checkPrevious env work previous (some request) = .ok () := by
  have hrecord : checkRecord work session = .ok () ↔
      validIdentity work session = true ∧ validRequest work request = true := by
    simp only [checkRecord, hrequest, Bool.and_eq_true]
    split <;> simp_all
  simp only [saveChecks, checkRequest, hrequest, Except.bind_eq_ok_iff, hrecord]
  constructor
  · rintro ⟨_, ⟨_, h₁, _, h₂, _, h₃, _, h₄, h₅⟩, _, h₆, h₇⟩
    exact ⟨h₁, h₂, h₃, h₄, h₅, h₆, h₇⟩
  · rintro ⟨h₁, h₂, h₃, h₄, h₅, h₆, h₇⟩
    exact ⟨(), ⟨(), h₁, (), h₂, (), h₃, (), h₄, h₅⟩, (), h₆, h₇⟩

/-- The delegation check passes when every policy is the trusted one. -/
theorem checkDelegation_eq_ok_iff :
    checkDelegation work request = .ok () ↔
      inheritsFromParent work request = true ∧ request.codeExecution = expectedCode work ∧
      request.deliveryMode.map DeliveryMode.name = work.meta_.deliveryMode ∧
      expectedMode work = .ok (request.mode.map HarnessMode.name) ∧
      ∃ saved trusted, snapshotObligations (request.obligations.getD []) = .ok saved ∧
        snapshotObligations (work.meta_.obligations.getD []) = .ok trusted ∧
        sameObligations saved trusted = true := by
  unfold checkDelegation
  by_cases hinherits : inheritsFromParent work request = true
  · by_cases hpolicy : request.codeExecution = expectedCode work ∧
        request.deliveryMode.map DeliveryMode.name = work.meta_.deliveryMode
    · obtain ⟨hcode, hdelivery⟩ := hpolicy
      simp only [hinherits, hcode, hdelivery, Bool.not_true, Bool.false_eq_true, if_false, ne_eq,
        not_true, or_self, true_and]
      cases hmode : expectedMode work with
      | error message => simp
      | ok mode =>
          by_cases hname : request.mode.map HarnessMode.name = mode
          · subst hname
            cases hsaved : snapshotObligations (request.obligations.getD []) with
            | error message => simp
            | ok saved =>
                cases htrusted : snapshotObligations (work.meta_.obligations.getD []) with
                | error message => simp
                | ok trusted =>
                    by_cases hsame : sameObligations saved trusted = true
                    · simp [hsame]
                    · simp [hsame]
          · have hname' : ¬ mode = request.mode.map HarnessMode.name := fun h => hname h.symm
            simp [hname, hname']
    · have hor : request.codeExecution ≠ expectedCode work ∨
          request.deliveryMode.map DeliveryMode.name ≠ work.meta_.deliveryMode :=
        not_and_or.1 hpolicy
      simp only [hinherits, Bool.not_true, Bool.false_eq_true, if_false, hor, if_true,
        rejectWith_ne_ok, false_iff]
      rintro ⟨-, hcode, hdelivery, -⟩
      exact hpolicy ⟨hcode, hdelivery⟩
  · simp [hinherits]

/-- Attachments pass when each list is valid, the original ones are the trusted
    ones, and there are at most 20 with those of the revisions. -/
theorem checkRequestAttachments_eq_ok_iff :
    checkRequestAttachments work request = .ok () ↔
      snapshotAttachments request.attachments = .ok request.attachments ∧
      snapshotAttachments (work.meta_.attachments.getD []) = .ok request.attachments ∧
      ∃ count, revisionAttachments request.revisions = .ok count ∧
        request.attachments.length + count ≤ 20 := by
  have hchecked : checkRequestAttachments work request = .ok () ↔
      checkAttached work request = .ok () := by
    unfold checkRequestAttachments
    cases checkAttached work request <;> simp
  rw [hchecked]
  simp only [checkAttached, Except.bind_eq_ok_iff]
  constructor
  · rintro ⟨saved, hsaved, trusted, htrusted, h⟩
    obtain ⟨rfl, -⟩ := snapshotAttachments_eq_ok hsaved
    by_cases hsame : request.attachments = trusted
    · subst hsame
      rw [if_neg (not_not.2 rfl), Except.bind_eq_ok_iff] at h
      obtain ⟨count, hcount, h⟩ := h
      by_cases hlimit : 20 < request.attachments.length + count
      · rw [if_pos hlimit] at h
        cases h
      · exact ⟨hsaved, htrusted, count, hcount, Nat.le_of_not_lt hlimit⟩
    · rw [if_pos hsame] at h
      cases h
  · rintro ⟨hsaved, htrusted, count, hcount, hle⟩
    refine ⟨_, hsaved, _, htrusted, ?_⟩
    rw [if_neg (not_not.2 rfl), hcount]
    exact if_neg (Nat.not_lt.2 hle)

theorem checkEvidence_eq_ok_iff :
    checkEvidence request = .ok () ↔ request.evidence.version = 1 ∧
      ∃ snapshot, snapshotEvidence request.evidence.id request.evidence.items = .ok snapshot := by
  unfold checkEvidence
  by_cases hversion : request.evidence.version = 1
  · cases hsnapshot : snapshotEvidence request.evidence.id request.evidence.items with
    | error message => simp [hversion]
    | ok snapshot => simp [hversion]
  · simp [hversion]

/-! ## Chains of delegation -/

/-- A work nobody delegated, or one `enqueueChild` created for a parent of a
    chain from a request snapshot `saveSession` accepted. -/
inductive Lineage (env : SaveEnv) : TurnWork → Prop
  | root {work : TurnWork} (h : work.meta_.delegation = none) : Lineage env work
  | child {parent work : TurnWork} {request : RequestSnapshot} {state : DelegationState}
      {version : Nat} {input : ChildInput} (hparent : Lineage env parent)
      (haccepted : Accepted env parent request)
      (henqueue : enqueueChild env.sha256 state parent request version input = .ok work) :
      Lineage env work

theorem ofName?_name (mode : HarnessMode) : HarnessMode.ofName? mode.name = some mode := by
  cases mode <;> rfl

theorem executionMode_of_name {work : TurnWork} {mode : HarnessMode}
    (h : work.meta_.mode = some mode.name) : executionMode work = .ok mode := by
  simp [executionMode, h, ofName?_name]

/-- A child is built from its parent and the mode it inherits. -/
theorem enqueueChild_eq_ok {sha256 : String → String} {state : DelegationState}
    {parent work : TurnWork} {version : Nat} {input : ChildInput}
    (h : enqueueChild sha256 state parent request version input = .ok work) :
    ∃ mode, childMode parent = .ok mode ∧
      work = childWork sha256 parent request version input mode := by
  simp only [enqueueChild, Except.bind_eq_ok_iff] at h
  obtain ⟨_, -, mode, hmode, h⟩ := h
  by_cases hsiblings : (!state.dependenciesAreSiblings) = true
  · rw [if_pos hsiblings] at h
    cases h
  · rw [if_neg hsiblings] at h
    exact ⟨mode, hmode, (Except.ok.inj h).symm⟩

/-- An accepted request runs in the mode trusted metadata names. -/
theorem Accepted.mode (haccepted : Accepted env work request) :
    expectedMode work = .ok (request.mode.map HarnessMode.name) := by
  obtain ⟨session, steer, previous, hrequest, hsave⟩ := haccepted
  obtain ⟨-, -, hdelegation, -⟩ := (saveChecks_eq_ok_iff hrequest).1 hsave
  exact (checkDelegation_eq_ok_iff.1 hdelegation).2.2.2.1

theorem childMode_eq_ok {parent : TurnWork} {mode : Option String}
    (h : childMode parent = .ok mode) : mode = parent.meta_.mode := by
  unfold childMode at h
  cases hmode : parent.meta_.mode with
  | none =>
      rw [hmode] at h
      exact (Except.ok.inj h).symm
  | some name =>
      rw [hmode] at h
      simp only [executionMode, hmode, Option.getD_some] at h
      cases hname : HarnessMode.ofName? name with
      | none => simp [hname, Except.map] at h
      | some value =>
          simp only [hname, Except.map, Except.ok.injEq] at h
          rw [← h, HarnessMode.name_of_ofName? hname]

/-- When the parent's mode is the work's own, so is the expected mode. -/
theorem expectedMode_of_same {work : TurnWork} {parent : RequestSnapshot}
    (hparent : work.parentRequest = some parent)
    (hsame : work.meta_.mode = parent.mode.map HarnessMode.name) :
    expectedMode work = .ok work.meta_.mode := by
  unfold expectedMode
  cases hmode : parent.mode with
  | none => simp [hparent, hmode]
  | some mode =>
      have hmeta : work.meta_.mode = some mode.name := by simpa [hmode] using hsame
      cases mode with
      | chat => simp [hparent, hmode, hmeta]
      | execute => simp [hparent, hmode]
      | read =>
          have hread := executionMode_of_name hmeta
          simp only [hparent, hmode, Option.bind_some, hread]
          rfl

/-- Along any chain a work runs in the mode its metadata names: a delegation
    passes the parent's mode on. -/
theorem Lineage.mode (hlineage : Lineage env work) (haccepted : Accepted env work request) :
    request.mode.map HarnessMode.name = work.meta_.mode := by
  induction hlineage generalizing request with
  | root hroot =>
      have hmode := haccepted.mode
      simp only [expectedMode, TurnWork.parentRequest, hroot, Option.bind_none] at hmode
      exact (Except.ok.inj hmode).symm
  | @child parent work parentRequest state version input hparent hparentAccepted henqueue ih =>
      obtain ⟨mode, hmode, rfl⟩ := enqueueChild_eq_ok henqueue
      have hinherited : mode = parentRequest.mode.map HarnessMode.name := by
        rw [childMode_eq_ok hmode, ih hparentAccepted]
      have hexpected := haccepted.mode
      rw [expectedMode_of_same rfl hinherited] at hexpected
      exact (Except.ok.inj hexpected).symm

/-! ## What a turn captures -/

section Captured

variable {context : RequestContext}

/-- The parts of a capture that do not depend on a delegation. -/
structure CaptureParts (context : RequestContext) where
  message : ContextMessage
  mode : HarnessMode
  obligations : List DeliveryObligation
  code : Option CodeExecutionMode
  delivery : Option DeliveryMode
  trigger : triggerMessage context = .ok message
  modeOk : executionMode context.work = .ok mode
  obligationsOk : snapshotObligations (context.work.meta_.obligations.getD []) = .ok obligations
  codeOk : configuredCode context.work = .ok code
  deliveryOk : configuredDelivery context.work = .ok delivery

/-- A capture either follows a delegation or starts from the trigger message. -/
theorem snapshotRequest_eq_ok (h : snapshotRequest context = .ok request) :
    ∃ parts : CaptureParts context,
      (∃ delegation parent, context.work.meta_.delegation = some delegation ∧
        delegation.parentRequest = some parent ∧
        validDelegation context.work delegation parent = true ∧
        request = delegatedRequest context.work parts.message parts.mode parts.obligations
          parts.code parts.delivery delegation parent) ∨
      (context.work.parentRequest = none ∧ ∃ attachments evidence,
        snapshotAttachments (context.work.meta_.attachments.getD []) = .ok attachments ∧
        snapshotEvidence (context.work.id ++ ":evidence:1") (context.evidence.getD [])
          = .ok evidence ∧
        request = rootRequest context.work parts.message parts.mode parts.obligations parts.code
          parts.delivery attachments evidence) := by
  simp only [snapshotRequest, Except.bind_eq_ok_iff] at h
  obtain ⟨message, htrigger, mode, hmode, obligations, hobligations, code, hcode, delivery,
    hdelivery, h⟩ := h
  refine ⟨⟨message, mode, obligations, code, delivery, htrigger, hmode, hobligations, hcode,
    hdelivery⟩, ?_⟩
  cases hdelegation : context.work.meta_.delegation with
  | none =>
      right
      simp only [hdelegation, TurnWork.parentRequest, Option.bind_none, Except.bind_eq_ok_iff] at h
      obtain ⟨attachments, hattachments, evidence, hevidence, h⟩ := h
      exact ⟨by simp [TurnWork.parentRequest, hdelegation], attachments, evidence, hattachments,
        hevidence, (Except.ok.inj h).symm⟩
  | some delegation =>
      cases hparent : delegation.parentRequest with
      | none =>
          right
          simp only [hdelegation, TurnWork.parentRequest, Option.bind_some, hparent,
            Except.bind_eq_ok_iff] at h
          obtain ⟨attachments, hattachments, evidence, hevidence, h⟩ := h
          exact ⟨by simp [TurnWork.parentRequest, hdelegation, hparent], attachments, evidence,
            hattachments, hevidence, (Except.ok.inj h).symm⟩
      | some parent =>
          left
          simp only [hdelegation, TurnWork.parentRequest, Option.bind_some, hparent] at h
          by_cases hvalid : validDelegation context.work delegation parent = true
          · rw [if_neg (by simp [hvalid])] at h
            exact ⟨delegation, parent, rfl, hparent, hvalid, (Except.ok.inj h).symm⟩
          · rw [if_pos (by simp [hvalid])] at h
            cases h

/-- The evidence a capture starts from: the parent's for a delegated work, else
    what the context provider retrieved. -/
def capturedEvidence (context : RequestContext) : List EvidenceItem :=
  match context.work.parentRequest with
  | some parent => parent.evidence.items
  | none => context.evidence.getD []

/-- What a context provider promises about the trigger message: its author is
    the work's principal, and its body the text the work was enqueued with. -/
def Provided (context : RequestContext) : Prop :=
  ∀ message ∈ context.messages, message.ref = context.work.triggerRef →
    (context.work.principalId = none ∨ context.work.principalId = some message.authorId) ∧
    (context.work.meta_.delegation = none →
      ∀ text, context.work.meta_.text = some text → message.body = text)

theorem triggerMessage_eq_ok {message : ContextMessage}
    (h : triggerMessage context = .ok message) :
    message ∈ context.messages ∧ message.ref = context.work.triggerRef := by
  unfold triggerMessage at h
  split at h
  · rename_i found hfilter
    obtain rfl := Except.ok.inj h
    have hmem : found ∈ context.messages.filter
        (fun item => item.ref == context.work.triggerRef) := by simp [hfilter]
    simpa using hmem
  · cases h

/-- A request with no revisions, contract or checks of its own passes its first
    save exactly when no evidence item carries an action key. -/
theorem firstSave_iff {session : SessionRecord} {steer : Option (List SteerInput)}
    {previous : Option RequestSnapshot} (hsession : session.request = some request)
    (hidentity : validIdentity work session = true)
    (hfirst : ownPrevious work previous = none) (hvalid : validRequest work request = true)
    (hcontract : request.contract = none) (hdelegation : checkDelegation work request = .ok ())
    (hattachments : checkRequestAttachments work request = .ok ())
    (hevidence : checkEvidence request = .ok ()) (hrevisions : request.revisions = [])
    (hchecks : request.resourceChecks = none) :
    saveChecks env work session steer previous = .ok () ↔
      ∀ item ∈ request.evidence.items, item.actionKey = none := by
  have hprevious : checkPrevious env work previous (some request) = .ok () ↔
      ∀ item ∈ request.evidence.items, item.actionKey = none := by
    have hresources : checkResources env work previous (some request) = .ok () := by
      simp [checkResources, hfirst, hchecks, sameChecks]
    have hrewrite : checkRewrite work previous (some request) = .ok () := by
      simp [checkRewrite, hfirst]
    simp only [checkPrevious, hresources, hrewrite, Except.bind_eq_ok_iff, checkEvidenceGrowth,
      hfirst]
    by_cases hkeys : request.evidence.items.any (fun item => item.actionKey.isSome) = true
    · have hsome : ¬ ∀ item ∈ request.evidence.items, item.actionKey = none := by
        intro hall
        obtain ⟨item, hitem, hkey⟩ := List.any_eq_true.1 hkeys
        simp [hall item hitem] at hkey
      simp [hkeys, hsome]
    · have hall : ∀ item ∈ request.evidence.items, item.actionKey = none := by
        simpa using hkeys
      simpa [hkeys] using hall
  rw [saveChecks_eq_ok_iff hsession, hprevious]
  have hsteer : checkRevisions steer (some request) = .ok () := by
    simp [checkRevisions, hrevisions]
  simp [hidentity, hvalid, checkContract, hcontract, hdelegation, hattachments, hevidence, hsteer]

/-! ## The two kinds of capture -/

theorem deliveryName_of_configured {delivery : Option DeliveryMode}
    (h : configuredDelivery work = .ok delivery) :
    delivery.map DeliveryMode.name = work.meta_.deliveryMode := by
  unfold configuredDelivery configured at h
  cases hname : work.meta_.deliveryMode with
  | none =>
      rw [hname] at h
      obtain rfl := Except.ok.inj h
      rfl
  | some name =>
      rw [hname] at h
      cases hvalue : DeliveryMode.ofName? name with
      | none => simp [hvalue] at h
      | some value =>
          simp only [hvalue, Except.ok.injEq] at h
          subst h
          simp [DeliveryMode.name_of_ofName? hvalue]

/-- The policy a capture narrows the parent's to is the one a save expects. -/
theorem delegatedCode_eq_expectedCode {code : Option CodeExecutionMode}
    {parent : Option RequestSnapshot} (hparent : work.parentRequest = parent)
    (h : configuredCode work = .ok code) :
    delegatedCode (parent.bind RequestSnapshot.codeExecution) code = expectedCode work := by
  unfold configuredCode configured at h
  simp only [expectedCode, hparent]
  generalize parent.bind RequestSnapshot.codeExecution = inherited
  cases hname : work.meta_.codeExecution with
  | none =>
      rw [hname] at h
      obtain rfl := Except.ok.inj h
      cases inherited with
      | none => simp [delegatedCode]
      | some value => cases value <;> simp [delegatedCode]
  | some name =>
      rw [hname] at h
      cases hvalue : CodeExecutionMode.ofName? name with
      | none => simp [hvalue] at h
      | some value =>
          simp only [hvalue, Except.ok.injEq] at h
          subst h
          have hspelled : name = "enabled" ∧ value = .enabled ∨
              name = "disabled" ∧ value = .disabled := by
            unfold CodeExecutionMode.ofName? at hvalue
            split at hvalue <;> simp_all
          rcases hspelled with ⟨rfl, rfl⟩ | ⟨rfl, rfl⟩
          · rcases inherited with _ | (_ | _) <;> simp [delegatedCode]
          · simp [delegatedCode]

theorem nonEmpty_getD {α : Type} (items : List α) : (nonEmpty items).getD [] = items := by
  cases items <;> simp [nonEmpty]

/-- A request written by a capture passes the delegation check when it inherits
    what the delegation carries and runs in the work's own mode. -/
theorem checkDelegation_of_capture (parts : CaptureParts context)
    (hinherits : inheritsFromParent context.work request = true)
    (hcode : request.codeExecution = expectedCode context.work)
    (hdelivery : request.deliveryMode = parts.delivery)
    (hmode : expectedMode context.work = .ok (request.mode.map HarnessMode.name))
    (hobligations : request.obligations = nonEmpty parts.obligations) :
    checkDelegation context.work request = .ok () := by
  have hsaved := snapshotObligations_eq_ok parts.obligationsOk
  refine checkDelegation_eq_ok_iff.2 ⟨hinherits, hcode, ?_, hmode, parts.obligations,
    parts.obligations, ?_, parts.obligationsOk, ?_⟩
  · rw [hdelivery]
    exact deliveryName_of_configured parts.deliveryOk
  · rw [hobligations, nonEmpty_getD]
    exact hsaved ▸ parts.obligationsOk
  · exact Json.deepEqual_self _

theorem checkRequestAttachments_of_fresh (hrevisions : request.revisions = [])
    (hsaved : snapshotAttachments request.attachments = .ok request.attachments)
    (htrusted : work.meta_.attachments.getD [] = request.attachments) :
    checkRequestAttachments work request = .ok () := by
  refine checkRequestAttachments_eq_ok_iff.2 ⟨hsaved, htrusted ▸ hsaved, 0, ?_, ?_⟩
  · simp [hrevisions, revisionAttachments]
  · exact (snapshotAttachments_eq_ok hsaved).2

/-- The principal and the text of the trigger message, as the provider gives them. -/
theorem validRequest_root (hprovided : Provided context) (parts : CaptureParts context)
    (hroot : context.work.meta_.delegation = none) {attachments : List RequestAttachment}
    {evidence : EvidenceSnapshot} :
    validRequest context.work (rootRequest context.work parts.message parts.mode parts.obligations
      parts.code parts.delivery attachments evidence) = true := by
  obtain ⟨hmem, href⟩ := triggerMessage_eq_ok parts.trigger
  obtain ⟨hprincipal, htext⟩ := hprovided parts.message hmem href
  have htext := htext hroot
  simp only [validRequest, rootRequest, beq_self_eq_true, href, Bool.and_true, Bool.true_and,
    hroot, Option.isSome_none, Bool.false_eq_true, if_false, Bool.and_eq_true, Bool.or_eq_true,
    Option.isNone_iff_eq_none, beq_iff_eq]
  refine ⟨hprincipal, ?_⟩
  cases hmeta : context.work.meta_.text with
  | none => rfl
  | some text => simpa using htext text hmeta

/-- The mode of a captured root request is the configured one. -/
theorem rootMode_name (parts : CaptureParts context) :
    (if context.work.meta_.mode.isSome then some parts.mode else none).map HarnessMode.name
      = context.work.meta_.mode := by
  have hmode := parts.modeOk
  cases hname : context.work.meta_.mode with
  | none => simp
  | some name =>
      simp only [executionMode, hname, Option.getD_some] at hmode
      cases hvalue : HarnessMode.ofName? name with
      | none => simp [hvalue] at hmode
      | some value =>
          simp only [hvalue, Except.ok.injEq] at hmode
          subst hmode
          simp [HarnessMode.name_of_ofName? hvalue]

/-- The captured mode of a child whose parent runs in the child's own mode. -/
theorem delegatedMode_name (parts : CaptureParts context) {parent : Option HarnessMode}
    (hsame : context.work.meta_.mode = parent.map HarnessMode.name) :
    (delegatedMode context.work.meta_ parent parts.mode).map HarnessMode.name
      = context.work.meta_.mode := by
  have hmode := parts.modeOk
  cases parent with
  | none => simp [delegatedMode, hsame]
  | some mode =>
      rw [executionMode_of_name (by simpa using hsame)] at hmode
      obtain rfl := Except.ok.inj hmode
      generalize parts.mode = mode at hsame ⊢
      cases mode <;> simp [delegatedMode, hsame]

/-- The captured request of a root work passes every check but that of its
    evidence's action keys. -/
theorem firstSave_root_iff (hprovided : Provided context)
    (hroot : context.work.meta_.delegation = none) (hcapture : snapshotRequest context = .ok request)
    {session : SessionRecord} {steer : Option (List SteerInput)}
    {previous : Option RequestSnapshot} (hsession : session.request = some request)
    (hidentity : validIdentity context.work session = true)
    (hfirst : ownPrevious context.work previous = none) :
    saveChecks env context.work session steer previous = .ok () ↔
      ∀ item ∈ context.evidence.getD [], item.actionKey = none := by
  obtain ⟨parts, hcase⟩ := snapshotRequest_eq_ok hcapture
  rcases hcase with ⟨delegation, -, hdelegation, -⟩ | ⟨hparent, attachments, evidence,
    hattachments, hevidence, hrequest⟩
  · rw [hroot] at hdelegation
    cases hdelegation
  obtain ⟨rfl, -⟩ := snapshotAttachments_eq_ok hattachments
  obtain rfl := snapshotEvidence_eq_ok hevidence
  have hcode : request.codeExecution = expectedCode context.work := by
    rw [← delegatedCode_eq_expectedCode hparent parts.codeOk, hrequest]
    rcases parts.code with _ | (_ | _) <;> simp [rootRequest, delegatedCode]
  have hmode : expectedMode context.work = .ok (request.mode.map HarnessMode.name) := by
    rw [hrequest, show expectedMode context.work = .ok context.work.meta_.mode by
      simp [expectedMode, hparent]]
    exact congrArg Except.ok (rootMode_name parts).symm
  have hdelegation : checkDelegation context.work request = .ok () := by
    refine checkDelegation_of_capture parts ?_ hcode (by rw [hrequest]; rfl) hmode
      (by rw [hrequest]; rfl)
    simp [inheritsFromParent, hparent, hrequest, rootRequest]
  have hattached : checkRequestAttachments context.work request = .ok () := by
    rw [hrequest]
    exact checkRequestAttachments_of_fresh rfl hattachments rfl
  have hevidenceOk : checkEvidence request = .ok () := by
    rw [hrequest]
    exact checkEvidence_eq_ok_iff.2 ⟨rfl, _, hevidence⟩
  have hvalid : validRequest context.work request = true := by
    rw [hrequest]
    exact validRequest_root hprovided parts hroot
  have hiff : saveChecks env context.work session steer previous = .ok () ↔ _ :=
    firstSave_iff hsession hidentity hfirst hvalid (by rw [hrequest]; rfl) hdelegation hattached
      hevidenceOk (by rw [hrequest]; rfl) (by rw [hrequest]; rfl)
  rw [hiff, hrequest]
  rfl

/-- A child's request belongs to the child, because its parent's belonged to the parent. -/
theorem validRequest_child {sha256 : String → String} {parent : TurnWork}
    {parentRequest : RequestSnapshot} {version : Nat} {input : ChildInput} {mode : Option String}
    (hwork : context.work = childWork sha256 parent parentRequest version input mode)
    (hparent : validRequest parent parentRequest = true) {delegation : Delegation}
    (hdelegation : context.work.meta_.delegation = some delegation)
    (hvalid : validDelegation context.work delegation parentRequest = true)
    (parts : CaptureParts context) :
    validRequest context.work (delegatedRequest context.work parts.message parts.mode
      parts.obligations parts.code parts.delivery delegation parentRequest) = true := by
  obtain ⟨-, href⟩ := triggerMessage_eq_ok parts.trigger
  simp only [validRequest, Bool.and_eq_true, beq_iff_eq] at hparent
  obtain ⟨⟨⟨⟨⟨⟨⟨hversion, -⟩, htenant⟩, -⟩, hconversation⟩, -⟩, -⟩, -⟩ := hparent
  simp only [validDelegation, Bool.and_eq_true, beq_iff_eq] at hvalid
  have hprincipal : context.work.principalId = some parentRequest.authorId := hvalid.1.1.2
  have htext : context.work.meta_.text = some delegation.assignment := by
    rw [hwork] at hdelegation ⊢
    obtain rfl := Option.some.inj hdelegation
    rfl
  have htenantId : parentRequest.tenantId = context.work.tenantId := by
    rw [htenant, hwork]
    rfl
  have hspoken : context.work.conversation.or parentRequest.conversation
      = context.work.conversation := by
    rw [hconversation, hwork]
    cases hparent : parent.conversation <;> simp [childWork, hparent]
  simp [validRequest, delegatedRequest, hversion, htenantId, hspoken, href, hprincipal, htext,
    hdelegation]

/-- The captured request of a child passes every check but that of the action
    keys it inherits. -/
theorem firstSave_child_iff {parent : TurnWork} {parentRequest : RequestSnapshot}
    {state : DelegationState} {version : Nat} {input : ChildInput}
    (hlineage : Lineage env parent) (haccepted : Accepted env parent parentRequest)
    (henqueue : enqueueChild env.sha256 state parent parentRequest version input
      = .ok context.work)
    (hcapture : snapshotRequest context = .ok request) {session : SessionRecord}
    {steer : Option (List SteerInput)} {previous : Option RequestSnapshot}
    (hsession : session.request = some request)
    (hidentity : validIdentity context.work session = true)
    (hfirst : ownPrevious context.work previous = none) :
    saveChecks env context.work session steer previous = .ok () ↔
      ∀ item ∈ parentRequest.evidence.items, item.actionKey = none := by
  obtain ⟨childMode_, hchildMode, hwork⟩ := enqueueChild_eq_ok henqueue
  have hparent : context.work.parentRequest = some parentRequest := by rw [hwork]; rfl
  have hsame : context.work.meta_.mode = parentRequest.mode.map HarnessMode.name := by
    rw [hwork, hlineage.mode haccepted, ← childMode_eq_ok hchildMode]
    rfl
  obtain ⟨parentSession, parentSteer, parentPrevious, hparentSession, hsaved⟩ := haccepted
  obtain ⟨⟨-, hparentValid⟩, -, -, hparentAttachments, hparentEvidence, -⟩ :=
    (saveChecks_eq_ok_iff hparentSession).1 hsaved
  obtain ⟨parts, hcase⟩ := snapshotRequest_eq_ok hcapture
  rcases hcase with ⟨delegation, parent', hdelegation, hparent', hdelegated, hrequest⟩ | ⟨hnone, -⟩
  swap
  · rw [hparent] at hnone
    cases hnone
  obtain rfl : parentRequest = parent' := by
    simpa [TurnWork.parentRequest, hdelegation, hparent'] using hparent.symm
  have hcode : request.codeExecution = expectedCode context.work := by
    rw [← delegatedCode_eq_expectedCode hparent parts.codeOk, hrequest]
    rfl
  have hmode : expectedMode context.work = .ok (request.mode.map HarnessMode.name) := by
    rw [hrequest, expectedMode_of_same hparent hsame]
    exact congrArg Except.ok (delegatedMode_name parts hsame).symm
  have hdelegationOk : checkDelegation context.work request = .ok () := by
    refine checkDelegation_of_capture parts ?_ hcode (by rw [hrequest]; rfl) hmode
      (by rw [hrequest]; rfl)
    simp [inheritsFromParent, hparent, hrequest, delegatedRequest]
  have hattached : checkRequestAttachments context.work request = .ok () := by
    rw [hrequest]
    exact checkRequestAttachments_of_fresh rfl
      (checkRequestAttachments_eq_ok_iff.1 hparentAttachments).1 (by rw [hwork]; rfl)
  have hevidenceOk : checkEvidence request = .ok () := by
    rw [hrequest]
    exact checkEvidence_eq_ok_iff.2 (checkEvidence_eq_ok_iff.1 hparentEvidence)
  have hvalid : validRequest context.work request = true := by
    rw [hrequest]
    exact validRequest_child hwork hparentValid hdelegation hdelegated parts
  have hiff : saveChecks env context.work session steer previous = .ok () ↔ _ :=
    firstSave_iff hsession hidentity hfirst hvalid (by rw [hrequest]; rfl) hdelegationOk hattached
      hevidenceOk (by rw [hrequest]; rfl) (by rw [hrequest]; rfl)
  rw [hiff, hrequest]
  rfl

end Captured

/-! ## A child that inherits a recorded read

The parent read one source, its evidence was saved with the read's action key,
and it delegated afterwards. -/

private def searchWork : TurnWork where
  id := "p"
  tenantId := "t"
  agentId := "a"
  sessionId := "s"
  threadId := none
  kind := "turn"
  lane := .interactive
  triggerRef := "m1"
  principalId := some "u"
  meta_ := { text := some "Compare the vendors" }

private def searchContext (work : TurnWork) : RequestContext where
  work := work
  messages := [⟨"m1", "u", "Compare the vendors"⟩]

private def searchKey : String := actionKeyOf "p" "c1" 0

private def searchSource : SourceEvidence where
  sourceId := "crm"
  sourceVersion := "1"
  chunkId := "v1"
  title := "Vendor A"
  excerpt := "Delivers in two days"

private def searchIntent : ActionIntent where
  workId := "p"
  tenantId := "t"
  principalId := some "u"
  agentId := "a"
  sessionId := "s"
  threadId := none
  requestVersion := some 1
  action := ⟨"p", "c1", 0, "research.read", [], searchKey⟩

/-- The digest of the parent's evidence items, the only text hashed here. -/
private def searchDigest : String :=
  "dfa6c5ae7ecb053d6dd63a2e32b719960d9b53405f2e53c230058857f8647414"

/-- An environment whose ledger holds the parent's one read. -/
private def searchEnv : SaveEnv where
  sha256 := fun _ => searchDigest
  findIntent := fun key => if key = searchKey then some searchIntent else none
  find := fun key => if key = searchKey then some { ok := true, evidence := [searchSource] } else none

private def searchItem : EvidenceItem where
  marker := "S1"
  sourceId := "crm"
  sourceVersion := "1"
  chunkId := "v1"
  title := "Vendor A"
  excerpt := "Delivers in two days"
  actionKey := some searchKey

private def searchRequest (evidence : EvidenceSnapshot) : RequestSnapshot where
  version := 1
  workId := "p"
  tenantId := "t"
  sessionId := "s"
  authorId := "u"
  sourceRef := "m1"
  originalText := "Compare the vendors"
  revisions := []
  attachments := []
  evidence := evidence

/-- The evidence before the read, and after it. -/
private def searchBefore : EvidenceSnapshot := ⟨1, "p:evidence:1", []⟩

private def searchAfter : EvidenceSnapshot := ⟨1, "evidence:" ++ searchDigest, [searchItem]⟩

private def sessionOf (work : TurnWork) (request : RequestSnapshot) : SessionRecord where
  key := work.sessionKey
  tenantId := work.tenantId
  agentId := work.agentId
  sessionId := work.sessionId
  threadId := work.threadId
  request := some request

private def searchInput : ChildInput where
  id := "c"
  agentId := "b"
  text := "Check vendor A"
  sessionId := some "s2"

private def childOf (evidence : EvidenceSnapshot) : TurnWork :=
  childWork searchEnv.sha256 searchWork (searchRequest evidence) 1 searchInput none

private theorem searchLineage (evidence : EvidenceSnapshot)
    (haccepted : Accepted searchEnv searchWork (searchRequest evidence)) :
    Lineage searchEnv (childOf evidence) := by
  have henqueue : enqueueChild searchEnv.sha256 ⟨.ok (), true, 0, true⟩ searchWork
      (searchRequest evidence) 1 searchInput = .ok (childOf evidence) := rfl
  exact .child (.root rfl) haccepted henqueue

private theorem searchProvided (evidence : EvidenceSnapshot) :
    Provided (searchContext (childOf evidence)) := by
  intro message hmem _
  obtain rfl : message = ⟨"m1", "u", "Compare the vendors"⟩ := by simpa [searchContext] using hmem
  refine ⟨.inr rfl, fun hroot => ?_⟩
  cases hroot

private def capturedOf (evidence : EvidenceSnapshot) : RequestSnapshot :=
  { searchRequest evidence with
    workId := "c"
    sessionId := "s2"
    inheritedRevisions := some []
    parentWorkId := some "p"
    rootWorkId := some "p"
    parentRequestVersion := some 1
    instructionAuthor := some ⟨"a", "agent"⟩
    delegatedAssignment := some "Check vendor A" }

private theorem searchCapture (evidence : EvidenceSnapshot) :
    snapshotRequest (searchContext (childOf evidence)) = .ok (capturedOf evidence) := rfl

end LingxiOS
