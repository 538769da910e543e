-- SUMMARY: Only the newest version of a message keeps its runs.
import LingxiOS.Collaboration.Ingress
import Mathlib.Data.List.Dedup

/-! # The Newest Version

Ingestion interleaved with any other code over the stored works. The invariant says what
the slots and the recorded outcomes have to do with each other, and that a slot of a
version that was superseded has a cancelled work. -/

namespace LingxiOS

namespace Conversations

open Collaboration (require_eq_ok_iff)
open Jobs (JobRow Kept StoredRunIdentity)

/-! ## Cancelling older runs -/

theorem kept_supersede (now : Int) (works : JsMap String JobRow) (workId : String) :
    Kept works (supersede now works workId) := by
  unfold supersede
  split
  · refine (Jobs.kept_cancelRun now works _).trans (Jobs.kept_modify ?_)
    intro row _
    simp
  · exact Kept.refl works

theorem supersede_cancels (now : Int) {works : JsMap String JobRow} {workId : String} {work : JobRow}
    (h : works.get? workId = some work) : ∃ work',
      (supersede now works workId).get? workId = some work' ∧ work'.cancelRequestedAt.isSome := by
  obtain ⟨row, hrow, -⟩ := Jobs.kept_cancelRun now works work.identity workId work h
  refine ⟨_, by rw [supersede, h, JsMap.get?_modify_self, hrow, Option.map_some], ?_⟩
  simp

theorem kept_foldl_supersede (now : Int) (ids : List String) (works : JsMap String JobRow) :
    Kept works (ids.foldl (supersede now) works) := by
  induction ids generalizing works with
  | nil => exact Kept.refl works
  | cons id ids ih => exact (kept_supersede now works id).trans (ih _)

theorem foldl_supersede_cancels {now : Int} {ids : List String} {works : JsMap String JobRow}
    {workId : String} {work : JobRow} (hmem : workId ∈ ids) (h : works.get? workId = some work) :
    ∃ work', (ids.foldl (supersede now) works).get? workId = some work'
      ∧ work'.cancelRequestedAt.isSome := by
  induction ids generalizing works work with
  | nil => cases hmem
  | cons id ids ih =>
      obtain rfl | hmem := List.mem_cons.1 hmem
      · obtain ⟨work', hwork', hcancelled⟩ := supersede_cancels now h
        obtain ⟨work'', hwork'', hkept⟩ := kept_foldl_supersede now ids _ workId work' hwork'
        exact ⟨work'', hwork'', hkept hcancelled⟩
      · obtain ⟨work', hwork', -⟩ := kept_supersede now works id workId work h
        exact ih hmem hwork'

theorem cancelOlder_messages (now : Int) (tables : IngressTables) (input : IMMessageInput) :
    (cancelOlder now tables input).messages = tables.messages := by
  unfold cancelOlder
  split <;> rfl

theorem cancelOlder_slots (now : Int) (tables : IngressTables) (input : IMMessageInput) :
    (cancelOlder now tables input).slots = tables.slots := by
  unfold cancelOlder
  split <;> rfl

theorem kept_cancelOlder (now : Int) (tables : IngressTables) (input : IMMessageInput) :
    Kept tables.works (cancelOlder now tables input).works := by
  unfold cancelOlder
  split
  · exact kept_foldl_supersede now _ _
  · exact Kept.refl _

/-! ## Creating runs -/

section Create

variable {now : Int} {policyMeta : JsonObject} {policy : Policy} {audience : Audience}
  {message : IMMessageInput} {tables tables' : IngressTables}

theorem createRun_ok {run : StoredRunIdentity}
    (h : createRun now policyMeta policy audience message tables run = .ok tables') :
    tables'.messages = tables.messages ∧ Kept tables.works tables'.works
      ∧ (∃ work, tables'.works.get? run.runId = some work)
      ∧ tables.slots.get? ⟨message.key, run.agentId⟩ = none
      ∧ tables'.slots = tables.slots.set ⟨message.key, run.agentId⟩ run.runId := by
  simp only [createRun, Except.bind_eq_ok_iff, require_eq_ok_iff, Except.pure_eq_ok,
    Except.ok.injEq] at h
  obtain ⟨works, hworks, _, hfree, rfl⟩ := h
  have henqueue : Jobs.enqueueWork now tables.works (workOf policyMeta policy audience message run)
      = .ok works := by
    cases hcall : Jobs.enqueueWork now tables.works (workOf policyMeta policy audience message run) with
    | error e =>
        rw [hcall] at hworks
        cases hworks
    | ok found =>
        rw [hcall] at hworks
        cases hworks
        rfl
  obtain ⟨⟨work, hwork, -⟩, -, -⟩ := Jobs.enqueueWork_ok henqueue
  simp only [Bool.and_eq_true, Bool.not_eq_true', JsMap.has, Option.isSome_eq_false_iff,
    Option.isNone_iff_eq_none] at hfree
  exact ⟨rfl, Jobs.kept_enqueueWork henqueue, ⟨work, hwork⟩, hfree.1, rfl⟩

/-- What creating the runs of a message leaves of the tables, and adds to them. -/
structure Created (message : IMMessageInput) (runs : List StoredRunIdentity)
    (tables tables' : IngressTables) : Prop where
  messages : tables'.messages = tables.messages
  works : Kept tables.works tables'.works
  kept : ∀ {slot workId}, tables.slots.get? slot = some workId → tables'.slots.get? slot = some workId
  slots : ∀ {slot workId}, tables'.slots.get? slot = some workId →
    tables.slots.get? slot = some workId
      ∨ ∃ run ∈ runs, slot = ⟨message.key, run.agentId⟩ ∧ workId = run.runId
  runs : ∀ run ∈ runs, tables'.slots.get? ⟨message.key, run.agentId⟩ = some run.runId
    ∧ ∃ work, tables'.works.get? run.runId = some work

theorem created_of_foldlM {runs : List StoredRunIdentity}
    (h : runs.foldlM (createRun now policyMeta policy audience message) tables = .ok tables') :
    Created message runs tables tables' := by
  induction runs generalizing tables with
  | nil =>
      cases h
      exact ⟨rfl, Kept.refl _, fun h => h, fun h => .inl h, fun run hrun => by cases hrun⟩
  | cons run runs ih =>
      obtain ⟨next, hnext, hrest⟩ := Except.foldlM_cons_eq_ok_iff.1 h
      obtain ⟨hmessages, hkept, ⟨work, hwork⟩, hfree, hslots⟩ := createRun_ok hnext
      have hcreated := ih hrest
      have hset : next.slots.get? ⟨message.key, run.agentId⟩ = some run.runId := by
        rw [hslots, JsMap.get?_set_self]
      constructor
      · exact hcreated.messages.trans hmessages
      · exact hkept.trans hcreated.works
      · intro slot workId hslot
        apply hcreated.kept
        have hne : slot ≠ ⟨message.key, run.agentId⟩ := by
          rintro rfl
          rw [hfree] at hslot
          cases hslot
        rwa [hslots, JsMap.get?_set_of_ne _ hne]
      · intro slot workId hslot
        obtain hold | ⟨other, hother, hof⟩ := hcreated.slots hslot
        · rw [hslots, JsMap.get?_set] at hold
          split at hold
          · rename_i hself
            exact .inr ⟨run, List.mem_cons_self, hself, (Option.some.inj hold).symm⟩
          · exact .inl hold
        · exact .inr ⟨other, List.mem_cons_of_mem _ hother, hof⟩
      · intro other hother
        obtain rfl | hother := List.mem_cons.1 hother
        · obtain ⟨work', hwork', -⟩ := hcreated.works _ work hwork
          exact ⟨hcreated.kept hset, work', hwork'⟩
        · exact hcreated.runs other hother

end Create

/-! ## One call -/

/-- The conversation is there, and the author may read it. -/
def MayRead (tables : IngressTables) (input : IMMessageInput) : Prop :=
  ∃ policy, conversationPolicy tables input = .ok policy ∧ checkReader policy input.author = .ok ()

theorem messageOf_key {input message : IMMessageInput} (h : messageOf input = .ok message) :
    message.key = input.key := by
  obtain ⟨attachments, -, h⟩ := Except.bind_ok h
  cases h
  rfl

theorem messageOf_mentions {input message : IMMessageInput} (h : messageOf input = .ok message) :
    (message.mentions.getD []).Nodup := by
  obtain ⟨attachments, -, h⟩ := Except.bind_ok h
  cases h
  exact (List.perm_insertionSort _ _).nodup_iff.2 (List.nodup_dedup _)

theorem targets_nodup (policy : Policy) (audience : Audience) {message : IMMessageInput}
    (h : (message.mentions.getD []).Nodup) : (targets policy audience message).Nodup := by
  unfold targets
  split
  · exact List.nodup_nil
  · apply List.Nodup.filter
    split
    · cases policy.defaultAgentId.filter (· ≠ "") <;> simp
    · exact h

theorem runOf_agentId (sha256 : String → String) (policy : Policy) (audience : Audience)
    (message : IMMessageInput) (ids : List String) :
    (ids.map (runOf sha256 policy audience message)).map StoredRunIdentity.agentId = ids := by
  simp [Function.comp_def, runOf]

/-- Messages that differ in their version only. -/
def SameMessage (a b : MessageKey) : Prop :=
  a.tenantId = b.tenantId ∧ a.conversationId = b.conversationId ∧ a.messageId = b.messageId

theorem mem_versionsOf {tables : IngressTables} {input : IMMessageInput} {key : MessageKey}
    {row : MessageRow} (h : tables.messages.get? key = some row) (hsame : SameMessage key input.key) :
    (key, row) ∈ versionsOf tables input :=
  List.mem_filter.2 ⟨JsMap.get?_eq_some_iff.1 h, decide_eq_true hsame⟩

/-- A later version of a message is later than every stored one. -/
theorem admitMessage_newest {tables : IngressTables} {policy : Policy} {input : IMMessageInput}
    {audience : Audience} (h : admitMessage tables policy input = .ok audience) {key : MessageKey}
    {row : MessageRow} (hrow : tables.messages.get? key = some row)
    (hsame : SameMessage key input.key) :
    key.version < input.version ∧ (previousVersion tables input).isSome = true := by
  simp only [admitMessage, Except.bind_eq_ok_iff, require_eq_ok_iff, checkEdit] at h
  obtain ⟨-, -, found, -, -, -, -, hedit, -⟩ := h
  have hmem := mem_versionsOf hrow hsame
  have hsome : (previousVersion tables input).isSome = true := List.isSome_maxOn?_of_mem hmem
  have hle : key.version ≤ ((previousVersion tables input).get hsome).1.version :=
    List.le_apply_get_maxOn?_of_mem (f := fun row : MessageKey × MessageRow => row.1.version) hmem
  obtain ⟨previous, hprevious⟩ := Option.isSome_iff_exists.1 hsome
  simp only [hprevious, Option.get_some] at hle
  rw [hprevious] at hedit
  simp only [Option.all_some, decide_eq_true_eq] at hedit
  exact ⟨by omega, hsome⟩

/-- A call that found its version stored. -/
structure Repeated (sha256 : String → String) (tables : IngressTables) (input : IMMessageInput)
    (outcome : IMIngressResult) (tables' : IngressTables) : Prop where
  prior : ∃ prior message, tables.messages.get? input.key = some prior
    ∧ messageOf input = .ok message ∧ prior.fingerprint = digest sha256 message.toJson
    ∧ outcome = { prior.outcome with deduplicated := true }
  tables_eq : tables' = tables

/-- A call that stored a version, with what it created for it. -/
structure Stored (sha256 : String → String) (tables : IngressTables) (input : IMMessageInput)
    (outcome : IMIngressResult) (tables' : IngressTables) : Prop where
  absent : tables.messages.get? input.key = none
  later : ∀ {key row}, tables.messages.get? key = some row → SameMessage key input.key →
    key.version < input.version ∧ (previousVersion tables input).isSome = true
  recorded : outcome.deduplicated = false ∧ (outcome.runs.map (·.agentId)).Nodup
  created : ∃ message now created, messageOf input = .ok message
    ∧ Created message outcome.runs (cancelOlder now tables message) created
    ∧ tables'.works = created.works ∧ tables'.slots = created.slots
    ∧ ∃ row, tables'.messages = tables.messages.set input.key row ∧ row.outcome = outcome
      ∧ row.fingerprint = digest sha256 message.toJson

theorem ingestMessage_ok {sha256 : String → String} {now : Int} {policyMeta : JsonObject}
    {tables tables' : IngressTables} {input : IMMessageInput} {outcome : IMIngressResult}
    (h : ingestMessage sha256 now policyMeta tables input = .ok (outcome, tables')) :
    checkInput input = .ok () ∧ MayRead tables input
      ∧ (Repeated sha256 tables input outcome tables' ∨ Stored sha256 tables input outcome tables') := by
  simp only [ingestMessage, Except.bind_eq_ok_iff] at h
  obtain ⟨⟨⟩, hinput, message, hmessage, policy, hpolicy, ⟨⟩, hreader, h⟩ := h
  refine ⟨hinput, ⟨policy, hpolicy, hreader⟩, ?_⟩
  have hkey := messageOf_key hmessage
  cases hprior : tables.messages.get? input.key with
  | some prior =>
      simp only [hprior, Except.bind_eq_ok_iff, require_eq_ok_iff, decide_eq_true_eq,
        Except.pure_eq_ok, Except.ok.injEq, Prod.mk.injEq] at h
      obtain ⟨_, hfingerprint, rfl, rfl⟩ := h
      exact .inl ⟨⟨prior, message, hprior, hmessage, hfingerprint, rfl⟩, rfl⟩
  | none =>
      simp only [hprior, ingestNew, Except.bind_eq_ok_iff, Except.pure_eq_ok, Except.ok.injEq,
        Prod.mk.injEq] at h
      obtain ⟨audience, hadm, ⟨⟩, -, created, hcreated, rfl, rfl⟩ := h
      refine .inr ⟨hprior, admitMessage_newest hadm, ⟨rfl, ?_⟩, message, now, created, hmessage,
        created_of_foldlM hcreated, rfl, rfl, ?_⟩
      · simp only [outcomeOf, runOf_agentId]
        exact targets_nodup policy audience (messageOf_mentions hmessage)
      · refine ⟨⟨message.threadId, digest sha256 message.toJson, message, audience, _⟩, ?_, rfl, rfl⟩
        rw [storeMessage, (created_of_foldlM hcreated).messages, cancelOlder_messages, hkey]
        rfl

/-! ## The invariant -/

/-- The slots are those of the recorded outcomes, their works are stored, and a version that
    was superseded has no work that is not cancelled. -/
structure Answered (tables : IngressTables) : Prop where
  recorded : ∀ {slot workId}, tables.slots.get? slot = some workId →
    ∃ row, tables.messages.get? slot.message = some row
      ∧ ∃ run ∈ row.outcome.runs, run.agentId = slot.agentId ∧ run.runId = workId
  runs : ∀ {key row}, tables.messages.get? key = some row → row.outcome.deduplicated = false
    ∧ (row.outcome.runs.map (·.agentId)).Nodup
    ∧ ∀ run ∈ row.outcome.runs, tables.slots.get? ⟨key, run.agentId⟩ = some run.runId
  stored : ∀ {slot workId}, tables.slots.get? slot = some workId →
    ∃ work, tables.works.get? workId = some work
  stale : ∀ {slot workId key row}, tables.slots.get? slot = some workId →
    tables.messages.get? key = some row → SameMessage key slot.message →
    slot.message.version < key.version →
    ∃ work, tables.works.get? workId = some work ∧ work.cancelRequestedAt.isSome

/-- The works of older versions are cancelled before the new ones are created. -/
theorem cancelOlder_cancels (now : Int) {tables : IngressTables} {message : IMMessageInput}
    {slot : SlotKey} {workId : String} {work : JobRow}
    (hprevious : (previousVersion tables message).isSome = true)
    (hslot : tables.slots.get? slot = some workId) (hsame : SameMessage slot.message message.key)
    (holder : slot.message.version < message.version) (hwork : tables.works.get? workId = some work) :
    ∃ work', (cancelOlder now tables message).works.get? workId = some work'
      ∧ work'.cancelRequestedAt.isSome := by
  have hmem : workId ∈ olderSlots tables message := by
    apply List.mem_map.2
    refine ⟨(slot, workId), List.mem_filter.2 ⟨JsMap.get?_eq_some_iff.1 hslot, ?_⟩, rfl⟩
    exact decide_eq_true ⟨hsame.1, hsame.2.1, hsame.2.2, holder⟩
  rw [cancelOlder, if_pos hprevious]
  exact foldl_supersede_cancels hmem hwork

theorem stored_answered {sha256 : String → String} {tables tables' : IngressTables}
    {input : IMMessageInput} {outcome : IMIngressResult} (hinv : Answered tables)
    (h : Stored sha256 tables input outcome tables') : Answered tables' := by
  obtain ⟨message, now, created, hmessage, hcreated, hworks, hslots, stored, hmessages, hstored, -⟩ :=
    h.created
  have hkey := messageOf_key hmessage
  have hversions : previousVersion tables message = previousVersion tables input := by
    have hids : message.tenantId = input.tenantId ∧ message.conversationId = input.conversationId
        ∧ message.messageId = input.messageId := by
      simp only [IMMessageInput.key, MessageKey.mk.injEq] at hkey
      exact ⟨hkey.1, hkey.2.1, hkey.2.2.1⟩
    simp only [previousVersion, versionsOf, hids.1, hids.2.1, hids.2.2]
  have hslot_cases {slot : SlotKey} {workId : String}
      (hslot : tables'.slots.get? slot = some workId) :
      tables.slots.get? slot = some workId ∧ slot.message ≠ input.key
        ∨ ∃ run ∈ outcome.runs, slot = ⟨input.key, run.agentId⟩ ∧ workId = run.runId := by
    rw [hslots] at hslot
    obtain hold | ⟨run, hrun, hof, hid⟩ := hcreated.slots hslot
    · rw [cancelOlder_slots] at hold
      refine .inl ⟨hold, ?_⟩
      intro heq
      obtain ⟨row, hrow, -⟩ := hinv.recorded hold
      rw [heq, h.absent] at hrow
      cases hrow
    · exact .inr ⟨run, hrun, hkey ▸ hof, hid⟩
  have hkept : Kept tables.works tables'.works := by
    rw [hworks]
    exact (kept_cancelOlder now tables message).trans hcreated.works
  constructor
  · intro slot workId hslot
    rw [hmessages]
    obtain ⟨hold, hne⟩ | ⟨run, hrun, rfl, rfl⟩ := hslot_cases hslot
    · rw [JsMap.get?_set_of_ne _ hne]
      exact hinv.recorded hold
    · exact ⟨stored, JsMap.get?_set_self .., run, by rwa [hstored], rfl, rfl⟩
  · intro key row hrow
    rw [hmessages, JsMap.get?_set] at hrow
    split at hrow
    · rename_i hself
      subst hself
      obtain rfl := Option.some.inj hrow
      rw [hstored]
      refine ⟨h.recorded.1, h.recorded.2, fun run hrun => ?_⟩
      rw [hslots, ← hkey]
      exact (hcreated.runs run hrun).1
    · obtain ⟨hfirst, hnodup, hruns⟩ := hinv.runs hrow
      refine ⟨hfirst, hnodup, fun run hrun => ?_⟩
      rw [hslots]
      apply hcreated.kept
      rw [cancelOlder_slots]
      exact hruns run hrun
  · intro slot workId hslot
    obtain ⟨hold, -⟩ | ⟨run, hrun, -, rfl⟩ := hslot_cases hslot
    · obtain ⟨work, hwork⟩ := hinv.stored hold
      obtain ⟨work', hwork', -⟩ := hkept workId work hwork
      exact ⟨work', hwork'⟩
    · rw [hworks]
      exact (hcreated.runs run hrun).2
  · intro slot workId key row hslot hrow hsame holder
    rw [hmessages, JsMap.get?_set] at hrow
    obtain ⟨hold, hne⟩ | ⟨run, hrun, rfl, rfl⟩ := hslot_cases hslot
    · obtain ⟨work, hwork⟩ := hinv.stored hold
      split at hrow
      · -- superseded by this very message
        rename_i hself
        subst hself
        obtain ⟨old, holdRow, -⟩ := hinv.recorded hold
        have hold_same : SameMessage slot.message input.key :=
          ⟨hsame.1.symm, hsame.2.1.symm, hsame.2.2.symm⟩
        have hprevious := (h.later holdRow hold_same).2
        have hbefore : slot.message.version < message.version := by
          rw [← hkey] at holder
          exact holder
        obtain ⟨work', hwork', hcancelled⟩ := cancelOlder_cancels now
          (hversions ▸ hprevious) hold (hkey ▸ hold_same) hbefore hwork
        obtain ⟨work'', hwork'', hstays⟩ := hcreated.works _ _ hwork'
        exact ⟨work'', hworks ▸ hwork'', hstays hcancelled⟩
      · obtain ⟨work', hwork', hcancelled⟩ := hinv.stale hold hrow hsame holder
        obtain ⟨work'', hwork'', hstays⟩ := hkept _ _ hwork'
        exact ⟨work'', hwork'', hstays hcancelled⟩
    · -- no stored version is later than this one
      split at hrow
      · rename_i hself
        subst hself
        exact absurd holder (lt_irrefl _)
      · exact absurd holder (not_lt.2 (h.later hrow hsame).1.le)

/-! ## Runs -/

/-- A call with what it answered, or a step of any other code: it may change policies and
    threads, add works and results, and claim, complete or cancel works. -/
inductive Event where
  | ingest (now : Int) (policyMeta : JsonObject) (input : IMMessageInput)
      (answer : Except Collaboration.Failure IMIngressResult)
  | others

/-- Ingestion beside all other code. A call that throws leaves the tables as they were. -/
def system (sha256 : String → String) : TransitionSystem IngressTables Event where
  start tables := tables.messages = JsMap.empty ∧ tables.slots = JsMap.empty
  step tables event tables' := match event with
    | .ingest now policyMeta input answer =>
        match ingestMessage sha256 now policyMeta tables input with
        | .ok (outcome, next) => answer = .ok outcome ∧ tables' = next
        | .error e => answer = .error e ∧ tables' = tables
    | .others => tables'.messages = tables.messages ∧ tables'.slots = tables.slots
        ∧ Kept tables.works tables'.works

theorem step_ingest {sha256 : String → String} {tables tables' : IngressTables} {now : Int}
    {policyMeta : JsonObject} {input : IMMessageInput} {answer : Except Collaboration.Failure IMIngressResult}
    (h : (system sha256).step tables (.ingest now policyMeta input answer) tables') :
    (∃ outcome, ingestMessage sha256 now policyMeta tables input = .ok (outcome, tables'))
      ∨ tables' = tables := by
  cases hcall : ingestMessage sha256 now policyMeta tables input with
  | ok result =>
      simp only [system, hcall] at h
      exact .inl ⟨result.1, by rw [h.2]⟩
  | error e =>
      simp only [system, hcall] at h
      exact .inr h.2

theorem step_answered {sha256 : String → String} {tables tables' : IngressTables} {event : Event}
    (h : Answered tables) (hstep : (system sha256).step tables event tables') : Answered tables' := by
  cases event with
  | ingest now policyMeta input answer =>
      obtain ⟨outcome, hcall⟩ | rfl := step_ingest hstep
      · obtain ⟨-, -, hrepeated | hstored⟩ := ingestMessage_ok hcall
        · rw [hrepeated.tables_eq]
          exact h
        · exact stored_answered h hstored
      · exact h
  | others =>
      obtain ⟨hmessages, hslots, hkept⟩ := hstep
      constructor
      · intro slot workId hslot
        rw [hslots] at hslot
        rw [hmessages]
        exact h.recorded hslot
      · intro key row hrow
        rw [hmessages] at hrow
        rw [hslots]
        exact h.runs hrow
      · intro slot workId hslot
        rw [hslots] at hslot
        obtain ⟨work, hwork⟩ := h.stored hslot
        obtain ⟨work', hwork', -⟩ := hkept workId work hwork
        exact ⟨work', hwork'⟩
      · intro slot workId key row hslot hrow hsame holder
        rw [hslots] at hslot
        rw [hmessages] at hrow
        obtain ⟨work, hwork, hcancelled⟩ := h.stale hslot hrow hsame holder
        obtain ⟨work', hwork', hstays⟩ := hkept workId work hwork
        exact ⟨work', hwork', hstays hcancelled⟩

theorem reachable_answered {sha256 : String → String} {tables : IngressTables}
    (h : (system sha256).Reachable tables) : Answered tables := by
  apply h.invariant ?_ step_answered
  rintro tables ⟨hmessages, hslots⟩
  constructor <;> simp [hmessages, hslots]

/-- A stored version is never written again. -/
theorem run_messages {sha256 : String → String} {tables tables' : IngressTables}
    {events : List Event} (hrun : (system sha256).Run tables events tables') {key : MessageKey}
    {row : MessageRow} (hrow : tables.messages.get? key = some row) :
    tables'.messages.get? key = some row := by
  refine hrun.preserves (I := fun tables => tables.messages.get? key = some row) ?_ hrow
  intro tables event tables' hrow hstep
  cases event with
  | ingest now policyMeta input answer =>
      obtain ⟨outcome, hcall⟩ | rfl := step_ingest hstep
      · obtain ⟨-, -, hrepeated | hstored⟩ := ingestMessage_ok hcall
        · rw [hrepeated.tables_eq]
          exact hrow
        · obtain ⟨message, now, created, -, -, -, -, stored, hmessages, -⟩ := hstored.created
          have hne : key ≠ input.key := by
            rintro rfl
            rw [hstored.absent] at hrow
            cases hrow
          rw [hmessages, JsMap.get?_set_of_ne _ hne]
          exact hrow
      · exact hrow
  | others =>
      rw [hstep.1]
      exact hrow

/-! ## Eligibility -/

/-- A row of `agent_results`, as the outbox joins it. -/
structure ResultRow where
  id : String
  requestVersion : Int
  fence : Nat

/-- When the outbox may claim the delivery of a work's result; `prior` says whether another
    delivery of the work is under way. -/
def whereDeliverable (work : JobRow) (result : ResultRow) (prior : Bool) : Sql.Truth :=
  Sql.and (Sql.eq work.resultId (some result.id)) <|
    Sql.and (Sql.isNull work.cancelRequestedAt) <|
      Sql.and (Sql.eq (some result.requestVersion) (some (work.steerInputs.length + 1))) <|
        Sql.and (Sql.eq (some result.fence) (some work.fence)) <|
          Sql.and (Sql.eqAny (some work.status) [.succeeded, .partial_, .blocked, .waiting])
            (Sql.not (some prior))

theorem cancelled_not_claimable {work : JobRow} (h : work.cancelRequestedAt.isSome = true)
    (tables : PgWorkTables) (request : WorkStore.ClaimRequest) (now : Int) :
    Sql.holds (PgWorkStore.conditions tables request now work.toPgWorkRow) = false := by
  obtain ⟨at_, hat⟩ := Option.isSome_iff_exists.1 h
  simp [PgWorkStore.conditions, hat, Sql.isNull]

theorem cancelled_not_deliverable {work : JobRow} (h : work.cancelRequestedAt.isSome = true)
    (result : ResultRow) (prior : Bool) : Sql.holds (whereDeliverable work result prior) = false := by
  obtain ⟨at_, hat⟩ := Option.isSome_iff_exists.1 h
  simp [whereDeliverable, hat, Sql.isNull]

/-! ## Only the newest version is answered -/

theorem ingest_again {sha256 : String → String} {tables tables' later : IngressTables}
    {input : IMMessageInput} {outcome : IMIngressResult} {events : List Event} {now : Int}
    {policyMeta : JsonObject}
    (h : ingestMessage sha256 now policyMeta tables input = .ok (outcome, tables'))
    (hrun : (system sha256).Run tables' events later) (now' : Int) (policyMeta' : JsonObject) :
    (MayRead later input → ingestMessage sha256 now' policyMeta' later input
        = .ok ({ outcome with deduplicated := true }, later))
      ∧ (¬ MayRead later input →
        ∃ failure, ingestMessage sha256 now' policyMeta' later input = .error failure) := by
  obtain ⟨hinput, -, hcase⟩ := ingestMessage_ok h
  have hstored : ∃ row message, tables'.messages.get? input.key = some row
      ∧ messageOf input = .ok message ∧ row.fingerprint = digest sha256 message.toJson
      ∧ { row.outcome with deduplicated := true } = { outcome with deduplicated := true } := by
    obtain hrepeated | hstored := hcase
    · obtain ⟨prior, message, hprior, hmessage, hfingerprint, rfl⟩ := hrepeated.prior
      exact ⟨prior, message, hrepeated.tables_eq ▸ hprior, hmessage, hfingerprint, rfl⟩
    · obtain ⟨message, _, _, hmessage, -, -, -, row, hmessages, rfl, hfingerprint⟩ := hstored.created
      exact ⟨row, message, by rw [hmessages, JsMap.get?_set_self], hmessage, hfingerprint, rfl⟩
  obtain ⟨row, message, hrow, hmessage, hfingerprint, houtcome⟩ := hstored
  have hlater := run_messages hrun hrow
  constructor
  · rintro ⟨policy, hpolicy, hreader⟩
    simp only [ingestMessage, hinput, hmessage, hpolicy, hreader, hlater, hfingerprint,
      Except.ok_bind, decide_true, Collaboration.require, if_true, Except.pure_eq_ok, houtcome]
  · intro hrefused
    cases hagain : ingestMessage sha256 now' policyMeta' later input with
    | error failure => exact ⟨failure, rfl⟩
    | ok result => exact absurd (ingestMessage_ok hagain).2.1 hrefused

/-- What holds of the stored messages, their slots and works, and the next calls. -/
structure NewestOnly (sha256 : String → String) (tables : IngressTables) : Prop where
  one_run : ∀ {key row}, tables.messages.get? key = some row →
    (row.outcome.runs.map (·.agentId)).Nodup
      ∧ ∀ agentId workId, tables.slots.get? ⟨key, agentId⟩ = some workId
        ↔ ∃ run ∈ row.outcome.runs, run.agentId = agentId ∧ run.runId = workId
  slots : ∀ {slot workId}, tables.slots.get? slot = some workId →
    (tables.messages.get? slot.message).isSome
  increasing : ∀ {now policyMeta input outcome tables'},
    ingestMessage sha256 now policyMeta tables input = .ok (outcome, tables') →
    tables.messages.get? input.key = none → ∀ {key row}, tables.messages.get? key = some row →
      SameMessage key input.key → key.version < input.version
  repeated : ∀ {now policyMeta input outcome tables' events later},
    ingestMessage sha256 now policyMeta tables input = .ok (outcome, tables') →
    (system sha256).Run tables' events later → ∀ now' policyMeta',
      (MayRead later input → ingestMessage sha256 now' policyMeta' later input
          = .ok ({ outcome with deduplicated := true }, later))
        ∧ (¬ MayRead later input →
          ∃ failure, ingestMessage sha256 now' policyMeta' later input = .error failure)
  superseded : ∀ {slot workId key row}, tables.slots.get? slot = some workId →
    tables.messages.get? key = some row → SameMessage key slot.message →
    slot.message.version < key.version →
    ∃ work, tables.works.get? workId = some work ∧ work.cancelRequestedAt.isSome
      ∧ (∀ stored request now,
        Sql.holds (PgWorkStore.conditions stored request now work.toPgWorkRow) = false)
      ∧ ∀ result prior, Sql.holds (whereDeliverable work result prior) = false

theorem newest_answered {sha256 : String → String} {tables : IngressTables}
    (h : (system sha256).Reachable tables) : NewestOnly sha256 tables := by
  have hinv := reachable_answered h
  constructor
  · intro key row hrow
    obtain ⟨-, hnodup, hruns⟩ := hinv.runs hrow
    refine ⟨hnodup, fun agentId workId => ⟨fun hslot => ?_, ?_⟩⟩
    · obtain ⟨found, hfound, run, hrun, hagent, hid⟩ := hinv.recorded hslot
      obtain rfl := Option.some.inj (hfound.symm.trans hrow)
      exact ⟨run, hrun, hagent, hid⟩
    · rintro ⟨run, hrun, rfl, rfl⟩
      exact hruns run hrun
  · intro slot workId hslot
    obtain ⟨row, hrow, -⟩ := hinv.recorded hslot
    exact Option.isSome_iff_exists.2 ⟨row, hrow⟩
  · intro now policyMeta input outcome tables' hcall habsent key row hrow hsame
    obtain ⟨-, -, hrepeated | hstored⟩ := ingestMessage_ok hcall
    · obtain ⟨prior, -, hprior, -⟩ := hrepeated.prior
      rw [habsent] at hprior
      cases hprior
    · exact (hstored.later hrow hsame).1
  · intro now policyMeta input outcome tables' events later hcall hrun now' policyMeta'
    exact ingest_again hcall hrun now' policyMeta'
  · intro slot workId key row hslot hrow hsame holder
    obtain ⟨work, hwork, hcancelled⟩ := hinv.stale hslot hrow hsame holder
    exact ⟨work, hwork, hcancelled, cancelled_not_claimable hcancelled,
      cancelled_not_deliverable hcancelled⟩

private def alice : Member := ⟨"alice", .human, [.read, .execute]⟩

private def helper : Member := ⟨"helper", .agent, [.read, .execute, .speak]⟩

private def chat (participants : List Member) : IngressTables where
  conversations := JsMap.empty.set ("t1", "c1") ⟨1, participants, some "helper"⟩
  threads := []
  messages := JsMap.empty
  slots := JsMap.empty
  works := JsMap.empty
  results := JsMap.empty

private def question (version : Int) : IMMessageInput where
  tenantId := "t1"
  conversationId := "c1"
  messageId := "m1"
  version := version
  policyVersion := 1
  author := ⟨"alice", .human⟩
  text := "What is new?"

private def ingested (tables : IngressTables) (input : IMMessageInput) : IngressTables :=
  match ingestMessage id 0 [] tables input with
  | .ok (_, next) => next
  | .error _ => tables

private theorem step_ingested (tables : IngressTables) (input : IMMessageInput) :
    ∃ event, (system id).step tables event (ingested tables input) := by
  refine ⟨.ingest 0 [] input ((ingestMessage id 0 [] tables input).map Prod.fst), ?_⟩
  unfold ingested
  cases hcall : ingestMessage id 0 [] tables input <;> simp [system, hcall, Except.map]

private theorem chat_reachable (participants : List Member) :
    (system id).Reachable (chat participants) :=
  TransitionSystem.Reachable.of_start ⟨rfl, rfl⟩

/-- A question and its edit: the first run is cancelled, the second one is not. -/
theorem edit_answered : ∃ tables, (system id).Reachable tables ∧ NewestOnly id tables
    ∧ (tables.works.values.map fun work => work.cancelRequestedAt.isSome) = [true, false] := by
  obtain ⟨_, hfirst⟩ := step_ingested (chat [alice, helper]) (question 1)
  obtain ⟨_, hsecond⟩ := step_ingested (ingested (chat [alice, helper]) (question 1)) (question 2)
  have hreach := ((chat_reachable [alice, helper]).next hfirst).next hsecond
  exact ⟨_, hreach, newest_answered hreach, by decide +kernel⟩

private theorem repeated_question :
    (ingestMessage id 0 [] (chat [alice, helper]) (question 1)).toBool = true
      ∧ (ingestMessage id 0 []
        { ingested (chat [alice, helper]) (question 1) with
          conversations := (chat [helper]).conversations } (question 1)).toBool = false := by
  decide +kernel

/-- Once the author was removed from the conversation, a repeated call is refused. -/
theorem repeat_refused : ∃ tables tables' later : IngressTables, ∃ outcome failure,
    (system id).Reachable tables
      ∧ ingestMessage id 0 [] tables (question 1) = .ok (outcome, tables')
      ∧ (system id).step tables' .others later
      ∧ ingestMessage id 0 [] later (question 1) = .error failure := by
  obtain ⟨hfirst, hagain⟩ := repeated_question
  cases hcall : ingestMessage id 0 [] (chat [alice, helper]) (question 1) with
  | error failure =>
      rw [hcall] at hfirst
      cases hfirst
  | ok result =>
      obtain ⟨outcome, tables'⟩ := result
      have hnext : ingested (chat [alice, helper]) (question 1) = tables' := by
        rw [ingested, hcall]
      rw [hnext] at hagain
      cases hrepeat : ingestMessage id 0 []
          { tables' with conversations := (chat [helper]).conversations } (question 1) with
      | ok again =>
          rw [hrepeat] at hagain
          cases hagain
      | error failure =>
          exact ⟨chat [alice, helper], tables',
            { tables' with conversations := (chat [helper]).conversations }, outcome, failure,
            chat_reachable _, hcall, ⟨rfl, rfl, Kept.refl _⟩, hrepeat⟩

end Conversations

end LingxiOS
