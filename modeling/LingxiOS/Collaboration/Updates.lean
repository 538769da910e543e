-- SUMMARY: Runs of shared-state updates: versions and repeated operations.
import LingxiOS.Collaboration.State

/-! # Runs of Updates

The calls on one state come one after the other, each with the tables as they
stand by then. The batches accepted so far determine every field, and an operation
in the log answers for its id from then on. -/

namespace LingxiOS.Collaboration

open JsonText Stringify

/-! ## One call -/

section

variable {tables : Tables} {scope : SharedStateIdentity} {row : Option SharedStateSnapshot}
  {actor : StateActor} {update : SharedStateUpdate} {checked : CheckedUpdate}
  {state : SharedStateSnapshot}

theorem admitUpdate_eq_ok_iff : admitUpdate tables scope row actor update = .ok (checked, state) ↔
    validateStateUpdate update = .ok checked ∧ authorize tables scope actor true none = .ok ()
      ∧ (actor.source.all fun source =>
          tables.hasMessage scope.toConversationIdentity source actor.principalId.val) = true
      ∧ row = some state ∧ authorize tables scope actor true (some state.audience) = .ok () := by
  simp only [admitUpdate, Except.bind_eq_ok_iff, require_eq_ok_iff]
  constructor
  · rintro ⟨u, hvalid, ⟨⟩, hauth, ⟨⟩, hsource, hrow⟩
    cases row with
    | none => cases hrow
    | some s =>
        obtain ⟨⟨⟩, haudience, hpure⟩ := Except.bind_ok hrow
        cases hpure
        exact ⟨hvalid, hauth, hsource, rfl, haudience⟩
  · rintro ⟨hvalid, hauth, hsource, rfl, haudience⟩
    exact ⟨checked, hvalid, (), hauth, (), hsource, Except.bind_eq_ok_iff.2 ⟨(), haudience, rfl⟩⟩

end

section

variable {fields fields' : JsMap Units SharedStateField} {changes : List SharedStateChange}

/-- The change a batch makes to a field. -/
def changeOf (changes : List SharedStateChange) (field : Units) : Option SharedStateChange :=
  changes.find? fun change => change.field == field

/-- Setting the fields of a batch gives each what its change says. -/
theorem setFields_get? (hnodup : (changes.map SharedStateChange.field).Nodup)
    (h : setFields fields changes = .ok fields') (field : Units) :
    fields'.get? field = ((changeOf changes field).map fun change =>
      ⟨change.expectedVersion + 1, change.edit⟩).or (fields.get? field) := by
  induction changes generalizing fields with
  | nil =>
      cases h
      simp [changeOf]
  | cons change rest ih =>
      obtain ⟨hnotin, hrest⟩ := List.nodup_cons.1 hnodup
      obtain ⟨⟨⟩, -, htail⟩ := Except.bind_ok h
      rw [ih hrest htail]
      by_cases hfield : change.field = field
      · subst hfield
        have hnone : changeOf rest change.field = none := by
          simp only [changeOf, List.find?_eq_none, beq_iff_eq]
          intro other hother heq
          exact hnotin (List.mem_map.2 ⟨other, hother, heq⟩)
        have hhead : changeOf (change :: rest) change.field = some change := by simp [changeOf]
        simp [hnone, hhead]
      · have hset := JsMap.get?_set_of_ne (m := fields)
          ⟨change.expectedVersion + 1, change.edit⟩ (Ne.symm hfield)
        have hhead : changeOf (change :: rest) field = changeOf rest field := by
          simp [changeOf, hfield]
        rw [hhead, hset]

end

section

variable {state : SharedStateSnapshot} {changes : List SharedStateChange}
  {result : SharedStateResult}

theorem conflicts_eq_nil_iff : state.conflicts changes = [] ↔
    ∀ change ∈ changes, state.fieldVersion change.field = change.expectedVersion := by
  simp [SharedStateSnapshot.conflicts]

/-- A batch is applied to all its fields, or has conflicts and changes nothing. -/
theorem apply_cases (h : state.apply changes = .ok result) :
    (state.conflicts changes ≠ [] ∧ result = ⟨state.conflicts changes, state, false⟩) ∨
      (state.conflicts changes = [] ∧ ∃ fields, setFields state.fields changes = .ok fields
        ∧ result = ⟨[], { state with version := state.version + 1, fields }, false⟩) := by
  unfold SharedStateSnapshot.apply at h
  by_cases hnil : state.conflicts changes = []
  · rw [if_pos (by simp [hnil])] at h
    obtain ⟨⟨⟩, -, h⟩ := Except.bind_ok h
    obtain ⟨fields, hset, h⟩ := Except.bind_ok h
    obtain ⟨⟨⟩, -, h⟩ := Except.bind_ok h
    cases h
    exact .inr ⟨hnil, fields, hset, rfl⟩
  · rw [if_neg (by simpa using hnil)] at h
    cases h
    exact .inl ⟨hnil, rfl⟩

end

/-! ## Runs -/

/-- A call, with the tables as they stand when it holds the lock. -/
structure Call where
  tables : Tables
  actor : StateActor
  update : SharedStateUpdate

/-- A state as it is created. -/
def created (version : Nat) (audience : Audience) : StateStore :=
  ⟨some ⟨version, audience, JsMap.empty⟩, []⟩

section

variable (sha256 : Units → Units) (scope : SharedStateIdentity)

def answer (store : StateStore) (call : Call) : Except Failure SharedStateResult :=
  (updateSharedState sha256 call.tables scope store call.actor call.update).map Prod.fst

/-- A call that throws has written nothing. -/
def step (store : StateStore) (call : Call) : StateStore :=
  match updateSharedState sha256 call.tables scope store call.actor call.update with
  | .ok (_, store') => store'
  | .error _ => store

def run (store : StateStore) (calls : List Call) : StateStore :=
  calls.foldl (step sha256 scope) store

/-- The changes of an operation the call has accepted: it succeeds and is no repetition. -/
def accepted (store : StateStore) (call : Call) : Option (List SharedStateChange) :=
  match answer sha256 scope store call, validateStateUpdate call.update with
  | .ok result, .ok checked =>
      if result.ok && !result.deduplicated then some checked.changes else none
  | _, _ => none

/-- The operations a run accepts. -/
def history (store : StateStore) : List Call → List (List SharedStateChange)
  | [] => []
  | call :: rest =>
      (accepted sha256 scope store call).toList ++ history (step sha256 scope store call) rest

end

/-- What a batch says, digested with its origin. -/
def requestText (checked : CheckedUpdate) (actor : StateActor) : Units :=
  canonicalJson (requestValue checked actor)

section

variable {sha256 : Units → Units} {scope : SharedStateIdentity} {store : StateStore} {call : Call}

/-- The log with an operation added. -/
def logged (sha256 : Units → Units) (store : StateStore) (actor : StateActor)
    (checked : CheckedUpdate) (result : SharedStateResult) : StateStore :=
  ⟨some result.state, store.operations ++ [⟨columnText checked.operationId,
    sha256 (requestText checked actor), actor.origin, checked.changes, result⟩]⟩

/-- A call is refused, or repeats an operation in the log, or adds one to it. -/
theorem call_cases (sha256 : Units → Units) (scope : SharedStateIdentity) (store : StateStore)
    (call : Call) :
    (∃ failure, answer sha256 scope store call = .error failure
      ∧ step sha256 scope store call = store) ∨
    ∃ checked state,
      admitUpdate call.tables scope store.row call.actor call.update = .ok (checked, state) ∧
      ((∃ prior, store.prior checked.operationId = some prior
          ∧ prior.fingerprint = sha256 (requestText checked call.actor)
          ∧ answer sha256 scope store call = .ok { prior.result with deduplicated := true }
          ∧ step sha256 scope store call = store) ∨
        (store.prior checked.operationId = none ∧ ∃ result,
          state.apply checked.changes = .ok result
          ∧ answer sha256 scope store call = .ok result
          ∧ step sha256 scope store call = logged sha256 store call.actor checked result)) := by
  unfold answer step
  cases h : updateSharedState sha256 call.tables scope store call.actor call.update with
  | error failure => exact .inl ⟨failure, rfl, rfl⟩
  | ok settled =>
      obtain ⟨result, store'⟩ := settled
      refine .inr ?_
      obtain ⟨⟨checked, state⟩, hadm, h⟩ := Except.bind_ok h
      refine ⟨checked, state, hadm, ?_⟩
      cases hprior : store.prior checked.operationId with
      | some prior =>
          simp only [hprior] at h
          obtain ⟨⟨⟩, hfingerprint, h⟩ := Except.bind_ok h
          cases h
          have heq := require_eq_ok_iff.1 hfingerprint
          exact .inl ⟨prior, rfl, eq_of_beq heq, rfl, rfl⟩
      | none =>
          simp only [hprior] at h
          obtain ⟨result, happly, h⟩ := Except.bind_ok h
          cases h
          exact .inr ⟨rfl, result, happly, rfl, rfl⟩

theorem accepted_of_error {failure : Failure} (h : answer sha256 scope store call = .error failure) :
    accepted sha256 scope store call = none := by
  simp [accepted, h]

theorem accepted_of_ok {result : SharedStateResult} {checked : CheckedUpdate}
    (h : answer sha256 scope store call = .ok result)
    (hvalid : validateStateUpdate call.update = .ok checked) :
    accepted sha256 scope store call
      = if result.ok && !result.deduplicated then some checked.changes else none := by
  simp [accepted, h, hvalid]

end

/-! ## The versions of a history -/

/-- A field after the batches accepted so far: what the last one that changed it
    says, with their number. -/
def fieldAfter (batches : List (List SharedStateChange)) (field : Units) :
    Option SharedStateField :=
  let changes := batches.filterMap (changeOf · field)
  changes.getLast?.map fun change => ⟨changes.length, change.edit⟩

def versionAfter (batches : List (List SharedStateChange)) (field : Units) : Nat :=
  batches.countP fun changes => (changeOf changes field).isSome

theorem length_changes (batches : List (List SharedStateChange)) (field : Units) :
    (batches.filterMap (changeOf · field)).length = versionAfter batches field := by
  simp [versionAfter, List.length_filterMap_eq_countP]

/-- The state that a history of accepted batches leaves. -/
structure Reflects (version : Nat) (audience : Audience) (batches : List (List SharedStateChange))
    (state : SharedStateSnapshot) : Prop where
  version : state.version = version + batches.length
  audience : state.audience = audience
  fields : ∀ field, state.fields.get? field = fieldAfter batches field

section

variable {version : Nat} {audience : Audience} {batches : List (List SharedStateChange)}
  {state : SharedStateSnapshot}

theorem Reflects.fieldVersion (h : Reflects version audience batches state) (field : Units) :
    state.fieldVersion field = versionAfter batches field := by
  rw [SharedStateSnapshot.fieldVersion, h.fields, ← length_changes, fieldAfter]
  cases hlast : (batches.filterMap (changeOf · field)).getLast? with
  | none => simp [List.getLast?_eq_none_iff.1 hlast]
  | some change => simp

theorem fieldAfter_append (batches : List (List SharedStateChange))
    (changes : List SharedStateChange) (field : Units) :
    fieldAfter (batches ++ [changes]) field = ((changeOf changes field).map fun change =>
      ⟨versionAfter batches field + 1, change.edit⟩).or (fieldAfter batches field) := by
  cases hchange : changeOf changes field with
  | none => simp [fieldAfter, hchange]
  | some change => simp [fieldAfter, hchange, ← length_changes]

/-- What an accepted batch does to a state. -/
structure Applied (state : SharedStateSnapshot) (changes : List SharedStateChange)
    (state' : SharedStateSnapshot) : Prop where
  expected : ∀ change ∈ changes, state.fieldVersion change.field = change.expectedVersion
  version : state'.version = state.version + 1
  audience : state'.audience = state.audience
  fields : ∀ field, state'.fields.get? field = ((changeOf changes field).map fun change =>
    ⟨state.fieldVersion field + 1, change.edit⟩).or (state.fields.get? field)

theorem Reflects.applied {changes : List SharedStateChange} {state' : SharedStateSnapshot}
    (h : Reflects version audience batches state) (happlied : Applied state changes state') :
    Reflects version audience (batches ++ [changes]) state' where
  version := by
    rw [happlied.version, h.version, List.length_append, List.length_singleton, Nat.add_assoc]
  audience := happlied.audience.trans h.audience
  fields field := by
    rw [happlied.fields, h.fields, h.fieldVersion, fieldAfter_append]

end

/-! ## Steps -/

section

variable {sha256 : Units → Units} {scope : SharedStateIdentity}

/-- A call applies a batch to the row, or leaves the row as it is. -/
theorem step_row (sha256 : Units → Units) (scope : SharedStateIdentity) (store : StateStore)
    (call : Call) :
    (accepted sha256 scope store call = none ∧ (step sha256 scope store call).row = store.row) ∨
    ∃ changes state state', accepted sha256 scope store call = some changes
      ∧ store.row = some state ∧ (step sha256 scope store call).row = some state'
      ∧ Applied state changes state' := by
  rcases call_cases sha256 scope store call with ⟨failure, hanswer, hstep⟩ | ⟨checked, state, hadm, h⟩
  · exact .inl ⟨accepted_of_error hanswer, by rw [hstep]⟩
  obtain ⟨hvalid, -, -, hrow, -⟩ := admitUpdate_eq_ok_iff.1 hadm
  rcases h with ⟨prior, -, -, hanswer, hstep⟩ | ⟨-, result, happly, hanswer, hstep⟩
  · have hnone := accepted_of_ok hanswer hvalid
    exact .inl ⟨by simpa using hnone, by rw [hstep]⟩
  · have haccepted := accepted_of_ok hanswer hvalid
    rcases apply_cases happly with ⟨hconflicts, rfl⟩ | ⟨hconflicts, fields, hset, rfl⟩
    · left
      have hok : (state.conflicts checked.changes).isEmpty = false := by simpa using hconflicts
      exact ⟨by simpa [SharedStateResult.ok, hok] using haccepted, by rw [hstep, hrow]; rfl⟩
    · refine .inr ⟨checked.changes, state, _, haccepted, hrow, by rw [hstep]; rfl, ?_⟩
      have hexpected := conflicts_eq_nil_iff.1 hconflicts
      refine ⟨hexpected, rfl, rfl, fun field => ?_⟩
      rw [setFields_get? (validateStateUpdate_nodup hvalid) hset]
      cases hchange : changeOf checked.changes field with
      | none => rfl
      | some change =>
          have hmem : change ∈ checked.changes := List.mem_of_find?_eq_some hchange
          have hfield : change.field = field := by simpa using List.find?_some hchange
          simp [← hexpected change hmem, hfield]

theorem step_reflects (sha256 : Units → Units) (scope : SharedStateIdentity) {version : Nat}
    {audience : Audience} {store : StateStore} {state : SharedStateSnapshot}
    {batches : List (List SharedStateChange)} (call : Call)
    (hrow : store.row = some state) (h : Reflects version audience batches state) :
    ∃ state', (step sha256 scope store call).row = some state' ∧
      Reflects version audience (batches ++ (accepted sha256 scope store call).toList) state' := by
  rcases step_row sha256 scope store call with
    ⟨hnone, hsame⟩ | ⟨changes, before, after, hsome, hbefore, hafter, happlied⟩
  · exact ⟨state, hsame.trans hrow, by simpa [hnone] using h⟩
  · obtain rfl : before = state := Option.some.inj (hbefore.symm.trans hrow)
    exact ⟨after, hafter, by simpa [hsome] using h.applied happlied⟩

/-- The state after any run is the one its accepted operations make. -/
theorem run_reflects {version : Nat} {audience : Audience} (calls : List Call) {store : StateStore}
    {state : SharedStateSnapshot} {batches : List (List SharedStateChange)}
    (hrow : store.row = some state) (h : Reflects version audience batches state) :
    ∃ state', (run sha256 scope store calls).row = some state' ∧
      Reflects version audience (batches ++ history sha256 scope store calls) state' := by
  induction calls generalizing store state batches with
  | nil => exact ⟨state, hrow, by simpa [history] using h⟩
  | cons call rest ih =>
      obtain ⟨middle, hmiddle, hreflects⟩ := step_reflects sha256 scope call hrow h
      obtain ⟨final, hfinal, hreflects⟩ := ih hmiddle hreflects
      exact ⟨final, hfinal, by simpa [history] using hreflects⟩

theorem created_reflects (version : Nat) (audience : Audience) :
    Reflects version audience [] ⟨version, audience, JsMap.empty⟩ :=
  ⟨rfl, rfl, fun _ => rfl⟩

/-! ## The log -/

theorem prior_logged {store : StateStore} {checked : CheckedUpdate} {actor : StateActor}
    {result : SharedStateResult} {id : Units} {op : SharedOperation}
    (h : store.prior id = some op) : (logged sha256 store actor checked result).prior id = some op := by
  simp only [StateStore.prior, logged, List.find?_append] at h ⊢
  simp [h]

/-- An operation in the log stays there. -/
theorem prior_step {store : StateStore} {id : Units} {op : SharedOperation}
    (h : store.prior id = some op) (call : Call) :
    (step sha256 scope store call).prior id = some op := by
  rcases call_cases sha256 scope store call with ⟨-, -, hstep⟩ | ⟨checked, state, -, h'⟩
  · rwa [hstep]
  · rcases h' with ⟨-, -, -, -, hstep⟩ | ⟨-, result, -, -, hstep⟩
    · rwa [hstep]
    · rw [hstep]
      exact prior_logged h

theorem prior_run {store : StateStore} {id : Units} {op : SharedOperation}
    (h : store.prior id = some op) (calls : List Call) :
    (run sha256 scope store calls).prior id = some op := by
  induction calls generalizing store with
  | nil => exact h
  | cons call rest ih => exact ih (prior_step h call)

/-- An operation answered for the first time is in the log, with its answer. -/
theorem prior_of_answer {store : StateStore} {call : Call} {result : SharedStateResult}
    (h : answer sha256 scope store call = .ok result) (hfresh : result.deduplicated = false) :
    ∃ checked op, validateStateUpdate call.update = .ok checked
      ∧ (step sha256 scope store call).prior checked.operationId = some op
      ∧ op.fingerprint = sha256 (requestText checked call.actor) ∧ op.result = result := by
  rcases call_cases sha256 scope store call with ⟨failure, hanswer, -⟩ | ⟨checked, state, hadm, h'⟩
  · rw [h] at hanswer
    cases hanswer
  obtain ⟨hvalid, -⟩ := admitUpdate_eq_ok_iff.1 hadm
  rcases h' with ⟨prior, -, -, hanswer, -⟩ | ⟨hnone, result', -, hanswer, hstep⟩
  · rw [h] at hanswer
    cases hanswer
    cases hfresh
  · obtain rfl : result = result' := by
      rw [h] at hanswer
      exact Except.ok.inj hanswer
    refine ⟨checked, ⟨columnText checked.operationId, sha256 (requestText checked call.actor),
      call.actor.origin, checked.changes, result⟩, hvalid, ?_, rfl, rfl⟩
    rw [hstep]
    simp only [StateStore.prior, logged, List.find?_append] at hnone ⊢
    simp [hnone]

end

/-! ## Requests -/

theorem MessageReference.value_over (source : MessageReference) :
    source.value.Over (· < 0x10000) :=
  ⟨literal_over _ (by simp), source.messageId.2, literal_over _ (by simp), trivial, trivial⟩

theorem StateActor.origin_over (actor : StateActor) : actor.origin.Over (· < 0x10000) := by
  obtain ⟨principalId, work, actionKey, source⟩ := actor
  cases work with
  | none =>
      have hsource : ((source.map MessageReference.value).getD Value.null).Over (· < 0x10000) := by
        cases source with
        | none => trivial
        | some source => exact source.value_over
      exact ⟨literal_over _ (by simp), principalId.2, literal_over _ (by simp), hsource, trivial⟩
  | some work =>
      have hsource : ((work.conversation.map fun c => c.source.value).getD Value.null).Over
          (· < 0x10000) := by
        cases work.conversation with
        | none => trivial
        | some conversation => exact conversation.source.value_over
      have hkey : ((actionKey.map fun key => (.str key.val : Value Number)).getD Value.null).Over
          (· < 0x10000) := by
        cases actionKey with
        | none => trivial
        | some key => exact key.2
      exact ⟨literal_over _ (by simp), principalId.2, literal_over _ (by simp), work.agentId.2,
        literal_over _ (by simp), work.id.2, literal_over _ (by simp), work.graphId.2,
        literal_over _ (by simp), hsource, literal_over _ (by simp), hkey, trivial⟩

/-- Two checked updates with their actors say the same, the order of keys aside. -/
theorem requestText_inj {update update' : SharedStateUpdate} {checked checked' : CheckedUpdate}
    (h : validateStateUpdate update = .ok checked) (h' : validateStateUpdate update' = .ok checked')
    (actor actor' : StateActor) : requestText checked actor = requestText checked' actor' ↔
      sortKeys (requestValue checked actor) = sortKeys (requestValue checked' actor') :=
  canonicalJson_inj
    (v := ⟨requestValue checked actor, literal_over _ (by simp), checked.value_over h,
      literal_over _ (by simp), actor.origin_over, trivial⟩)
    (w := ⟨requestValue checked' actor', literal_over _ (by simp), checked'.value_over h',
      literal_over _ (by simp), actor'.origin_over, trivial⟩)

/-- Two calls with one content and one origin. -/
def SameRequest (first again : Call) : Prop :=
  ∃ checked checked', validateStateUpdate first.update = .ok checked
    ∧ validateStateUpdate again.update = .ok checked'
    ∧ sortKeys (requestValue checked first.actor) = sortKeys (requestValue checked' again.actor)

/-- The text a call's fingerprint is made of. -/
def Call.text? (call : Call) : Option Units :=
  match validateStateUpdate call.update with
  | .ok checked => some (requestText checked call.actor)
  | .error _ => none

/-- No two texts of the calls have one digest. -/
def CollisionFree (sha256 : Units → Units) (calls : List Call) : Prop :=
  ∀ s ∈ calls.filterMap Call.text?, ∀ t ∈ calls.filterMap Call.text?, sha256 s = sha256 t → s = t

theorem CollisionFree.sameRequest_iff {sha256 : Units → Units} {calls : List Call}
    (h : CollisionFree sha256 calls) {first again : Call} (hfirst : first ∈ calls)
    (hagain : again ∈ calls) {checked checked' : CheckedUpdate}
    (hvalid : validateStateUpdate first.update = .ok checked)
    (hvalid' : validateStateUpdate again.update = .ok checked') :
    sha256 (requestText checked first.actor) = sha256 (requestText checked' again.actor) ↔
      SameRequest first again := by
  have htext : first.text? = some (requestText checked first.actor) := by
    simp [Call.text?, hvalid]
  have htext' : again.text? = some (requestText checked' again.actor) := by
    simp [Call.text?, hvalid']
  constructor
  · intro heq
    have hsame := h _ (List.mem_filterMap.2 ⟨first, hfirst, htext⟩) _
      (List.mem_filterMap.2 ⟨again, hagain, htext'⟩) heq
    exact ⟨checked, checked', hvalid, hvalid', (requestText_inj hvalid hvalid' _ _).1 hsame⟩
  · rintro ⟨u, v, hu, hv, hsame⟩
    obtain rfl : checked = u := Except.ok.inj (hvalid.symm.trans hu)
    obtain rfl : checked' = v := Except.ok.inj (hvalid'.symm.trans hv)
    rw [(requestText_inj hvalid hvalid' _ _).2 hsame]

/-- A call passes every check before the log is read. -/
def Admitted (scope : SharedStateIdentity) (store : StateStore) (call : Call) : Prop :=
  (admitUpdate call.tables scope store.row call.actor call.update).isOk = true

/-- What the checks read of an actor. -/
def StateActor.standing (actor : StateActor) :=
  (actor.principalId, actor.source, actor.work.map fun work => (work.tenantId, work.agentId,
    work.principalId, work.threadId, work.conversation.map fun c => (c.conversationId, c.audience)))

theorem authorizeConversationWork_congr {tables : Tables} {work work' : ConversationWork}
    {operation : WorkOperation} (hoperation : operation ≠ .speak)
    (htenant : work.tenantId = work'.tenantId) (hagent : work.agentId = work'.agentId)
    (hprincipal : work.principalId = work'.principalId) (hthread : work.threadId = work'.threadId)
    (hconversation : work.conversation.map (fun c => (c.conversationId, c.audience))
      = work'.conversation.map fun c => (c.conversationId, c.audience)) :
    authorizeConversationWork tables work operation
      = authorizeConversationWork tables work' operation := by
  unfold authorizeConversationWork
  cases hc : work.conversation with
  | none =>
      cases hc' : work'.conversation with
      | none => rfl
      | some c' => simp [hc, hc'] at hconversation
  | some c =>
      cases hc' : work'.conversation with
      | none => simp [hc, hc'] at hconversation
      | some c' =>
          obtain ⟨hid, haudience⟩ : c.conversationId = c'.conversationId ∧ c.audience = c'.audience := by
            simpa [hc, hc'] using hconversation
          simp only [htenant, hagent, hprincipal, hthread, hid, haudience, hoperation, if_false]

theorem authorize_congr {tables : Tables} {scope : SharedStateIdentity} {actor actor' : StateActor}
    (h : actor.standing = actor'.standing) (write : Bool) (audience : Option Audience) :
    authorize tables scope actor write audience = authorize tables scope actor' write audience := by
  obtain ⟨principalId, work, actionKey, source⟩ := actor
  obtain ⟨principalId', work', actionKey', source'⟩ := actor'
  simp only [StateActor.standing, Prod.mk.injEq] at h
  obtain ⟨rfl, rfl, hwork⟩ := h
  cases work with
  | none =>
      cases work' with
      | none => rfl
      | some work' => cases hwork
  | some work =>
      cases work' with
      | none => cases hwork
      | some work' =>
          simp only [Option.map_some, Option.some.injEq, Prod.mk.injEq] at hwork
          obtain ⟨htenant, hagent, hprincipal, hthread, hconversation⟩ := hwork
          have hoperation : (if write then WorkOperation.execute else .read) ≠ .speak := by
            cases write <;> decide
          have hauth : authorizeConversationWork tables work (if write then .execute else .read)
              = authorizeConversationWork tables work' (if write then .execute else .read) :=
            authorizeConversationWork_congr hoperation htenant hagent hprincipal hthread hconversation
          cases hc : work.conversation with
          | none =>
              cases hc' : work'.conversation with
              | none => simp only [authorize, hc, hc']
              | some c' => simp [hc, hc'] at hconversation
          | some c =>
              cases hc' : work'.conversation with
              | none => simp [hc, hc'] at hconversation
              | some c' =>
                  obtain ⟨hid, haudience⟩ :
                      c.conversationId = c'.conversationId ∧ c.audience = c'.audience := by
                    simpa [hc, hc'] using hconversation
                  simp only [authorize, hc, hc', hauth, htenant, hprincipal, hthread, hid, haudience]

end LingxiOS.Collaboration
