-- SUMMARY: No update of a shared state is lost, over any sequence of transactions.
import LingxiOS.Collaboration.Updates

/-! # No Lost Update

Calls run in their callers' transactions, which commit or roll back as a whole. -/

namespace LingxiOS.Collaboration

open JsonText Stringify

section

variable (sha256 : Units → Units) (scope : SharedStateIdentity)

/-- What the calls on one state promise, from its creation with some version. -/
structure NoLostUpdate (start : StateStore) (version : Nat) (calls : List Call) : Prop where
  /-- The versions count the accepted operations, and a field holds what the last
      one that changed it says. -/
  versions : ∃ state, (run sha256 scope start calls).row = some state
    ∧ state.version = version + (history sha256 scope start calls).length
    ∧ ∀ field, state.fieldVersion field = versionAfter (history sha256 scope start calls) field
      ∧ state.fields.get? field = fieldAfter (history sha256 scope start calls) field
  /-- An accepted operation met the versions it expected and is applied to all its fields. -/
  applied : ∀ before call after, calls = before ++ call :: after → ∀ changes,
    accepted sha256 scope (run sha256 scope start before) call = some changes →
    ∃ state state', (run sha256 scope start before).row = some state
      ∧ (run sha256 scope start (before ++ [call])).row = some state'
      ∧ Applied state changes state'
  /-- Any other call leaves the values and versions unchanged. -/
  unchanged : ∀ before call after, calls = before ++ call :: after →
    accepted sha256 scope (run sha256 scope start before) call = none →
    (run sha256 scope start (before ++ [call])).row = (run sha256 scope start before).row
  /-- Once an operation is answered, a call with its id has no effect; it returns the
      recorded result if it says the same and is admitted, and is refused if it does not. -/
  repeated : ∀ before first middle again after result,
    calls = before ++ first :: (middle ++ again :: after) →
    answer sha256 scope (run sha256 scope start before) first = .ok result →
    result.deduplicated = false → again.update.operationId = first.update.operationId →
    let store := run sha256 scope start (before ++ first :: middle)
    step sha256 scope store again = store
      ∧ (SameRequest first again → Admitted scope store again →
        answer sha256 scope store again = .ok { result with deduplicated := true })
      ∧ (¬ SameRequest first again →
        ∃ failure, answer sha256 scope store again = .error failure)
  /-- A call that says the same is admitted again while the tables and its actor's
      standing are what they were. -/
  readmitted : ∀ before first middle again after result,
    calls = before ++ first :: (middle ++ again :: after) →
    answer sha256 scope (run sha256 scope start before) first = .ok result →
    SameRequest first again → again.tables = first.tables →
    again.actor.standing = first.actor.standing →
    Admitted scope (run sha256 scope start (before ++ first :: middle)) again

/-- A caller's transaction on the state. -/
structure Transaction where
  calls : List Call
  committed : Bool

def commit (store : StateStore) (transaction : Transaction) : StateStore :=
  if transaction.committed then run sha256 scope store transaction.calls else store

/-- The calls whose transactions committed. -/
def landed (transactions : List Transaction) : List Call :=
  (transactions.filter (·.committed)).flatMap (·.calls)

end

section

variable {sha256 : Units → Units} {scope : SharedStateIdentity}

theorem run_append (store : StateStore) (before after : List Call) :
    run sha256 scope store (before ++ after)
      = run sha256 scope (run sha256 scope store before) after := List.foldl_append

/-- What is answered to a call with the id of an operation in the log. -/
theorem answer_of_prior {store : StateStore} {call : Call} {op : SharedOperation} {id : Units}
    (hprior : store.prior id = some op) (hid : call.update.operationId = .str id) :
    step sha256 scope store call = store ∧
      (∀ checked, validateStateUpdate call.update = .ok checked →
        op.fingerprint = sha256 (requestText checked call.actor) → Admitted scope store call →
        answer sha256 scope store call = .ok { op.result with deduplicated := true }) ∧
      ((∀ checked, validateStateUpdate call.update = .ok checked →
          op.fingerprint ≠ sha256 (requestText checked call.actor)) →
        ∃ failure, answer sha256 scope store call = .error failure) := by
  have hsameId : ∀ checked, validateStateUpdate call.update = .ok checked →
      checked.operationId = id := by
    intro checked hvalid
    have hstr := operationId?_eq_ok (validateStateUpdate_cases hvalid).1
    rw [hid] at hstr
    exact (Value.str.inj hstr).symm
  rcases call_cases sha256 scope store call with ⟨failure, hanswer, hstep⟩ | ⟨checked, state, hadm, h⟩
  · refine ⟨hstep, ?_, fun _ => ⟨failure, hanswer⟩⟩
    intro checked hvalid hfingerprint hadmitted
    exfalso
    unfold Admitted at hadmitted
    cases hadm : admitUpdate call.tables scope store.row call.actor call.update with
    | error failure => simp [hadm, Except.isOk, Except.toBool] at hadmitted
    | ok passed =>
        obtain ⟨checked', state⟩ := passed
        obtain ⟨hvalid', -⟩ := admitUpdate_eq_ok_iff.1 hadm
        obtain rfl : checked = checked' := Except.ok.inj (hvalid.symm.trans hvalid')
        simp [answer, updateSharedState, hadm, hsameId checked hvalid, hprior,
          ← requestText.eq_def, ← hfingerprint, require] at hanswer
  · obtain ⟨hvalid, -⟩ := admitUpdate_eq_ok_iff.1 hadm
    rw [hsameId checked hvalid, hprior] at h
    rcases h with ⟨prior, hfound, hfingerprint, hanswer, hstep⟩ | ⟨hnone, -⟩
    · obtain rfl : op = prior := Option.some.inj hfound
      refine ⟨hstep, fun _ _ _ _ => hanswer, fun hdiffers => ?_⟩
      exact absurd hfingerprint (hdiffers checked hvalid)
    · cases hnone

/-- What rolls back leaves nothing. -/
theorem commits_eq_run (transactions : List Transaction) (store : StateStore) :
    transactions.foldl (commit sha256 scope) store = run sha256 scope store (landed transactions) := by
  induction transactions generalizing store with
  | nil => rfl
  | cons transaction rest ih =>
      rw [List.foldl_cons, ih]
      cases hcommitted : transaction.committed with
      | true => simp [landed, commit, hcommitted, run_append]
      | false => simp [landed, commit, hcommitted]

theorem run_snoc (store : StateStore) (before : List Call) (call : Call) :
    run sha256 scope store (before ++ [call])
      = step sha256 scope (run sha256 scope store before) call := by
  rw [run_append]
  rfl

theorem run_cons (store : StateStore) (before middle : List Call) (call : Call) :
    run sha256 scope store (before ++ call :: middle)
      = run sha256 scope (step sha256 scope (run sha256 scope store before) call) middle := by
  rw [run_append]
  rfl

/-- A request that was admitted once is admitted wherever the audience is the same. -/
theorem Admitted.again {store store' : StateStore} {first again : Call}
    {state state' : SharedStateSnapshot} (hadmitted : Admitted scope store first)
    (hrow : store.row = some state) (hrow' : store'.row = some state')
    (haudience : state'.audience = state.audience) (hsame : SameRequest first again)
    (htables : again.tables = first.tables) (hstanding : again.actor.standing = first.actor.standing) :
    Admitted scope store' again := by
  unfold Admitted at hadmitted ⊢
  cases hadm : admitUpdate first.tables scope store.row first.actor first.update with
  | error failure => simp [hadm, Except.isOk, Except.toBool] at hadmitted
  | ok passed =>
      obtain ⟨checked, found⟩ := passed
      obtain ⟨-, hauth, hsource, hfound, hstate⟩ := admitUpdate_eq_ok_iff.1 hadm
      obtain rfl : found = state := Option.some.inj (hfound.symm.trans hrow)
      obtain ⟨-, checked', -, hvalid', -⟩ := hsame
      have hactor : again.actor.principalId = first.actor.principalId
          ∧ again.actor.source = first.actor.source := by
        simp only [StateActor.standing, Prod.mk.injEq] at hstanding
        exact ⟨hstanding.1, hstanding.2.1⟩
      have hok : admitUpdate again.tables scope store'.row again.actor again.update
          = .ok (checked', state') := by
        refine admitUpdate_eq_ok_iff.2 ⟨hvalid', ?_, ?_, hrow', ?_⟩
        · rw [htables, authorize_congr hstanding, hauth]
        · rw [htables, hactor.1, hactor.2, hsource]
        · rw [htables, authorize_congr hstanding, haudience, hstate]
      simp [hok, Except.isOk, Except.toBool]

theorem admitted_of_answer {store : StateStore} {call : Call} {result : SharedStateResult}
    (h : answer sha256 scope store call = .ok result) : Admitted scope store call := by
  rcases call_cases sha256 scope store call with ⟨failure, hanswer, -⟩ | ⟨checked, state, hadm, -⟩
  · rw [h] at hanswer
    cases hanswer
  · simp [Admitted, hadm, Except.isOk, Except.toBool]

end

/-- For any transactions on one state, one after the other: no update is lost. -/
theorem no_lost_update (sha256 : Units → Units) (scope : SharedStateIdentity) (version : Nat)
    (audience : Audience) (transactions : List Transaction)
    (hsha : CollisionFree sha256 (landed transactions)) :
    transactions.foldl (commit sha256 scope) (created version audience)
        = run sha256 scope (created version audience) (landed transactions)
      ∧ NoLostUpdate sha256 scope (created version audience) version (landed transactions) := by
  refine ⟨commits_eq_run transactions _, ?_, ?_, ?_, ?_, ?_⟩
  · obtain ⟨state, hrow, hreflects⟩ := run_reflects (landed transactions)
      (show (created version audience).row = some _ from rfl) (created_reflects version audience)
    exact ⟨state, hrow, hreflects.version, fun field =>
      ⟨hreflects.fieldVersion field, hreflects.fields field⟩⟩
  · intro before call after _ changes haccepted
    rcases step_row sha256 scope (run sha256 scope (created version audience) before) call with
      ⟨hnone, -⟩ | ⟨changes', state, state', hsome, hrow, hrow', happlied⟩
    · rw [haccepted] at hnone
      cases hnone
    · obtain rfl : changes = changes' := Option.some.inj (haccepted.symm.trans hsome)
      exact ⟨state, state', hrow, by rw [run_snoc, hrow'], happlied⟩
  · intro before call after _ haccepted
    rcases step_row sha256 scope (run sha256 scope (created version audience) before) call with
      ⟨-, hsame⟩ | ⟨changes, state, state', hsome, -⟩
    · rw [run_snoc, hsame]
    · rw [haccepted] at hsome
      cases hsome
  · intro before first middle again after result hcalls hanswer hfresh hid store
    obtain ⟨checked, op, hvalid, hprior, hfingerprint, rfl⟩ := prior_of_answer hanswer hfresh
    have hlogged : store.prior checked.operationId = some op := by
      simp only [store, run_cons]
      exact prior_run hprior middle
    have hagain : again.update.operationId = .str checked.operationId :=
      hid.trans (operationId?_eq_ok (validateStateUpdate_cases hvalid).1)
    obtain ⟨hstep, hreplay, hrefuse⟩ := answer_of_prior hlogged hagain
    have hiff : ∀ checked', validateStateUpdate again.update = .ok checked' →
        (sha256 (requestText checked first.actor) = sha256 (requestText checked' again.actor) ↔
          SameRequest first again) := fun checked' hvalid' =>
      hsha.sameRequest_iff (by simp [hcalls]) (by simp [hcalls]) hvalid hvalid'
    refine ⟨hstep, fun hsame hadmitted => ?_, fun hdiffers => hrefuse fun checked' hvalid' heq => ?_⟩
    · have ⟨_, checked', _, hvalid', _⟩ := hsame
      exact hreplay checked' hvalid' (hfingerprint.trans ((hiff checked' hvalid').2 hsame)) hadmitted
    · exact hdiffers ((hiff checked' hvalid').1 (hfingerprint.symm.trans heq))
  · intro before first middle again after result _ hanswer hsame htables hstanding
    obtain ⟨state, hrow, hreflects⟩ := run_reflects before
      (show (created version audience).row = some _ from rfl) (created_reflects version audience)
    obtain ⟨state', hrow', hreflects'⟩ := run_reflects (before ++ first :: middle)
      (show (created version audience).row = some _ from rfl) (created_reflects version audience)
    exact (admitted_of_answer hanswer).again hrow hrow'
      (hreflects'.audience.trans hreflects.audience.symm) hsame htables hstanding

private def conversation : Tables where
  policy _ _ := some ⟨[⟨literal "alice", .human, [.read, .execute]⟩]⟩
  hasThread _ _ _ := false
  hasMessage _ _ _ := false
  hasReplySlot _ _ _ _ _ := false

private def document : SharedStateIdentity := ⟨⟨literal "t", literal "c", none⟩, literal "s"⟩

/-- One operation on two fields, setting the first to some value. -/
private def edit (digit : Fin 9) : Call where
  tables := conversation
  actor := ⟨⟨literal "alice", by decide⟩, none, none, none⟩
  update :=
    { operationId := .str (literal "op")
      changes := .arr [
        .obj [(literal "field", .str (literal "title")),
          (literal "expectedVersion", .num (.number ⟨false, .zero, none, none⟩)),
          (literal "value", .num (.number ⟨false, .positive digit [], none, none⟩))],
        .obj [(literal "field", .str (literal "draft")),
          (literal "expectedVersion", .num (.number ⟨false, .zero, none, none⟩)),
          (literal "delete", .bool true)]]
      operationId_over := show ∀ u ∈ literal "op", u < 0x10000 by decide
      changes_over := by
        have htitle : ∀ u ∈ literal "title", u < 0x10000 := by decide
        have hdraft : ∀ u ∈ literal "draft", u < 0x10000 := by decide
        exact ⟨⟨literal_over _ (by simp), htitle, literal_over _ (by simp), trivial,
          literal_over _ (by simp), trivial, trivial⟩, ⟨literal_over _ (by simp), hdraft,
          literal_over _ (by simp), trivial, literal_over _ (by simp), trivial, trivial⟩, trivial⟩ }

/-- What the fingerprint of an edit is made of. -/
private def editText (value : Units) : Units :=
  literal "\x7b\"origin\":\x7b\"principalId\":\"alice\",\"source\":null\x7d,"
    ++ literal "\"update\":\x7b\"changes\":[" ++ literal "\x7b\"expectedVersion\":0,"
    ++ literal "\"field\":\"title\",\"value\":" ++ value ++ literal "\x7d,\x7b\"delete\":true,"
    ++ literal "\"expectedVersion\":0,\"field\":\"draft\"\x7d]," ++ literal "\"operationId\":\"op\"\x7d\x7d"

/-- The digests of two edits. -/
private def digests (text : Units) : Units :=
  if text = editText [49] then
    literal "742452ae089d23b071a9e23cae4be5c8face2e768dbb0dd614df7464fb0a9b80"
  else if text = editText [50] then
    literal "8653412b8d91d294fbac164d9c39d5bab2205d726fec96e0e90a28cfff523813"
  else []

private def edits : List Transaction :=
  [⟨[edit 1], false⟩, ⟨[edit 0], true⟩, ⟨[edit 0, edit 1], true⟩]

private theorem landed_edits : landed edits = [edit 0, edit 0, edit 1] := rfl

private theorem text_edits :
    (edit 0).text? = some (editText [49]) ∧ (edit 1).text? = some (editText [50]) := by
  simp only [editText]
  repeat rw [literal_ofList]
  decide +kernel

private theorem digests_ne : digests (editText [49]) ≠ digests (editText [50]) := by
  have hother : editText [50] ≠ editText [49] := by simp [editText]
  rw [digests, if_pos rfl, digests, if_neg hother, if_pos rfl]
  repeat rw [literal_ofList]
  decide +kernel

private theorem edits_collisionFree : CollisionFree digests (landed edits) := by
  obtain ⟨hfirst, hsecond⟩ := text_edits
  simp [CollisionFree, landed_edits, hfirst, hsecond, digests_ne, digests_ne.symm]

/-- An edit is rolled back, another applied and repeated, and the first is refused. -/
theorem no_lost_update_edits :
    (landed edits).filterMap Call.text? = [editText [49], editText [49], editText [50]]
      ∧ (history digests document (created 0 ⟨.conversation, [literal "alice"]⟩)
          (landed edits)).length = 1
      ∧ NoLostUpdate digests document (created 0 ⟨.conversation, [literal "alice"]⟩) 0
          (landed edits) := by
  obtain ⟨hfirst, hsecond⟩ := text_edits
  refine ⟨by simp [landed_edits, hfirst, hsecond], ?_, (no_lost_update digests document 0
    ⟨.conversation, [literal "alice"]⟩ edits edits_collisionFree).2⟩
  rw [landed_edits]
  unfold digests editText
  repeat rw [literal_ofList]
  decide +kernel

end LingxiOS.Collaboration
