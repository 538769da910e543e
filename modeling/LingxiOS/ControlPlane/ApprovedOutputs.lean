-- SUMMARY: Where the outputs of approved cells land.
import LingxiOS.Base.Landing
import LingxiOS.ControlPlane.DecidedApprovals
import LingxiOS.Runtime.SharedHistory

/-! # Outputs of Approved Cells

A later turn of a history may use the call ids of an earlier one. An approved cell is found by its
step id, but its output by the id of its call, from the start of the history on. -/

namespace LingxiOS

def ModelItem.part : ModelItem → LogPart String
  | .message _ _ => .other
  | .functionCall call => .ask call.callId
  | .functionCallOutput callId _ => .answer callId

def ModelItem.shows (item : ModelItem) (output : ToolOutput) : Prop :=
  item.outputText? = some output.text

/-- The outputs recovered for some calls, given by where they stand, are what changed, and a call
    that had at most one output now has exactly one. -/
structure OutputsLand (recovered : Nat → ToolOutput → Prop) (history history' : List ModelItem) : Prop
    extends Lands ModelItem.part ModelItem.shows recovered history history' where
  one : ∀ k output, recovered k output →
    (∀ i j, AnswerOf (history.map ModelItem.part) k i → AnswerOf (history.map ModelItem.part) k j →
      i = j) →
    ∃ i, AnswerOf (history'.map ModelItem.part) k i
      ∧ ∀ j, AnswerOf (history'.map ModelItem.part) k j → j = i

theorem Lands.outputs {recovered : Nat → ToolOutput → Prop} {history history' : List ModelItem}
    (h : Lands ModelItem.part ModelItem.shows recovered history history') :
    OutputsLand recovered history history' :=
  ⟨h, fun _ _ => h.one⟩

/-! ## Decided approvals -/

def CallAt (history : List ModelItem) (cellId : String) (k : Nat) (call : FunctionCall) : Prop :=
  history[k]? = some (.functionCall call) ∧ call.cellId = cellId

/-- For the call of an approved cell: what the last of the cell's actions left. -/
def ApprovalEnv.recovers (env : ApprovalEnv) (history : List ModelItem) (actions : List HostAction)
    (k : Nat) (output : ToolOutput) : Prop :=
  ∃ call action receipts, history[k]? = some (.functionCall call)
    ∧ (actions.filter fun action => action.cellId = call.cellId).getLast? = some action
    ∧ env.recoverCell action = .ok receipts ∧ output = approvedOutput receipts

/-- Whatever executing the actions gives, the outputs of their cells land. -/
def ApprovalsLand (history : List ModelItem) (actions : List HostAction) : Prop :=
  ∀ env session request saved, env.session = some session → session.history = history →
    ownRequest env.work session.request = some request →
    env.decided request.requestVersion = actions → executeDecidedApprovals env = .ok saved →
    OutputsLand (env.recovers history actions) history (saved.getD session).history

/-- An approved cell is that of one call, and the first output under its id is, or would be, an
    output of it. -/
def OwnsOutputs (history : List ModelItem) (actions : List HostAction) : Prop :=
  ∀ action ∈ actions, ∀ k call, CallAt history action.cellId k call →
    OwnsFirst (history.map ModelItem.part) k call.callId
      ∧ ∀ k' call', CallAt history action.cellId k' call' → k' = k

section Approvals

variable {history history' : List ModelItem} {actions : List HostAction} {action : HostAction}
  {env : ApprovalEnv} {session session' : RecoveredHistory} {cellId callId : String} {k : Nat}
  {call : FunctionCall} {output : ToolOutput}

/-- The calls of a history are kept, and only outputs are added to it. -/
structure Extends (history history' : List ModelItem) : Prop where
  parts : ∃ more, history'.map ModelItem.part = history.map ModelItem.part ++ more
    ∧ ∀ p ∈ more, ∃ callId, p = LogPart.answer callId
  calls : ∀ (k : Nat) (call : FunctionCall),
    history'[k]? = some (.functionCall call) ↔ history[k]? = some (.functionCall call)

theorem Extends.refl (history : List ModelItem) : Extends history history :=
  ⟨⟨[], by rw [List.append_nil], nofun⟩, fun _ _ => .rfl⟩

theorem Extends.trans {history'' : List ModelItem} (h : Extends history history')
    (h' : Extends history' history'') : Extends history history'' := by
  obtain ⟨more, hmore, hanswers⟩ := h.parts
  obtain ⟨more', hmore', hanswers'⟩ := h'.parts
  refine ⟨⟨more ++ more', by rw [hmore', hmore, List.append_assoc], fun p hp => ?_⟩,
    fun k call => (h'.calls k call).trans (h.calls k call)⟩
  exact (List.mem_append.1 hp).elim (hanswers p) (hanswers' p)

theorem Extends.callAt_iff (h : Extends history history') :
    CallAt history' cellId k call ↔ CallAt history cellId k call :=
  and_congr_left' (h.calls k call)

theorem Extends.ownsFirst_iff (h : Extends history history')
    (hk : history[k]? = some (.functionCall call)) :
    OwnsFirst (history'.map ModelItem.part) k callId
      ↔ OwnsFirst (history.map ModelItem.part) k callId := by
  obtain ⟨more, hmore, hanswers⟩ := h.parts
  rw [hmore]
  refine ownsFirst_append_iff hanswers ?_
  rw [List.length_map]
  exact (List.getElem?_eq_some_iff.1 hk).1

theorem extends_of_answeredAt {t : Nat} (h : AnsweredAt ModelItem.part callId t history history') :
    Extends history history' :=
  ⟨h.stable, fun _ _ => h.asks_iff rfl⟩

theorem isOutputOf_iff (item : ModelItem) :
    item.isOutputOf callId = true ↔ item.part = .answer callId := by
  cases item with
  | message => simp [ModelItem.isOutputOf, ModelItem.part]
  | functionCall => simp [ModelItem.isOutputOf, ModelItem.part]
  | functionCallOutput => simp [ModelItem.isOutputOf, ModelItem.part]

/-- The output is put at the target of its id. -/
theorem RecoveredHistory.answer_answeredAt (session : RecoveredHistory) (callId : String)
    (output : ToolOutput) : ∃ t item,
      AnsweredAt ModelItem.part callId t session.history (session.answer callId output).history
        ∧ (session.answer callId output).history[t]? = some item ∧ item.shows output := by
  unfold RecoveredHistory.answer
  split
  case h_1 old hold =>
    obtain ⟨htarget, hlt⟩ := target_of_some isOutputOf_iff hold
    have hget := List.getElem?_eq_getElem hlt
    split
    case isTrue hsame =>
      rw [hget, Option.bind_some] at hsame
      exact ⟨old, session.history[old], ⟨htarget, .inl ⟨rfl, hlt⟩, fun _ _ => rfl⟩, hget, hsame⟩
    case isFalse =>
      have hpart := htarget.answer
      rw [List.getElem?_append_left (by rwa [List.length_map])] at hpart
      refine ⟨old, .functionCallOutput callId output, ⟨htarget, .inl ⟨?_, hlt⟩, fun j hj => ?_⟩,
        List.getElem?_set_self hlt, rfl⟩
      · obtain ⟨_, hget'⟩ := List.getElem?_eq_some_iff.1 hpart
        rw [List.map_set]
        change (session.history.map ModelItem.part).set old (.answer callId) = _
        rw [← hget', List.set_getElem_self]
      · exact List.getElem?_set_ne hj.symm
  case h_2 hnone =>
    refine ⟨session.history.length, .functionCallOutput callId output,
      ⟨target_of_none isOutputOf_iff hnone, .inr ⟨?_, rfl⟩, fun j hj => ?_⟩, ?_, rfl⟩
    · rw [List.map_append]
      rfl
    · rcases Nat.lt_or_gt_of_ne hj with hlt | hgt
      · rw [List.getElem?_append_left hlt]
      · rw [List.getElem?_eq_none hgt.le, List.getElem?_eq_none]
        rw [List.length_append, List.length_singleton]
        exact hgt
    · rw [List.getElem?_append_right le_rfl, Nat.sub_self]
      rfl

theorem RecoveredHistory.answer_unchanged (h : (session.answer callId output).changed = false) :
    session.answer callId output = session := by
  unfold RecoveredHistory.answer at h ⊢
  split at h
  case h_1 =>
    split at h
    case isTrue hsame => rw [if_pos hsame]
    case isFalse => cases h
  case h_2 => cases h

/-- The call that is looked for is the first of the cell. -/
def FirstCall (history : List ModelItem) (cellId : String) (k : Nat) (call : FunctionCall) : Prop :=
  CallAt history cellId k call ∧ ∀ j, j < k → ∀ call', ¬CallAt history cellId j call'

theorem Extends.firstCall_iff (h : Extends history history') :
    FirstCall history' cellId k call ↔ FirstCall history cellId k call :=
  and_congr h.callAt_iff (forall₃_congr fun _ _ _ => not_congr h.callAt_iff)

theorem isCell_iff {item : ModelItem} :
    item.isCell cellId = true ↔ ∃ call, item = .functionCall call ∧ call.cellId = cellId := by
  cases item with
  | message => simp [ModelItem.isCell]
  | functionCall => simp [ModelItem.isCell]
  | functionCallOutput => simp [ModelItem.isCell]

theorem firstCall_of_find {item : ModelItem} (h : history.find? (·.isCell cellId) = some item) :
    ∃ k call, item = .functionCall call ∧ FirstCall history cellId k call := by
  obtain ⟨hcell, k, hlt, hget, hbefore⟩ := List.find?_eq_some_iff_getElem.1 h
  obtain ⟨call, rfl, hid⟩ := isCell_iff.1 hcell
  refine ⟨k, call, rfl, ⟨?_, hid⟩, fun j hj call' hcall' => ?_⟩
  · rw [List.getElem?_eq_getElem hlt, hget]
  · obtain ⟨hget', hid'⟩ := hcall'
    obtain ⟨hlt', hget'⟩ := List.getElem?_eq_some_iff.1 hget'
    have hother := hbefore j hj
    rw [hget'] at hother
    simp [ModelItem.isCell, hid'] at hother

theorem not_callAt_of_find (h : history.find? (·.isCell cellId) = none) :
    ¬CallAt history cellId k call := by
  rintro ⟨hget, hid⟩
  refine List.find?_eq_none.1 h _ (List.mem_of_getElem? hget) ?_
  exact isCell_iff.2 ⟨call, rfl, hid⟩

/-- What a turn of the loop does. -/
theorem recoverApproved_eq_ok (h : recoverApproved env session action = .ok session') :
    (∃ k call receipts, FirstCall session.history action.cellId k call
        ∧ env.recoverCell action = .ok receipts
        ∧ session' = session.answer call.callId (approvedOutput receipts))
      ∨ (∀ k call, ¬CallAt session.history action.cellId k call) ∧ session' = session := by
  obtain ⟨_, -, h⟩ := Except.bind_ok h
  cases hfind : session.history.find? (·.isCell action.cellId) with
  | none =>
      rw [hfind] at h
      cases h
      exact .inr ⟨fun _ _ => not_callAt_of_find hfind, rfl⟩
  | some item =>
      obtain ⟨k, call, rfl, hfirst⟩ := firstCall_of_find hfind
      rw [hfind] at h
      obtain ⟨receipts, hreceipts, h⟩ := Except.bind_ok h
      cases h
      exact .inl ⟨k, call, receipts, hfirst, hreceipts, rfl⟩

theorem foldlM_concat_eq_ok {start : RecoveredHistory}
    (h : (actions ++ [action]).foldlM (recoverApproved env) start = .ok session') :
    ∃ session, actions.foldlM (recoverApproved env) start = .ok session
      ∧ recoverApproved env session action = .ok session' := by
  rw [List.foldlM_append] at h
  obtain ⟨session, hbefore, hlast⟩ := Except.bind_ok h
  rw [List.foldlM_cons] at hlast
  obtain ⟨last, hlast, hnil⟩ := Except.bind_ok hlast
  cases hnil
  exact ⟨session, hbefore, hlast⟩

theorem recoverApproved_extends (h : recoverApproved env session action = .ok session') :
    Extends session.history session'.history := by
  rcases recoverApproved_eq_ok h with ⟨_, call, receipts, -, -, rfl⟩ | ⟨-, rfl⟩
  · obtain ⟨t, _, hanswered, -⟩ :=
      session.answer_answeredAt call.callId (approvedOutput receipts)
    exact extends_of_answeredAt hanswered
  · exact .refl _

/-- With one more action, its output is the one for the call of its cell. -/
theorem recovers_concat_of_call {receipts : Option (List Receipt)}
    (hcall : CallAt history action.cellId k call)
    (hone : ∀ k' call', CallAt history action.cellId k' call' → k' = k)
    (hreceipts : env.recoverCell action = .ok receipts) (k' : Nat) (output : ToolOutput) :
    recoverAt (env.recovers history actions) k (approvedOutput receipts) k' output
      ↔ env.recovers history (actions ++ [action]) k' output := by
  unfold recoverAt ApprovalEnv.recovers
  simp only [List.filter_append]
  split
  case isTrue hsame =>
    subst hsame
    constructor
    · intro houtput
      refine ⟨call, action, receipts, hcall.1, ?_, hreceipts, houtput⟩
      simp [hcall.2]
    · rintro ⟨call', action', receipts', hget, hlast, hreceipts', houtput⟩
      obtain rfl : call = call' := by
        have h := hcall.1.symm.trans hget
        cases h
        rfl
      obtain rfl : action = action' := by simpa [hcall.2] using hlast
      rw [hreceipts] at hreceipts'
      cases hreceipts'
      exact houtput
  case isFalse hother =>
    refine exists_congr fun call' => exists_congr fun action' => exists_congr fun receipts' => ?_
    refine and_congr_right fun hget => ?_
    have hne : ¬action.cellId = call'.cellId := fun hid => hother (hone k' call' ⟨hget, hid.symm⟩)
    rw [List.filter_singleton, decide_eq_false hne]
    simp

theorem recovers_concat_of_none (hnone : ∀ k call, ¬CallAt history action.cellId k call) (k : Nat)
    (output : ToolOutput) : env.recovers history actions k output
      ↔ env.recovers history (actions ++ [action]) k output := by
  unfold ApprovalEnv.recovers
  refine exists_congr fun call => exists_congr fun action' => exists_congr fun receipts => ?_
  refine and_congr_right fun hget => ?_
  have hne : ¬action.cellId = call.cellId := fun hid => hnone k call ⟨hget, hid.symm⟩
  rw [List.filter_append, List.filter_singleton, decide_eq_false hne]
  simp

/-- Where every approved cell owns its output, all of them land. -/
theorem recoverApproved_lands (hown : OwnsOutputs history actions)
    (h : actions.foldlM (recoverApproved env) ⟨history, false⟩ = .ok session) :
    Lands ModelItem.part ModelItem.shows (env.recovers history actions) history session.history
      ∧ Extends history session.history := by
  induction actions using List.reverseRecOn generalizing session with
  | nil =>
      cases h
      refine ⟨(Lands.refl history).congr fun k output => ?_, .refl _⟩
      simp [ApprovalEnv.recovers]
  | append_singleton actions action ih =>
      obtain ⟨before, hbefore, hlast⟩ := foldlM_concat_eq_ok h
      obtain ⟨hlands, hextends⟩ :=
        ih (fun action haction => hown action (List.mem_append_left _ haction)) hbefore
      refine ⟨?_, hextends.trans (recoverApproved_extends hlast)⟩
      rcases recoverApproved_eq_ok hlast with ⟨k, call, receipts, hfirst, hreceipts, rfl⟩ | ⟨hnone, rfl⟩
      · have hcall := hextends.callAt_iff.1 hfirst.1
        obtain ⟨howns, hone⟩ :=
          hown action (List.mem_append_right _ List.mem_cons_self) k call hcall
        obtain ⟨t, item, hanswered, hitem, hshows⟩ :=
          before.answer_answeredAt call.callId (approvedOutput receipts)
        have hfirstAnswer := hanswered.first_iff.2 ((hextends.ownsFirst_iff hcall.1).2 howns)
        obtain ⟨more, hmore, -⟩ := hanswered.stable
        have hnext := hlands.answer ⟨more, hmore.symm⟩ hanswered.others hfirstAnswer hitem hshows
        exact hnext.congr (recovers_concat_of_call hcall hone hreceipts)
      · refine hlands.congr (recovers_concat_of_none fun k call hcall => ?_)
        exact hnone k call (hextends.callAt_iff.2 hcall)

/-- The outputs of a call are left if no approved cell's call is the owner of the first one. -/
theorem recoverApproved_untouched (hk : k < history.length)
    (hnot : ∀ action ∈ actions, ∀ j call, FirstCall history action.cellId j call →
      ¬OwnsFirst (history.map ModelItem.part) k call.callId)
    (h : actions.foldlM (recoverApproved env) ⟨history, false⟩ = .ok session) :
    Extends history session.history ∧ ∀ i, FirstAnswerOf (session.history.map ModelItem.part) k i →
      FirstAnswerOf (history.map ModelItem.part) k i ∧ session.history[i]? = history[i]? := by
  induction actions using List.reverseRecOn generalizing session with
  | nil =>
      cases h
      exact ⟨.refl _, fun i hi => ⟨hi, rfl⟩⟩
  | append_singleton actions action ih =>
      obtain ⟨before, hbefore, hlast⟩ := foldlM_concat_eq_ok h
      obtain ⟨hextends, hleft⟩ :=
        ih (fun action haction => hnot action (List.mem_append_left _ haction)) hbefore
      refine ⟨hextends.trans (recoverApproved_extends hlast), fun i hi => ?_⟩
      rcases recoverApproved_eq_ok hlast with ⟨j, call, receipts, hfirst, -, rfl⟩ | ⟨-, rfl⟩
      · obtain ⟨t, item, hanswered, -⟩ :=
          before.answer_answeredAt call.callId (approvedOutput receipts)
        have hother : ¬OwnsFirst (before.history.map ModelItem.part) k call.callId := by
          obtain ⟨more, hmore, hanswers⟩ := hextends.parts
          rw [hmore, ownsFirst_append_iff hanswers (by rwa [List.length_map])]
          exact hnot action (List.mem_append_right _ List.mem_cons_self) j call
            (hextends.firstCall_iff.1 hfirst)
        obtain ⟨hi, hsame⟩ := hanswered.untouched hother hi
        obtain ⟨hi, hbefore⟩ := hleft i hi
        exact ⟨hi, hsame.trans hbefore⟩
      · exact hleft i hi

theorem recoverApproved_unchanged
    (h : actions.foldlM (recoverApproved env) ⟨history, false⟩ = .ok session)
    (hunchanged : session.changed = false) : session.history = history := by
  induction actions using List.reverseRecOn generalizing session with
  | nil =>
      cases h
      rfl
  | append_singleton actions action ih =>
      obtain ⟨before, hbefore, hlast⟩ := foldlM_concat_eq_ok h
      rcases recoverApproved_eq_ok hlast with ⟨_, call, receipts, -, -, rfl⟩ | ⟨-, rfl⟩
      · have hsame := RecoveredHistory.answer_unchanged hunchanged
        rw [hsame] at hunchanged ⊢
        exact ih hbefore hunchanged
      · exact ih hbefore hunchanged

/-- A run on a history, in which every cell gives the same receipts. -/
def sameReceipts (history : List ModelItem) (actions : List HostAction)
    (receipts : Option (List Receipt)) : ApprovalEnv where
  work := sharedWork "A"
  session := some {
    key := (sharedWork "A").sessionKey, tenantId := "t", agentId := "a", sessionId := "s"
    threadId := none, request := some (sharedRequest "A"), history := history }
  decided _ := actions
  execute _ := .ok ()
  recoverCell _ := .ok receipts

theorem sameReceipts_eq_ok (receipts : Option (List Receipt)) (start : RecoveredHistory) :
    ∃ session, actions.foldlM (recoverApproved (sameReceipts history actions receipts)) start
      = .ok session := by
  have hstep : ∀ session action, ∃ session', recoverApproved
      (sameReceipts history actions receipts) session action = .ok session' := by
    intro session action
    rw [recoverApproved]
    simp only [sameReceipts, Except.ok_bind]
    split
    case h_1 => exact ⟨_, rfl⟩
    case h_2 => exact ⟨_, rfl⟩
  generalize sameReceipts history actions receipts = env at hstep
  induction actions generalizing start with
  | nil => exact ⟨start, rfl⟩
  | cons action actions ih =>
      obtain ⟨session, hsession⟩ := hstep start action
      obtain ⟨session', hsession'⟩ := ih session
      refine ⟨session', ?_⟩
      rw [List.foldlM_cons, hsession]
      exact hsession'

section Stored

variable {stored : SessionRecord} {request : RequestSnapshot}

theorem executeDecidedApprovals_eq (hstored : env.session = some stored)
    (hrequest : ownRequest env.work stored.request = some request) :
    executeDecidedApprovals env =
      if 64 < (env.decided request.requestVersion).length then
        .error (.error "approval recovery exceeds 64 actions")
      else do
        let recovered ← (env.decided request.requestVersion).foldlM (recoverApproved env)
          ⟨stored.history, false⟩
        return if recovered.changed then some { stored with history := recovered.history } else none := by
  unfold executeDecidedApprovals
  rw [hstored]
  dsimp only
  rw [hrequest]
  dsimp only
  split
  case isTrue => rfl
  case isFalse =>
    refine congrArg _ (funext fun recovered => ?_)
    cases recovered.changed with
    | true => rfl
    | false => rfl

theorem exists_saved (hstored : env.session = some stored)
    (hrequest : ownRequest env.work stored.request = some request)
    (hcount : (env.decided request.requestVersion).length ≤ 64)
    (hsession : (env.decided request.requestVersion).foldlM (recoverApproved env)
      ⟨stored.history, false⟩ = .ok session) :
    ∃ saved, executeDecidedApprovals env = .ok saved := by
  rw [executeDecidedApprovals_eq hstored hrequest, if_neg (Nat.not_lt_of_le hcount), hsession]
  exact ⟨_, rfl⟩

/-- The history that is stored afterwards is what the loop made of it. -/
theorem executeDecidedApprovals_history {saved : Option SessionRecord}
    (hstored : env.session = some stored)
    (hrequest : ownRequest env.work stored.request = some request)
    (h : executeDecidedApprovals env = .ok saved) :
    (env.decided request.requestVersion).length ≤ 64 ∧ ∃ session,
      (env.decided request.requestVersion).foldlM (recoverApproved env) ⟨stored.history, false⟩
        = .ok session ∧ (saved.getD stored).history = session.history := by
  rw [executeDecidedApprovals_eq hstored hrequest] at h
  split at h
  case isTrue => cases h
  case isFalse hcount =>
    obtain ⟨session, hsession, h⟩ := Except.bind_ok h
    cases h
    refine ⟨Nat.le_of_not_lt hcount, session, hsession, ?_⟩
    cases hchanged : session.changed with
    | true => rfl
    | false => exact (recoverApproved_unchanged hsession hchanged).symm

end Stored

/-- If outputs land whatever the receipts are, every call of an approved cell owns the first output
    under the id of some approved call: two outputs that differ can not both stand elsewhere. -/
theorem owned_of_land (hland : ApprovalsLand history actions) (hcount : actions.length ≤ 64)
    (haction : action ∈ actions) (hcall : CallAt history action.cellId k call) :
    ∃ action' ∈ actions, ∃ j call', FirstCall history action'.cellId j call'
      ∧ OwnsFirst (history.map ModelItem.part) k call'.callId := by
  by_contra hnone
  have hnot : ∀ action ∈ actions, ∀ j call', FirstCall history action.cellId j call' →
      ¬OwnsFirst (history.map ModelItem.part) k call'.callId :=
    fun action' haction' j call' hfirst howns => hnone ⟨action', haction', j, call', hfirst, howns⟩
  have hk : k < history.length := (List.getElem?_eq_some_iff.1 hcall.1).1
  have hstands : ∀ receipts : Option (List Receipt), ∃ i item,
      FirstAnswerOf (history.map ModelItem.part) k i ∧ history[i]? = some item
        ∧ item.shows (approvedOutput receipts) := by
    intro receipts
    obtain ⟨session, hsession⟩ : ∃ session, actions.foldlM
        (recoverApproved (sameReceipts history actions receipts)) ⟨history, false⟩ = .ok session :=
      sameReceipts_eq_ok receipts ⟨history, false⟩
    obtain ⟨saved, hsaved⟩ : ∃ saved, executeDecidedApprovals (sameReceipts history actions receipts)
        = .ok saved := exists_saved rfl rfl hcount hsession
    have hlands := hland _ _ _ _ rfl rfl rfl rfl hsaved
    obtain ⟨-, session', hsession', hhistory⟩ := executeDecidedApprovals_history rfl rfl hsaved
    obtain rfl := Except.ok.inj (hsession.symm.trans hsession')
    rw [hhistory] at hlands
    have hmem : action ∈ actions.filter fun action => action.cellId = call.cellId :=
      List.mem_filter.2 ⟨haction, decide_eq_true hcall.2.symm⟩
    obtain ⟨last, hlast⟩ := Option.isSome_iff_exists.1
      (List.getLast?_isSome.2 (List.ne_nil_of_mem hmem))
    obtain ⟨i, item, hi, hitem, hshows⟩ :=
      hlands.landed k _ ⟨call, last, receipts, hcall.1, hlast, rfl, rfl⟩
    obtain ⟨-, hleft⟩ := recoverApproved_untouched hk hnot hsession
    obtain ⟨hi, hsame⟩ := hleft i hi
    exact ⟨i, item, hi, hsame ▸ hitem, hshows⟩
  obtain ⟨i, item, hi, hitem, hshows⟩ := hstands none
  obtain ⟨i', item', hi', hitem', hshows'⟩ := hstands (some [])
  obtain rfl := hi.unique hi'
  obtain rfl := Option.some.inj (hitem.symm.trans hitem')
  have htext := Option.some.inj (hshows.symm.trans hshows')
  revert htext
  decide +kernel

/-- Outputs of approved cells land, whatever the receipts are, exactly where every approved cell
    owns its output. -/
theorem approvalsLand_iff :
    ApprovalsLand history actions ↔ (actions.length ≤ 64 → OwnsOutputs history actions) := by
  constructor
  · intro hland hcount
    have howns : ∀ action ∈ actions, ∀ k call, FirstCall history action.cellId k call →
        OwnsFirst (history.map ModelItem.part) k call.callId := by
      intro action haction k call hfirst
      obtain ⟨_, -, _, call', -, howns⟩ := owned_of_land hland hcount haction hfirst.1
      have hasks := howns.asks
      rw [List.getElem?_map, hfirst.1.1] at hasks
      have hid : call.callId = call'.callId := LogPart.ask.inj (Option.some.inj hasks)
      rw [hid]
      exact howns
    have hfirst : ∀ action ∈ actions, ∀ k call, CallAt history action.cellId k call →
        FirstCall history action.cellId k call := by
      intro action haction k call hcall
      obtain ⟨action', haction', j, call', hfirst, hk⟩ := owned_of_land hland hcount haction hcall
      obtain rfl := hk.unique (howns action' haction' j call' hfirst)
      have hsame := hcall.1.symm.trans hfirst.1.1
      cases hsame
      rw [← hcall.2, hfirst.1.2]
      exact hfirst
    intro action haction k call hcall
    have hk := hfirst action haction k call hcall
    refine ⟨howns action haction k call hk, fun k' call' hcall' => ?_⟩
    have hk' := hfirst action haction k' call' hcall'
    rcases Nat.lt_trichotomy k' k with hlt | rfl | hgt
    · exact absurd hcall' (hk.2 k' hlt call')
    · rfl
    · exact absurd hcall (hk'.2 k hgt call)
  · intro hown env stored request saved hstored hhistory hrequest hactions h
    subst hhistory hactions
    obtain ⟨hcount, session, hsession, hstoredAfter⟩ :=
      executeDecidedApprovals_history hstored hrequest h
    rw [hstoredAfter]
    exact (recoverApproved_lands (hown hcount) hsession).1.outputs

end Approvals

end LingxiOS
