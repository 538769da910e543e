-- SUMMARY: restoreSession answers the pending calls, or fails.
import LingxiOS.Runtime.Restore

/-! # Restoring a Session

`restoreSession` walks the calls of the stored history that no later output
answers, in the order they were made, and pushes an output for each. -/

namespace LingxiOS

/-- What a restore works on: the saved request, the history, and the artifacts found. -/
structure RestoredSession where
  request : Option RequestSnapshot
  history : List ModelItem
  artifacts : List KernelArtifact := []

/-- The session with a call answered. -/
def RestoredSession.answer (session : RestoredSession) (call : FunctionCall)
    (restored : RestoredCall) : RestoredSession where
  request := restored.request
  history := session.history ++ [.functionCallOutput call.callId restored.output]
  artifacts := session.artifacts ++ restored.artifacts

def restoreCalls (env : RestoreEnv) (session : RestoredSession) :
    List FunctionCall → Except Failure RestoredSession
  | [] => .ok session
  | call :: calls => do
      let restored ← restoreCall env session.request call
      restoreCalls env (session.answer call restored) calls

/-- The pending calls of the history, in the order they were made. -/
def pendingList (history : List ModelItem) : List FunctionCall := (pendingCalls history).values

def restoreHistory (env : RestoreEnv) (request : Option RequestSnapshot)
    (history : List ModelItem) : Except Failure RestoredSession :=
  restoreCalls env ⟨request, history, []⟩ (pendingList history)

/-! ## Pending calls -/

section Pending

variable {history items : List ModelItem} {item : ModelItem} {call : FunctionCall} {callId : String}

/-- What an item does to the pending call under an id. -/
theorem get?_trackCall (pending : JsMap String FunctionCall) :
    (trackCall pending item).get? callId = match item with
      | .message _ _ => pending.get? callId
      | .functionCall call => if callId = call.callId then some call else pending.get? callId
      | .functionCallOutput answered _ =>
          if callId = answered then none else pending.get? callId := by
  cases item with
  | message role content => rfl
  | functionCall call => exact JsMap.get?_set _ _ _ _
  | functionCallOutput answered output => exact JsMap.get?_delete _ _ _

theorem pendingCalls_concat : pendingCalls (history ++ [item]) = trackCall (pendingCalls history) item := by
  simp [pendingCalls]

theorem keyedBy_pendingCalls : (pendingCalls history).KeyedBy FunctionCall.callId := by
  induction history using List.reverseRecOn with
  | nil =>
      intro k a h
      cases h
  | append_singleton history item ih =>
      rw [pendingCalls_concat]
      intro k a h
      rw [get?_trackCall] at h
      cases item with
      | message role content => exact ih k a h
      | functionCall call =>
          dsimp only at h
          split at h
          · rename_i hk
            cases h
            exact hk.symm
          · exact ih k a h
      | functionCallOutput answered output =>
          dsimp only at h
          split at h
          · cases h
          · exact ih k a h

theorem mem_pendingList_iff :
    call ∈ pendingList history ↔ (pendingCalls history).get? call.callId = some call := by
  unfold pendingList
  rw [JsMap.mem_values_iff]
  constructor
  · rintro ⟨k, hk⟩
    rw [keyedBy_pendingCalls k call hk]
    exact hk
  · intro h
    exact ⟨call.callId, h⟩

/-- A pending call of an extended history was pending before, or is one of the new items. -/
theorem mem_pendingList_append (h : call ∈ pendingList (history ++ items)) :
    call ∈ pendingList history ∨ ModelItem.functionCall call ∈ items := by
  induction items using List.reverseRecOn with
  | nil =>
      rw [List.append_nil] at h
      exact .inl h
  | append_singleton items item ih =>
      rw [mem_pendingList_iff, ← List.append_assoc, pendingCalls_concat, get?_trackCall] at h
      have hkept : (pendingCalls (history ++ items)).get? call.callId = some call →
          call ∈ pendingList history ∨ ModelItem.functionCall call ∈ items ++ [item] := by
        intro hget
        rcases ih (mem_pendingList_iff.2 hget) with hbefore | hnew
        · exact .inl hbefore
        · exact .inr (List.mem_append_left _ hnew)
      cases item with
      | message role content => exact hkept h
      | functionCall other =>
          dsimp only at h
          split at h
          · cases h
            right
            simp
          · exact hkept h
      | functionCallOutput answered output =>
          dsimp only at h
          split at h
          · cases h
          · exact hkept h

/-- A pending call of the end of a history is pending in the whole of it. -/
theorem mem_pendingList_of_suffix {kept : List ModelItem} (hkept : kept <:+ history)
    (h : call ∈ pendingList kept) : call ∈ pendingList history := by
  obtain ⟨dropped, rfl⟩ := hkept
  rw [mem_pendingList_iff] at h ⊢
  generalize call.callId = callId at h ⊢
  induction kept using List.reverseRecOn with
  | nil => cases h
  | append_singleton kept item ih =>
      rw [pendingCalls_concat, get?_trackCall] at h
      rw [← List.append_assoc, pendingCalls_concat, get?_trackCall]
      cases item with
      | message role content => exact ih h
      | functionCall other =>
          dsimp only at h ⊢
          split at h
          · rename_i hid
            rw [if_pos hid]
            exact h
          · rename_i hid
            rw [if_neg hid]
            exact ih h
      | functionCallOutput answered output =>
          dsimp only at h ⊢
          split at h
          · cases h
          · rename_i hid
            rw [if_neg hid]
            exact ih h

end Pending

/-! ## The loop -/

section Loop

variable {env : RestoreEnv} {session restored : RestoredSession} {calls : List FunctionCall}

theorem restoreCalls_cons_eq_ok {call : FunctionCall}
    (h : restoreCalls env session (call :: calls) = .ok restored) :
    ∃ answered, restoreCall env session.request call = .ok answered
      ∧ restoreCalls env (session.answer call answered) calls = .ok restored := by
  unfold restoreCalls at h
  exact Except.bind_ok h

/-- A finished loop has answered its calls, and no others. -/
theorem restoreCalls_pending (h : restoreCalls env session calls = .ok restored) (callId : String) :
    (pendingCalls restored.history).get? callId
      = if callId ∈ calls.map FunctionCall.callId then none
        else (pendingCalls session.history).get? callId := by
  induction calls generalizing session with
  | nil =>
      cases h
      simp
  | cons call calls ih =>
      obtain ⟨answered, _, hrest⟩ := restoreCalls_cons_eq_ok h
      rw [ih hrest, RestoredSession.answer, pendingCalls_concat, get?_trackCall]
      by_cases hcall : callId = call.callId
      · simp [hcall]
      · simp [hcall]

/-- A finished restore leaves no call pending. -/
theorem pendingList_restoreHistory {request : Option RequestSnapshot} {history : List ModelItem}
    (h : restoreHistory env request history = .ok restored) : pendingList restored.history = [] := by
  rw [List.eq_nil_iff_forall_not_mem]
  intro call hcall
  rw [mem_pendingList_iff, restoreCalls_pending h] at hcall
  split at hcall
  · cases hcall
  · rename_i hnot
    exact hnot (List.mem_map_of_mem (mem_pendingList_iff.2 hcall))

/-- The call a restore fails at. -/
def FailsAt (env : RestoreEnv) (request : Option RequestSnapshot) (history : List ModelItem)
    (call : FunctionCall) : Prop :=
  ∃ before later between failure, pendingList history = before ++ call :: later
    ∧ restoreCalls env ⟨request, history, []⟩ before = .ok between
    ∧ restoreCall env between.request call = .error failure

theorem restoreCalls_eq_error {failure : Failure}
    (h : restoreCalls env session calls = .error failure) :
    ∃ before call later between, calls = before ++ call :: later
      ∧ restoreCalls env session before = .ok between
      ∧ restoreCall env between.request call = .error failure := by
  induction calls generalizing session with
  | nil => cases h
  | cons call calls ih =>
      unfold restoreCalls at h
      cases hcall : restoreCall env session.request call with
      | error e =>
          rw [hcall] at h
          cases h
          exact ⟨[], call, calls, session, rfl, rfl, hcall⟩
      | ok answered =>
          rw [hcall, Except.ok_bind] at h
          obtain ⟨before, failing, later, between, rfl, hbefore, hfailing⟩ := ih h
          refine ⟨call :: before, failing, later, between, rfl, ?_, hfailing⟩
          unfold restoreCalls
          rw [hcall, Except.ok_bind]
          exact hbefore

/-- A restore that fails does so at one of the pending calls. -/
theorem exists_failsAt {request : Option RequestSnapshot} {history : List ModelItem}
    {failure : Failure} (h : restoreHistory env request history = .error failure) :
    ∃ call ∈ pendingList history, FailsAt env request history call := by
  obtain ⟨before, call, later, between, hcalls, hbefore, hfailing⟩ := restoreCalls_eq_error h
  refine ⟨call, ?_, before, later, between, failure, hcalls, hbefore, hfailing⟩
  rw [hcalls]
  simp

end Loop

end LingxiOS
