-- SUMMARY: A run view never goes back, whatever order its items come in and however often.
import LingxiOS.Ui.RunView

/-! # Monotone Views

Items come over two channels and are replayed after reconnects. No counter of the view
decreases, a committed message gives way to a newer result only, an item that comes
twice counts once, and a closed attempt shows no draft again. -/

namespace LingxiOS

namespace Ui

open App (RunState PreviewUpdate RunStreamEvent fenceOf)

/-! ## Items -/

/-- What a view is given: items of the stream, and messages of the committed channel. -/
inductive Item where
  | stream (item : RunStreamEvent)
  | message (message : AssistantMessage) (commit : Commit)

def consume (view : RunView) : Item → Except String RunView
  | .stream item => consumeRunStreamEvent view item
  | .message message commit => consumeAssistantMessage view message commit

/-- The view its caller holds after an item. -/
def apply (view : RunView) (item : Item) : RunView :=
  match consume view item with
  | .ok view' => view'
  | .error _ => view

/-- The result of a state is not newer than its run. -/
def Item.Admissible : Item → Prop
  | .stream (.state state) =>
      (∀ fence, state.run.resultFence = some fence → fence ≤ state.run.fence) ∧
        ∀ message, state.message = some message →
          message.envelope.requestVersion ≤ state.run.requestVersion
  | _ => True

/-- A new view under any items. -/
def views : TransitionSystem RunView Item where
  start view := ∃ runId, view = createRunView runId
  step view item view' := item.Admissible ∧ view' = apply view item

/-! ## What stays -/

/-- The message with the fence it was committed under. -/
structure SameMessage (view view' : RunView) : Prop where
  message : view'.message = view.message
  messageFence : view'.messageFence = view.messageFence

/-- A message of a later attempt that is not of an older version. -/
structure NewMessage (view view' : RunView) : Prop where
  messageFence : view.messageFence < view'.messageFence
  message : ∃ message', view'.message = some message' ∧ ∀ message, view.message = some message →
    message.envelope.requestVersion ≤ message'.envelope.requestVersion

/-- A view after some items. -/
structure Later (view view' : RunView) : Prop where
  runId : view'.runId = view.runId
  lastSeq : view.lastSeq ≤ view'.lastSeq
  fence : view.fence ≤ view'.fence
  requestVersion : view.requestVersion ≤ view'.requestVersion
  closedFence : view.closedFence ≤ view'.closedFence
  message : SameMessage view view' ∨ NewMessage view view'

theorem Later.refl (view : RunView) : Later view view :=
  ⟨rfl, Nat.le_refl _, Nat.le_refl _, Int.le_refl _, Nat.le_refl _, .inl ⟨rfl, rfl⟩⟩

theorem Later.messageFence {view view' : RunView} (h : Later view view') :
    view.messageFence ≤ view'.messageFence := by
  rcases h.message with h | h
  · exact Nat.le_of_eq h.messageFence.symm
  · exact Nat.le_of_lt h.messageFence

/-- The fences and the message of a view agree. -/
structure WellFormed (view : RunView) : Prop where
  closedFence : view.closedFence ≤ view.fence
  messageFence : view.messageFence ≤ view.fence
  version : ∀ message, view.message = some message →
    message.envelope.requestVersion ≤ view.requestVersion
  empty : view.message = none → view.messageFence = 0

theorem wellFormed_create (runId : String) : WellFormed (createRunView runId) where
  closedFence := Nat.le_refl 0
  messageFence := Nat.le_refl 0
  version _ h := absurd h (by simp [createRunView])
  empty _ := rfl

/-! ## Events -/

/-- The fields an event changes first, and the stages after that leave alone. -/
structure SameKeys (next next' : RunView) : Prop where
  runId : next'.runId = next.runId
  lastSeq : next'.lastSeq = next.lastSeq
  fence : next'.fence = next.fence
  messageFence : next'.messageFence = next.messageFence
  message : next'.message = next.message

theorem SameKeys.refl (next : RunView) : SameKeys next next := ⟨rfl, rfl, rfl, rfl, rfl⟩

theorem SameKeys.trans {a b c : RunView} (h : SameKeys a b) (h' : SameKeys b c) : SameKeys a c :=
  ⟨h'.runId.trans h.runId, h'.lastSeq.trans h.lastSeq, h'.fence.trans h.fence,
    h'.messageFence.trans h.messageFence, h'.message.trans h.message⟩

/-- A stage keeps the version up and closes at most the attempt of its event. -/
structure Stage (view next next' : RunView) : Prop where
  keys : SameKeys next next'
  version : view.requestVersion ≤ next.requestVersion →
    view.requestVersion ≤ next'.requestVersion
  closedFence : next'.closedFence = next.closedFence ∨ next'.closedFence = next.fence

theorem Stage.refl (view next : RunView) : Stage view next next := ⟨.refl next, id, .inl rfl⟩

theorem Stage.trans {view a b c : RunView} (h : Stage view a b) (h' : Stage view b c) :
    Stage view a c := by
  refine ⟨h.keys.trans h'.keys, h'.version ∘ h.version, ?_⟩
  rcases h'.closedFence with hsame | hfence
  · exact h.closedFence.imp hsame.trans hsame.trans
  · exact .inr (hfence.trans h.keys.fence)

section

variable (view : RunView) (event : RunEvent) (next : RunView)

theorem stage_started : Stage view next (started view event next) := by
  unfold started
  split
  · exact ⟨⟨rfl, rfl, rfl, rfl, rfl⟩, id, .inl rfl⟩
  · exact .refl view next

theorem stage_closed (lifecycle : Option WorkStatus) :
    Stage view next { closed next with lifecycle := lifecycle } :=
  ⟨⟨rfl, rfl, rfl, rfl, rfl⟩, id, .inr rfl⟩

theorem stage_committed : Stage view next (committed event next) := by
  unfold committed
  split
  · exact stage_closed view next _
  · exact .refl view next

theorem stage_ended : Stage view next (ended event next) := by
  unfold ended
  split
  · exact stage_closed view next _
  · split
    · exact stage_closed view next _
    · exact .refl view next

theorem stage_streamed : Stage view next (streamed view event next) := by
  unfold streamed
  split
  · rename_i delta hdelta
    refine ⟨⟨rfl, rfl, rfl, rfl, rfl⟩, fun hversion => ?_, .inl rfl⟩
    unfold deltaText at hdelta
    split at hdelta
    · split at hdelta
      · rename_i hfound
        split at hdelta
        · rename_i hle
          simpa [hfound] using hle
        · cases hdelta
      · rename_i hfound
        simpa [hfound] using hversion
      · cases hdelta
    · cases hdelta
  · exact .refl view next

theorem stage_concluded : Stage view next (concluded view event next) := by
  unfold concluded
  split
  · rename_i outcome houtcome
    have hversion : view.requestVersion ≤ outcomeVersion outcome := by
      have hshown := (Option.filter_eq_some_iff.1 houtcome).2
      simp only [Bool.and_eq_true, decide_eq_true_eq] at hshown
      exact hshown.2
    split
    · exact ⟨⟨rfl, rfl, rfl, rfl, rfl⟩, fun _ => hversion, .inl rfl⟩
    · exact ⟨⟨rfl, rfl, rfl, rfl, rfl⟩, fun _ => hversion, .inl rfl⟩
  · exact .refl view next

/-- All that follows once an event's attempt is known. -/
theorem stage_all : Stage view next (ended event (concluded view event (committed event
    (streamed view event (started view event next))))) :=
  (stage_started view event next).trans <| (stage_streamed view event _).trans <|
    (stage_committed view event _).trans <| (stage_concluded view event _).trans <|
    stage_ended view event _

end

section

variable {view : RunView} {event : RunEvent}

theorem takesEvent_iff : takesEvent view event = true ↔ event.runId = view.runId ∧
    event.visibility = .user ∧ isSafeInteger event.seq = true ∧ view.lastSeq < event.seq := by
  simp only [takesEvent, Bool.and_eq_true, decide_eq_true_eq, and_assoc]

/-- An event that is taken is the last one, and is of the view's attempt or of an older one. -/
theorem consumeRunEvent_taken (h : takesEvent view event = true) :
    (consumeRunEvent view event).lastSeq = event.seq ∧
      ((fenceOf event.seq < view.fence ∧ consumeRunEvent view event
          = { view with lastSeq := event.seq }) ∨
        (view.fence ≤ fenceOf event.seq ∧ (consumeRunEvent view event).fence = fenceOf event.seq ∧
          Stage view { view with lastSeq := event.seq, fence := fenceOf event.seq }
            (consumeRunEvent view event))) := by
  simp only [consumeRunEvent, h, if_true]
  split
  · rename_i hbehind
    exact ⟨rfl, .inl ⟨hbehind, rfl⟩⟩
  · rename_i hcurrent
    have hstage := stage_all view event
      { view with lastSeq := event.seq, fence := fenceOf event.seq }
    exact ⟨hstage.keys.lastSeq, .inr ⟨Nat.le_of_not_lt hcurrent, hstage.keys.fence, hstage⟩⟩

theorem later_consumeRunEvent (hview : WellFormed view) :
    Later view (consumeRunEvent view event) ∧ WellFormed (consumeRunEvent view event) := by
  cases htakes : takesEvent view event with
  | false =>
      rw [consumeRunEvent, if_neg (by simp [htakes])]
      exact ⟨.refl view, hview⟩
  | true =>
      have hseq := Nat.le_of_lt (takesEvent_iff.1 htakes).2.2.2
      obtain ⟨-, ⟨-, hsame⟩ | ⟨hle, hfence, hstage⟩⟩ := consumeRunEvent_taken htakes
      · rw [hsame]
        exact ⟨⟨rfl, hseq, Nat.le_refl _, Int.le_refl _, Nat.le_refl _, .inl ⟨rfl, rfl⟩⟩,
          ⟨hview.closedFence, hview.messageFence, hview.version, hview.empty⟩⟩
      · have hkeys := hstage.keys
        have hversion := hstage.version (Int.le_refl _)
        have hclosed : (consumeRunEvent view event).closedFence = view.closedFence ∨
            (consumeRunEvent view event).closedFence = fenceOf event.seq := hstage.closedFence
        have hbound := hview.closedFence
        refine ⟨⟨hkeys.runId, hkeys.lastSeq ▸ hseq, hfence ▸ hle, hversion, ?_,
          .inl ⟨hkeys.message, hkeys.messageFence⟩⟩, ⟨?_, ?_, ?_, ?_⟩⟩
        · omega
        · omega
        · rw [hkeys.messageFence, hfence]
          exact Nat.le_trans hview.messageFence hle
        · intro message hmessage
          rw [hkeys.message] at hmessage
          exact Int.le_trans (hview.version message hmessage) hversion
        · rw [hkeys.message, hkeys.messageFence]
          exact hview.empty

theorem consumeRunEvent_twice :
    consumeRunEvent (consumeRunEvent view event) event = consumeRunEvent view event := by
  cases htakes : takesEvent view event with
  | false =>
      have hsame : consumeRunEvent view event = view := by
        rw [consumeRunEvent, if_neg (by simp [htakes])]
      rw [hsame, hsame]
  | true =>
      have hlast := (consumeRunEvent_taken htakes).1
      rw [consumeRunEvent, if_neg fun hagain => ?_]
      have hlt := (takesEvent_iff.1 hagain).2.2.2
      omega

end

/-! ## Messages -/

section

variable {view view' : RunView} {message : AssistantMessage} {commit : Commit}

/-- The message of this result is the one the view shows. -/
def Accepts (view : RunView) (message : AssistantMessage) (commit : Commit) : Prop :=
  checkMessage view message commit = .ok () ∧
    (holdsResult view commit = true ∨ takesMessage view message commit = true)

theorem consumeAssistantMessage_ok_iff :
    consumeAssistantMessage view message commit = .ok view' ↔
      checkMessage view message commit = .ok () ∧ view' =
        if holdsResult view commit = false ∧ takesMessage view message commit = true then
          showMessage view message commit
        else view := by
  simp only [consumeAssistantMessage, Except.bind_eq_ok_iff]
  constructor
  · rintro ⟨⟨⟩, hcheck, h⟩
    refine ⟨hcheck, ?_⟩
    cases hholds : holdsResult view commit <;> cases htakes : takesMessage view message commit <;>
      simpa [hholds, htakes, eq_comm] using h
  · rintro ⟨hcheck, rfl⟩
    refine ⟨(), hcheck, ?_⟩
    cases holdsResult view commit <;> cases takesMessage view message commit <;> rfl

theorem takesMessage_iff : takesMessage view message commit = true ↔
    view.requestVersion ≤ message.envelope.requestVersion ∧ view.messageFence ≤ commit.fence ∧
      (commit.fence ≠ view.messageFence ∨ view.resultId = some commit.resultId) := by
  simp only [takesMessage, Bool.and_eq_true, Bool.or_eq_true, decide_eq_true_eq, and_assoc]

theorem holdsResult_iff : holdsResult view commit = true ↔ view.message.isSome = true ∧
    commit.fence = view.messageFence ∧ view.resultId = some commit.resultId := by
  simp only [holdsResult, Bool.and_eq_true, decide_eq_true_eq, and_assoc]

theorem checkMessage_pos (h : checkMessage view message commit = .ok ()) : 1 ≤ commit.fence := by
  unfold checkMessage at h
  dsimp only at h
  split at h
  · cases h
  · split at h
    · cases h
    · split at h
      · cases h
      · rename_i hcommit
        simp only [not_or, Nat.not_lt] at hcommit
        exact hcommit.2.2

theorem checkMessage_congr (h : view'.runId = view.runId) :
    checkMessage view' message commit = checkMessage view message commit := by
  simp only [checkMessage, h]

/-- A message that is not held and is taken is of a later attempt. -/
theorem fence_lt_of_takes (hview : WellFormed view)
    (hcheck : checkMessage view message commit = .ok ())
    (hholds : holdsResult view commit = false) (htakes : takesMessage view message commit = true) :
    view.messageFence < commit.fence := by
  obtain ⟨-, hle, hresult⟩ := takesMessage_iff.1 htakes
  refine Nat.lt_of_le_of_ne hle fun hfence => ?_
  cases hmessage : view.message with
  | none =>
      have hzero := hview.empty hmessage
      have hpos := checkMessage_pos hcheck
      omega
  | some shown =>
      rcases hresult with hne | hsame
      · exact hne hfence.symm
      · have hheld := holdsResult_iff.2 ⟨by simp [hmessage], hfence.symm, hsame⟩
        simp [hholds] at hheld

theorem later_showMessage (hview : WellFormed view) (hfence : view.messageFence < commit.fence)
    (hversion : view.requestVersion ≤ message.envelope.requestVersion) :
    Later view (showMessage view message commit) ∧
      WellFormed (showMessage view message commit) := by
  have hnew (view' : RunView) (hshown : view'.message = some message)
      (hcommit : view'.messageFence = commit.fence) : NewMessage view view' :=
    ⟨hcommit ▸ hfence, message, hshown, fun old hold =>
      Int.le_trans (hview.version old hold) hversion⟩
  have hsame (view' : RunView) (hshown : view'.message = some message)
      (hrequest : view'.requestVersion = max view.requestVersion message.envelope.requestVersion) :
      ∀ shown, view'.message = some shown →
        shown.envelope.requestVersion ≤ view'.requestVersion := by
    intro shown hmessage
    obtain rfl := Option.some.inj (hshown.symm.trans hmessage)
    rw [hrequest]
    exact Int.le_max_right _ _
  unfold showMessage
  dsimp only
  split
  · rename_i hcurrent
    exact ⟨⟨rfl, Nat.le_refl _, hcurrent, Int.le_max_left _ _,
        Nat.le_trans hview.closedFence hcurrent, .inr (hnew _ rfl rfl)⟩,
      ⟨Nat.le_refl _, Nat.le_refl _, hsame _ rfl rfl, nofun⟩⟩
  · rename_i hbehind
    exact ⟨⟨rfl, Nat.le_refl _, Nat.le_refl _, Int.le_max_left _ _, Nat.le_refl _,
        .inr (hnew _ rfl rfl)⟩,
      ⟨hview.closedFence, Nat.le_of_lt (Nat.lt_of_not_le hbehind), hsame _ rfl rfl, nofun⟩⟩

theorem later_consumeAssistantMessage (hview : WellFormed view)
    (h : consumeAssistantMessage view message commit = .ok view') :
    Later view view' ∧ WellFormed view' := by
  obtain ⟨hcheck, rfl⟩ := consumeAssistantMessage_ok_iff.1 h
  split
  · rename_i hshows
    exact later_showMessage hview (fence_lt_of_takes hview hcheck hshows.1 hshows.2)
      (takesMessage_iff.1 hshows.2).1
  · exact ⟨.refl view, hview⟩

/-- The fields a shown message sets, and those it keeps. -/
structure ShowsMessage (view : RunView) (message : AssistantMessage) (commit : Commit)
    (shown : RunView) : Prop where
  runId : shown.runId = view.runId
  message : shown.message = some message
  messageFence : shown.messageFence = commit.fence
  resultId : shown.resultId = some commit.resultId
  requestVersion : view.requestVersion ≤ shown.requestVersion
  closedFence : shown.closedFence = view.closedFence ∨ shown.closedFence = commit.fence

theorem showsMessage (view : RunView) (message : AssistantMessage) (commit : Commit) :
    ShowsMessage view message commit (showMessage view message commit) := by
  unfold showMessage
  dsimp only
  split
  · exact ⟨rfl, rfl, rfl, rfl, Int.le_max_left _ _, .inr rfl⟩
  · exact ⟨rfl, rfl, rfl, rfl, Int.le_max_left _ _, .inl rfl⟩

/-- A view that has consumed a message, and only moved on in version since, makes nothing
    more of it. -/
theorem consumeAssistantMessage_again {later : RunView}
    (h : consumeAssistantMessage view message commit = .ok view') (hrunId : later.runId = view.runId)
    (hmessage : later.message = view'.message) (hfence : later.messageFence = view'.messageFence)
    (hresult : later.resultId = view'.resultId)
    (hversion : view.requestVersion ≤ later.requestVersion) :
    consumeAssistantMessage later message commit = .ok later := by
  obtain ⟨hcheck, rfl⟩ := consumeAssistantMessage_ok_iff.1 h
  refine consumeAssistantMessage_ok_iff.2 ⟨(checkMessage_congr hrunId).trans hcheck, ?_⟩
  rw [if_neg]
  rintro ⟨hholds, htakes⟩
  split at hmessage
  · rename_i hshows
    have hshown := showsMessage view message commit
    rw [if_pos hshows] at hfence hresult
    have hheld : holdsResult later commit = true := holdsResult_iff.2
      ⟨by simp [hmessage, hshown.message], (hfence.trans hshown.messageFence).symm,
        hresult.trans hshown.resultId⟩
    simp [hholds] at hheld
  · rename_i hkept
    rw [if_neg hkept] at hfence hresult
    have hheld : holdsResult later commit = holdsResult view commit := by
      simp only [holdsResult, hmessage, hfence, hresult]
    obtain ⟨hle, hbound, hother⟩ := takesMessage_iff.1 htakes
    rw [hfence] at hbound hother
    rw [hresult] at hother
    exact hkept ⟨hheld ▸ hholds, takesMessage_iff.2 ⟨Int.le_trans hversion hle, hbound, hother⟩⟩

end

/-! ## States -/

section

variable {view view' next : RunView} {state : RunState}

theorem takesState_iff : takesState view state = true ↔ state.run.id = view.runId ∧
    view.requestVersion ≤ state.run.requestVersion ∧ view.fence ≤ state.run.fence ∧
      (state.run.fence ≠ view.messageFence ∨
        view.messageFence ≤ state.run.resultFence.getD 0) := by
  simp only [takesState, Bool.and_eq_true, Bool.or_eq_true, decide_eq_true_eq, and_assoc]

theorem consumeRunState_ok_iff : consumeRunState view state = .ok view' ↔
    takesState view state = false ∧ view' = view ∨
      takesState view state = true ∧ ∃ next, view' = showRun view state next ∧
        (stateMessage state = none ∧ next = view ∨ ∃ message commit,
          stateMessage state = some (message, commit) ∧
            consumeAssistantMessage view message commit = .ok next) := by
  unfold consumeRunState
  cases takesState view state with
  | false => simp [eq_comm]
  | true =>
      cases hmessage : stateMessage state with
      | none => simp [eq_comm]
      | some found =>
          obtain ⟨message, commit⟩ := found
          simp only [if_true, Except.bind_eq_ok_iff, Except.pure_eq_ok, Except.ok.injEq]
          simp [eq_comm, and_comm]

/-- The fields a state sets, whatever else it shows. -/
structure ShowsRun (state : RunState) (next shown : RunView) : Prop where
  runId : shown.runId = next.runId
  lastSeq : shown.lastSeq = next.lastSeq
  fence : shown.fence = state.run.fence
  requestVersion : shown.requestVersion = state.run.requestVersion
  message : shown.message = next.message
  messageFence : shown.messageFence = next.messageFence
  resultId : shown.resultId = next.resultId
  closedFence : shown.closedFence
    = if isActive state.run.status then next.closedFence else state.run.fence

theorem showsRun (view : RunView) (state : RunState) (next : RunView) :
    ShowsRun state next (showRun view state next) := by
  have hclosed : (if isActive state.run.status then next.previewClosedFence
      else some state.run.fence).getD 0
      = if isActive state.run.status then next.closedFence else state.run.fence := by
    split <;> rfl
  unfold showRun
  dsimp only
  split
  · exact ⟨rfl, rfl, rfl, rfl, rfl, rfl, rfl, hclosed⟩
  · exact ⟨rfl, rfl, rfl, rfl, rfl, rfl, rfl, hclosed⟩

theorem showRun_twice (view : RunView) (state : RunState) (next : RunView) :
    showRun (showRun view state next) state (showRun view state next) = showRun view state next := by
  cases hactive : isActive state.run.status with
  | false => simp [showRun, hactive, RunView.withoutDraft]
  | true =>
      by_cases hsame : state.run.fence = view.fence ∧ state.run.requestVersion = view.requestVersion
      · simp [showRun, hactive, hsame]
      · simp [showRun, hactive, hsame, RunView.withoutDraft]

/-- The message of a state, with the fence of its result. -/
theorem stateMessage_some {message : AssistantMessage} {commit : Commit}
    (h : stateMessage state = some (message, commit)) :
    state.message = some message ∧ state.run.resultFence = some commit.fence := by
  unfold stateMessage at h
  split at h
  · rename_i hmessage _ hfence
    split at h
    · cases h
      exact ⟨hmessage, hfence⟩
    · cases h
  · cases h

/-- A state as the claim of its result allows it. -/
theorem later_showRun (hview : WellFormed view) (htakes : takesState view state = true)
    (hnext : Later view next ∧ WellFormed next) (hclosed : next.closedFence ≤ state.run.fence)
    (hmessageFence : next.messageFence ≤ state.run.fence)
    (hversion : ∀ message, next.message = some message →
      message.envelope.requestVersion ≤ state.run.requestVersion) :
    Later view (showRun view state next) ∧ WellFormed (showRun view state next) := by
  obtain ⟨-, hversions, hfences, -⟩ := takesState_iff.1 htakes
  obtain ⟨hlater, hformed⟩ := hnext
  have hshows := showsRun view state next
  have hmessage : SameMessage view (showRun view state next) ∨
      NewMessage view (showRun view state next) := by
    refine hlater.message.imp (fun h => ?_) fun h => ?_
    · exact ⟨hshows.message.trans h.message, hshows.messageFence.trans h.messageFence⟩
    · exact ⟨hshows.messageFence ▸ h.messageFence, hshows.message ▸ h.message⟩
  have hbounds : view.closedFence ≤ (showRun view state next).closedFence ∧
      (showRun view state next).closedFence ≤ state.run.fence := by
    have hseen := hlater.closedFence
    have hformed := hview.closedFence
    rw [hshows.closedFence]
    split
    · exact ⟨hseen, hclosed⟩
    · exact ⟨Nat.le_trans hformed hfences, Nat.le_refl _⟩
  refine ⟨⟨hshows.runId.trans hlater.runId, hshows.lastSeq ▸ hlater.lastSeq,
    hshows.fence ▸ hfences, hshows.requestVersion ▸ hversions, hbounds.1, hmessage⟩, ⟨?_, ?_, ?_, ?_⟩⟩
  · exact hshows.fence ▸ hbounds.2
  · rw [hshows.messageFence, hshows.fence]
    exact hmessageFence
  · intro message hfound
    rw [hshows.requestVersion]
    exact hversion message (hshows.message ▸ hfound)
  · rw [hshows.message, hshows.messageFence]
    exact hformed.empty

theorem later_consumeRunState (hview : WellFormed view)
    (hadmissible : (Item.stream (.state state)).Admissible)
    (h : consumeRunState view state = .ok view') : Later view view' ∧ WellFormed view' := by
  obtain ⟨-, rfl⟩ | ⟨htakes, next, rfl, hnext⟩ := consumeRunState_ok_iff.1 h
  · exact ⟨.refl _, hview⟩
  · obtain ⟨-, hversions, hfences, -⟩ := takesState_iff.1 htakes
    have hold : view.closedFence ≤ state.run.fence ∧ view.messageFence ≤ state.run.fence :=
      ⟨Nat.le_trans hview.closedFence hfences, Nat.le_trans hview.messageFence hfences⟩
    have hshown (message : AssistantMessage) (hmessage : view.message = some message) :
        message.envelope.requestVersion ≤ state.run.requestVersion :=
      Int.le_trans (hview.version message hmessage) hversions
    obtain ⟨-, rfl⟩ | ⟨message, commit, hmessage, hconsumed⟩ := hnext
    · exact later_showRun hview htakes ⟨.refl _, hview⟩ hold.1 hold.2 hshown
    · obtain ⟨hstated, hfence⟩ := stateMessage_some hmessage
      have hcommit := hadmissible.1 _ hfence
      have hversion := hadmissible.2 _ hstated
      have hlater := later_consumeAssistantMessage hview hconsumed
      obtain ⟨hcheck, rfl⟩ := consumeAssistantMessage_ok_iff.1 hconsumed
      split at hlater
      · rename_i hshows
        have hshown := showsMessage view message commit
        have hclosed : (showMessage view message commit).closedFence ≤ state.run.fence := by
          rcases hshown.closedFence with hsame | hfence
          · exact hsame ▸ hold.1
          · exact hfence ▸ hcommit
        rw [if_pos hshows]
        refine later_showRun hview htakes hlater hclosed (hshown.messageFence ▸ hcommit) ?_
        intro found hfound
        obtain rfl := Option.some.inj (hshown.message.symm.trans hfound)
        exact hversion
      · rename_i hkept
        rw [if_neg hkept]
        exact later_showRun hview htakes hlater hold.1 hold.2 hshown

theorem consumeRunState_twice (h : consumeRunState view state = .ok view') :
    consumeRunState view' state = .ok view' := by
  obtain ⟨hskips, rfl⟩ | ⟨htakes, next, rfl, hnext⟩ := consumeRunState_ok_iff.1 h
  · exact h
  · obtain ⟨hid, hversions, hfences, hresult⟩ := takesState_iff.1 htakes
    have hshows := showsRun view state next
    have hrunId : next.runId = view.runId ∧ (state.run.fence ≠ next.messageFence ∨
        next.messageFence ≤ state.run.resultFence.getD 0) := by
      obtain ⟨-, rfl⟩ | ⟨message, commit, hmessage, hconsumed⟩ := hnext
      · exact ⟨rfl, hresult⟩
      · obtain ⟨-, rfl⟩ := consumeAssistantMessage_ok_iff.1 hconsumed
        split
        · have hshown := showsMessage view message commit
          refine ⟨hshown.runId, .inr ?_⟩
          rw [hshown.messageFence, (stateMessage_some hmessage).2]
          exact Nat.le_refl _
        · exact ⟨rfl, hresult⟩
    have hagain : takesState (showRun view state next) state = true := by
      refine takesState_iff.2 ⟨?_, ?_, ?_, ?_⟩
      · rw [hshows.runId, hrunId.1, hid]
      · rw [hshows.requestVersion]
      · rw [hshows.fence]
      · rw [hshows.messageFence]
        exact hrunId.2
    refine consumeRunState_ok_iff.2 (.inr ⟨hagain, _, (showRun_twice view state next).symm, ?_⟩)
    refine hnext.imp (fun h => ⟨h.1, rfl⟩) ?_
    rintro ⟨message, commit, hmessage, hconsumed⟩
    refine ⟨message, commit, hmessage, consumeAssistantMessage_again hconsumed ?_ hshows.message
      hshows.messageFence hshows.resultId ?_⟩
    · exact hshows.runId.trans hrunId.1
    · rw [hshows.requestVersion]
      exact hversions

end

/-! ## Previews -/

section

variable {view : RunView} {update : PreviewUpdate}

theorem takesPreview_iff : takesPreview view update = true ↔ update.runId = view.runId ∧
    view.fence ≤ update.fence ∧ view.messageFence < update.fence ∧
      view.closedFence < update.fence ∧ view.requestVersion ≤ update.requestVersion ∧
      isSafeInteger update.seq = true ∧ 1 ≤ update.seq ∧
      ∀ prior, view.preview = some prior → prior.fence = update.fence → prior.seq < update.seq := by
  simp only [takesPreview, Bool.and_eq_true, decide_eq_true_eq, and_assoc, Option.all_eq_true,
    Bool.or_eq_true, ne_eq, or_iff_not_imp_left, not_not]

theorem later_consumePreview (hview : WellFormed view) :
    Later view (consumePreview view update) ∧ WellFormed (consumePreview view update) := by
  unfold consumePreview
  split
  · rename_i htakes
    obtain ⟨-, hfence, hmessage, hclosed, hversion, -, -, -⟩ := takesPreview_iff.1 htakes
    split
    · exact ⟨⟨rfl, Nat.le_refl _, Nat.le_refl _, Int.le_refl _, Nat.le_refl _, .inl ⟨rfl, rfl⟩⟩,
        ⟨hview.closedFence, hview.messageFence, hview.version, hview.empty⟩⟩
    · exact ⟨⟨rfl, Nat.le_refl _, hfence, hversion, Nat.le_refl _, .inl ⟨rfl, rfl⟩⟩,
        ⟨Nat.le_of_lt hclosed, Nat.le_of_lt hmessage,
          fun message h => Int.le_trans (hview.version message h) hversion, hview.empty⟩⟩
  · exact ⟨.refl view, hview⟩

theorem consumePreview_twice :
    consumePreview (consumePreview view update) update = consumePreview view update := by
  have hstays {held : RunView} (h : takesPreview held update = false) :
      consumePreview held update = held := by
    rw [consumePreview, if_neg (by simp [h])]
  cases htakes : takesPreview view update with
  | false => rw [hstays htakes, hstays htakes]
  | true =>
      cases hdraft : previewDraft view update with
      | some draft =>
          have hshown : consumePreview view update = { view with
              draft := draft
              fence := update.fence
              requestVersion := update.requestVersion
              preview := some (refOf update update.seq) } := by
            simp only [consumePreview, htakes, if_true, hdraft]
          refine hstays ?_
          rw [← Bool.not_eq_true, takesPreview_iff, hshown]
          rintro ⟨-, -, -, -, -, -, -, hseq⟩
          exact absurd (hseq _ rfl rfl) (Nat.lt_irrefl _)
      | none =>
          -- what is a gap once is a gap without a draft
          have hshown : consumePreview view update = view.withoutDraft := by
            simp only [consumePreview, htakes, if_true, hdraft]
          have hgap : previewDraft view.withoutDraft update = none := by
            unfold previewDraft at hdraft ⊢
            cases htext : update.text with
            | snapshot draft => simpa [htext] using hdraft
            | delta delta fromSeq => simp [RunView.withoutDraft]
          rw [hshown, consumePreview]
          split
          · rw [hgap]
            rfl
          · rfl

/-- Neither a committed message nor a closed attempt is followed by its previews. -/
def Sealed (fence : Nat) (view : RunView) : Prop :=
  fence ≤ view.messageFence ∨ fence ≤ view.closedFence ∨ fence < view.fence

theorem Sealed.later {fence : Nat} {view' : RunView} (h : Sealed fence view)
    (hlater : Later view view') : Sealed fence view' := by
  have hmessage := hlater.messageFence
  have hclosed := hlater.closedFence
  have hfence := hlater.fence
  unfold Sealed at *
  omega

theorem Sealed.consumePreview {fence : Nat} (h : Sealed fence view) (hle : update.fence ≤ fence) :
    consumePreview view update = view := by
  rw [Ui.consumePreview, if_neg]
  intro htakes
  obtain ⟨-, hfence, hmessage, hclosed, -, -, -, -⟩ := takesPreview_iff.1 htakes
  unfold Sealed at h
  omega

end

/-! ## Any item -/

/-- The item closes an attempt of the view, which takes it. -/
def Closes (view : RunView) (fence : Nat) : Item → Prop
  | .stream (.event event) => takesEvent view event = true ∧
      event.kind ∈ ["response.committed", "run.failed", "run.cancelled"] ∧
      fence = fenceOf event.seq
  | .stream (.state state) => takesState view state = true ∧
      ∃ message commit, stateMessage state = some (message, commit) ∧
        Accepts view message commit ∧ fence = commit.fence
  | .message message commit => Accepts view message commit ∧ fence = commit.fence
  | _ => False

section

variable {view : RunView} {item : Item}

theorem apply_of_ok {view' : RunView} (h : consume view item = .ok view') :
    apply view item = view' := by
  rw [apply, h]

theorem later_apply (hview : WellFormed view) (hadmissible : item.Admissible) :
    Later view (apply view item) ∧ WellFormed (apply view item) := by
  cases hconsume : consume view item with
  | error e =>
      rw [apply, hconsume]
      exact ⟨.refl view, hview⟩
  | ok view' =>
      rw [apply_of_ok hconsume]
      cases item with
      | message message commit => exact later_consumeAssistantMessage hview hconsume
      | stream item =>
          cases item with
          | event event =>
              cases hconsume
              exact later_consumeRunEvent hview
          | state state => exact later_consumeRunState hview hadmissible hconsume
          | preview preview =>
              cases hconsume
              exact later_consumePreview hview
          | reset runId reason =>
              cases hconsume
              split
              · exact ⟨⟨rfl, Nat.le_refl _, Nat.le_refl _, Int.le_refl _, Nat.le_refl _,
                    .inl ⟨rfl, rfl⟩⟩,
                  ⟨hview.closedFence, hview.messageFence, hview.version, hview.empty⟩⟩
              · exact ⟨.refl view, hview⟩

theorem consume_twice {view' : RunView} (h : consume view item = .ok view') :
    consume view' item = .ok view' := by
  cases item with
  | message message commit =>
      obtain ⟨-, hshown⟩ := consumeAssistantMessage_ok_iff.1 h
      refine consumeAssistantMessage_again h ?_ rfl rfl rfl ?_
      · rw [hshown]
        split
        · exact (showsMessage view message commit).runId
        · rfl
      · rw [hshown]
        split
        · exact (showsMessage view message commit).requestVersion
        · exact Int.le_refl _
  | stream item =>
      cases item with
      | event event =>
          cases h
          exact congrArg Except.ok consumeRunEvent_twice
      | state state => exact consumeRunState_twice h
      | preview preview =>
          cases h
          exact congrArg Except.ok consumePreview_twice
      | reset runId reason =>
          cases h
          simp only [consume, consumeRunStreamEvent]
          by_cases hrun : runId = view.runId
          · simp [hrun, RunView.withoutDraft]
          · simp [hrun]

theorem apply_twice : apply (apply view item) item = apply view item := by
  cases hconsume : consume view item with
  | error e =>
      have hsame : apply view item = view := by rw [apply, hconsume]
      rw [hsame, hsame]
  | ok view' =>
      rw [apply_of_ok hconsume]
      exact apply_of_ok (consume_twice hconsume)

/-- A closing event leaves the attempt closed, or is of an older one. -/
theorem sealed_event {event : RunEvent} (htakes : takesEvent view event = true)
    (hkind : event.kind ∈ ["response.committed", "run.failed", "run.cancelled"]) :
    Sealed (fenceOf event.seq) (consumeRunEvent view event) := by
  obtain ⟨-, ⟨hbehind, hsame⟩ | ⟨hle, -, -⟩⟩ := consumeRunEvent_taken htakes
  · rw [hsame]
    exact .inr (.inr hbehind)
  · refine .inr (.inl (Nat.le_of_eq ?_))
    have hnot : ¬fenceOf event.seq < view.fence := Nat.not_lt.2 hle
    simp only [consumeRunEvent, htakes, if_true, hnot, if_false]
    have hkeys : SameKeys { view with lastSeq := event.seq, fence := fenceOf event.seq }
        (streamed view event (started view event
          { view with lastSeq := event.seq, fence := fenceOf event.seq })) :=
      ((stage_started view event _).trans (stage_streamed view event _)).keys
    generalize streamed view event (started view event
      { view with lastSeq := event.seq, fence := fenceOf event.seq }) = next at hkeys
    have hfence : next.fence = fenceOf event.seq := hkeys.fence
    have hcommitted := stage_committed view event next
    have hconcluded := stage_concluded view event (committed event next)
    simp only [List.mem_cons, List.not_mem_nil, or_false] at hkind
    rcases hkind with hkind | hkind | hkind
    · have hclosed : (committed event next).closedFence = next.fence := by
        rw [committed, if_pos hkind]
        rfl
      have hrest := hconcluded.trans (stage_ended view event _)
      rcases hrest.closedFence with hsame | hsame
      · rw [hsame, hclosed, hfence]
      · rw [hsame, hcommitted.keys.fence, hfence]
    · rw [ended, if_pos hkind, ← hfence, ← hcommitted.keys.fence, ← hconcluded.keys.fence]
      rfl
    · rw [ended, if_neg (by simp [hkind]), if_pos hkind, ← hfence, ← hcommitted.keys.fence,
        ← hconcluded.keys.fence]
      rfl

/-- The view of an accepted message is sealed up to its result. -/
theorem sealed_message {message : AssistantMessage} {commit : Commit}
    (h : Accepts view message commit) : ∃ view', consumeAssistantMessage view message commit
      = .ok view' ∧ view'.messageFence = commit.fence := by
  obtain ⟨hcheck, haccepts⟩ := h
  refine ⟨_, consumeAssistantMessage_ok_iff.2 ⟨hcheck, rfl⟩, ?_⟩
  split
  · exact (showsMessage view message commit).messageFence
  · rename_i hkept
    cases hholds : holdsResult view commit with
    | true => exact (holdsResult_iff.1 hholds).2.1.symm
    | false => exact absurd ⟨hholds, haccepts.resolve_left (by simp [hholds])⟩ hkept

theorem sealed_apply {fence : Nat} (h : Closes view fence item) : Sealed fence (apply view item) := by
  cases item with
  | message message commit =>
      obtain ⟨haccepts, rfl⟩ := h
      obtain ⟨view', hconsumed, hfence⟩ := sealed_message haccepts
      have happly : apply view (.message message commit) = view' := apply_of_ok hconsumed
      rw [happly]
      exact .inl (Nat.le_of_eq hfence.symm)
  | stream item =>
      cases item with
      | event event =>
          obtain ⟨htakes, hkind, rfl⟩ := h
          exact sealed_event htakes hkind
      | state state =>
          obtain ⟨htakes, message, commit, hmessage, haccepts, rfl⟩ := h
          obtain ⟨next, hconsumed, hfence⟩ := sealed_message haccepts
          have hstate : consume view (.stream (.state state)) = .ok (showRun view state next) :=
            consumeRunState_ok_iff.2 (.inr ⟨htakes, next, rfl, .inr ⟨message, commit, hmessage,
              hconsumed⟩⟩)
          rw [apply_of_ok hstate]
          exact .inl (Nat.le_of_eq (((showsRun view state next).messageFence.trans hfence).symm))
      | preview | reset => exact h.elim

end

/-! ## Runs -/

theorem wellFormed_of_reachable {view : RunView} (h : views.Reachable view) : WellFormed view := by
  refine h.invariant ?_ ?_
  · rintro view ⟨runId, rfl⟩
    exact wellFormed_create runId
  · rintro view item _ hview ⟨hadmissible, rfl⟩
    exact (later_apply hview hadmissible).2

/-- A seal holds for good. -/
theorem sealed_of_run {view later : RunView} {items : List Item} {fence : Nat}
    (hview : WellFormed view) (hsealed : Sealed fence view) (hrun : views.Run view items later) :
    Sealed fence later := by
  refine (hrun.preserves (I := fun view => WellFormed view ∧ Sealed fence view) ?_
    ⟨hview, hsealed⟩).2
  rintro view item _ ⟨hview, hsealed⟩ ⟨hadmissible, rfl⟩
  obtain ⟨hlater, hformed⟩ := later_apply hview hadmissible
  exact ⟨hformed, hsealed.later hlater⟩

/-- Whatever a view has been given, no item takes it back, an item that comes twice counts
    once, and a closed attempt stays without previews. -/
theorem run_view_monotone {view : RunView} (h : views.Reachable view) :
    (∀ item, item.Admissible → Later view (apply view item) ∧
      apply (apply view item) item = apply view item) ∧
    ∀ item fence, item.Admissible → Closes view fence item →
      ∀ items later, views.Run (apply view item) items later →
        ∀ update, update.fence ≤ fence → consumePreview later update = later := by
  have hview := wellFormed_of_reachable h
  constructor
  · intro item hadmissible
    exact ⟨(later_apply hview hadmissible).1, apply_twice⟩
  · intro item fence hadmissible hcloses items later hrun update hle
    have hformed := (later_apply hview hadmissible).2
    exact (sealed_of_run hformed (sealed_apply hcloses) hrun).consumePreview hle

private def failedEvent : RunEvent where
  runId := "run"
  seq := 1
  kind := "run.failed"
  stage := .failed
  visibility := .user
  data := []

private def latePreview : PreviewUpdate := ⟨"run", 1, 1, "attempt", 5, .snapshot [65]⟩

/-- A preview that comes after its run has failed shows nothing. -/
theorem run_view_monotone_failed :
    consumePreview (apply (createRunView "run") (.stream (.event failedEvent))) latePreview
      = apply (createRunView "run") (.stream (.event failedEvent)) :=
  (run_view_monotone (.of_start ⟨"run", rfl⟩)).2 (.stream (.event failedEvent)) 1 trivial
    ⟨by decide +kernel, by simp [failedEvent], rfl⟩ [] _ (.refl _) latePreview (Nat.le_refl 1)

end Ui

end LingxiOS
