-- SUMMARY: The messages of a model request, and the pairing of calls.
import LingxiOS.Runtime.SharedHistory

/-! # The Conversation with a Provider

`toWireMessages` writes the history of a session as chat messages. A provider takes
them only where the message that makes tool calls is followed by one tool message
for each of them, before anything else is said. -/

namespace LingxiOS.Conversation

/-! ## Messages -/

/-- What is sent of a call: not its step, and its arguments as they are written. -/
structure WireCall where
  id : String
  name : String
  arguments : String

def wireCall (call : FunctionCall) : WireCall := ⟨call.callId, call.name, call.arguments.text⟩

inductive WireMessage where
  | system (content : String)
  | user (content : String)
  | assistant (content : Option String) (toolCalls : List WireCall)
  | tool (toolCallId : String) (output : ToolOutput)

/-- A call joins the assistant message before it. -/
def pushCall (messages : List WireMessage) (call : FunctionCall) : List WireMessage :=
  match messages.getLast? with
  | some (.assistant content toolCalls) =>
      messages.dropLast ++ [.assistant content (toolCalls ++ [wireCall call])]
  | _ => messages ++ [.assistant none [wireCall call]]

/-- The loop of `toWireMessages`. -/
def pushItem (messages : List WireMessage) : ModelItem → List WireMessage
  | .message .system content => messages ++ [.system content]
  | .message .user content => messages ++ [.user content]
  | .message .assistant content => messages ++ [.assistant (some content) []]
  | .functionCallOutput callId output => messages ++ [.tool callId output]
  | .functionCall call => pushCall messages call

/-- `observationItems`, where `observe` is the observation made of a system message. -/
def observationItem (observe : Nat → String → String) (index : Nat) : ModelItem → ModelItem
  | .message .system content => .message .user (observe index content)
  | item => item

def toWireMessages (observe : Nat → String → String) (instructions : String)
    (items : List ModelItem) : List WireMessage :=
  (items.mapIdx (observationItem observe)).foldl pushItem [.system instructions]

/-- What a request can say of an item: a call without its step, its arguments unread. -/
def sentItem : ModelItem → ModelItem
  | .functionCall call => .functionCall ⟨call.callId, call.name, ⟨call.arguments.text, none⟩, none⟩
  | item => item

/-- What a message says, as items of a history. -/
def WireMessage.items : WireMessage → List ModelItem
  | .system content => [.message .system content]
  | .user content => [.message .user content]
  | .assistant content toolCalls =>
      (content.map fun text => .message .assistant text).toList
        ++ toolCalls.map fun call => .functionCall ⟨call.id, call.name, ⟨call.arguments, none⟩, none⟩
  | .tool callId output => [.functionCallOutput callId output]

section

variable {messages rest : List WireMessage} {observe : Nat → String → String}
  {instructions : String} {items : List ModelItem} {waiting : List String}
  {outputs : List (String × ToolOutput)} {calls : List FunctionCall}

theorem items_pushItem (item : ModelItem) :
    (pushItem messages item).flatMap WireMessage.items
      = messages.flatMap WireMessage.items ++ [sentItem item] := by
  cases item with
  | message role content => cases role <;> simp [pushItem, WireMessage.items, sentItem]
  | functionCallOutput callId output => simp [pushItem, WireMessage.items, sentItem]
  | functionCall call =>
      change (pushCall messages call).flatMap _ = _
      unfold pushCall
      split
      · rename_i content toolCalls hlast
        conv_rhs => rw [← List.dropLast_append_getLast? _ hlast]
        simp [WireMessage.items, sentItem, wireCall]
      · simp [WireMessage.items, sentItem, wireCall]

/-- The messages say what the history does, in its order, after the instructions: of a call,
    all but the step it belongs to. -/
theorem items_toWireMessages :
    (toWireMessages observe instructions items).flatMap WireMessage.items
      = .message .system instructions
        :: (items.mapIdx (observationItem observe)).map sentItem := by
  have hfold : ∀ (l : List ModelItem) (messages : List WireMessage),
      (l.foldl pushItem messages).flatMap WireMessage.items
        = messages.flatMap WireMessage.items ++ l.map sentItem := by
    intro l
    induction l with
    | nil => simp
    | cons item l ih =>
        intro messages
        rw [List.foldl_cons, ih, items_pushItem, List.append_assoc, List.singleton_append,
          List.map_cons]
  exact hfold _ _

/-! ## What a provider takes -/

/-- The calls that wait for their outputs, after one more message. -/
def accept (waiting : List String) : WireMessage → Option (List String)
  | .assistant _ toolCalls =>
      if waiting = [] then some (toolCalls.map WireCall.id) else none
  | .tool callId _ => if callId ∈ waiting then some (waiting.erase callId) else none
  | _ => if waiting = [] then some [] else none

def scan (messages : List WireMessage) : Option (List String) := messages.foldlM accept []

/-- Every call is followed by its output, before anything else is said. -/
def Answered (messages : List WireMessage) : Prop := scan messages = some []

theorem scan_append :
    scan (messages ++ rest) = (scan messages).bind fun waiting => rest.foldlM accept waiting := by
  unfold scan
  rw [List.foldlM_append]
  rfl

theorem scan_concat (message : WireMessage) :
    scan (messages ++ [message]) = (scan messages).bind fun waiting => accept waiting message := by
  rw [scan_append]
  congr 1
  funext waiting
  simp

/-- Outputs for calls that wait, in any order, leave the others waiting. -/
theorem foldlM_accept_outputs {left : List String} (h : (outputs.map Prod.fst ++ left).Perm waiting) :
    ∃ waiting', (outputs.map fun output => WireMessage.tool output.1 output.2).foldlM accept waiting
      = some waiting' ∧ waiting'.Perm left := by
  induction outputs generalizing waiting with
  | nil => exact ⟨waiting, rfl, h.symm⟩
  | cons output outputs ih =>
      have hrest := h.erase output.1
      rw [List.map_cons, List.cons_append, List.erase_cons_head] at hrest
      rw [List.map_cons, List.foldlM_cons, accept, if_pos (h.mem_iff.1 List.mem_cons_self)]
      exact ih hrest

/-- What a turn's next call may follow: nothing that waits, or the message of its turn. -/
def Takes (messages : List WireMessage) (waiting : List String) : Prop :=
  scan messages = some waiting
    ∧ (waiting = [] ∨ ∃ content toolCalls, messages.getLast? = some (.assistant content toolCalls))

theorem Takes.call {call : FunctionCall} (h : Takes messages waiting) :
    Takes (pushCall messages call) (waiting ++ [call.callId]) := by
  obtain ⟨hscan, hlast⟩ := h
  unfold pushCall
  split
  · rename_i content toolCalls hget
    rw [← List.dropLast_append_getLast? _ hget, scan_concat] at hscan
    obtain ⟨before, hbefore, haccept⟩ := Option.bind_eq_some_iff.1 hscan
    unfold accept at haccept
    dsimp only at haccept
    split at haccept
    · rename_i hnone
      subst hnone
      cases haccept
      refine ⟨?_, .inr ⟨content, toolCalls ++ [wireCall call], by simp⟩⟩
      rw [scan_concat, hbefore]
      simp [accept, wireCall]
    · cases haccept
  · rename_i hother
    have hnone : waiting = [] := by
      rcases hlast with hnone | ⟨content, toolCalls, hget⟩
      · exact hnone
      · exact absurd hget (hother content toolCalls)
    subst hnone
    refine ⟨?_, .inr ⟨none, [wireCall call], by simp⟩⟩
    rw [scan_concat, hscan]
    rfl

theorem Takes.turn (h : Takes messages waiting) :
    Takes ((calls.map ModelItem.functionCall).foldl pushItem messages)
      (waiting ++ calls.map FunctionCall.callId) := by
  induction calls generalizing messages waiting with
  | nil =>
      rw [List.map_nil, List.map_nil, List.append_nil]
      exact h
  | cons call calls ih =>
      have hrest := ih (h.call : Takes (pushCall messages call) _)
      rw [List.append_assoc] at hrest
      exact hrest

/-- What no provider takes, it takes no more when something is said after it. -/
theorem scan_pushItem_eq_none {item : ModelItem} (h : scan messages = none) :
    scan (pushItem messages item) = none := by
  have hconcat : ∀ message, scan (messages ++ [message]) = none := fun message => by
    rw [scan_concat, h]
    rfl
  cases item with
  | message role content => cases role <;> exact hconcat _
  | functionCallOutput callId output => exact hconcat _
  | functionCall call =>
      change scan (pushCall messages call) = none
      unfold pushCall
      split
      · rename_i content toolCalls hlast
        rw [← List.dropLast_append_getLast? _ hlast, scan_concat, Option.bind_eq_none_iff] at h
        rw [scan_concat, Option.bind_eq_none_iff]
        intro waiting hwaiting
        have hrefused := h waiting hwaiting
        unfold accept at hrefused ⊢
        dsimp only at hrefused ⊢
        split at hrefused
        · cases hrefused
        · rename_i hsome
          rw [if_neg hsome]
      · exact hconcat _

end

/-! ## Turns -/

/-- What a model turn adds to the history: its text, and then its calls. -/
def turnItems (text : Option String) (calls : List FunctionCall) : List ModelItem :=
  (text.map fun text => .message .assistant text).toList ++ calls.map .functionCall

def outputItems (outputs : List (String × ToolOutput)) : List ModelItem :=
  outputs.map fun output => .functionCallOutput output.1 output.2

section Turn

variable {observe : Nat → String → String} {instructions : String} {history : List ModelItem}
  {text : Option String} {calls : List FunctionCall} {outputs : List (String × ToolOutput)}
  {left : List String}

theorem toWireMessages_append (items : List ModelItem) :
    toWireMessages observe instructions (history ++ items)
      = (items.mapIdx fun i => observationItem observe (i + history.length)).foldl pushItem
        (toWireMessages observe instructions history) := by
  unfold toWireMessages
  rw [List.mapIdx_append, List.foldl_append]

theorem toWireMessages_turn :
    toWireMessages observe instructions (history ++ turnItems text calls ++ outputItems outputs)
      = (calls.map ModelItem.functionCall).foldl pushItem
          ((text.map fun text => ModelItem.message .assistant text).toList.foldl pushItem
            (toWireMessages observe instructions history))
        ++ outputs.map fun output => .tool output.1 output.2 := by
  have hplain : (turnItems text calls ++ outputItems outputs).mapIdx
      (fun i => observationItem observe (i + history.length))
        = turnItems text calls ++ outputItems outputs := by
    apply List.ext_getElem (by simp)
    intro i h₁ h₂
    rw [List.getElem_mapIdx]
    have hmem := List.getElem_mem h₂
    generalize (turnItems text calls ++ outputItems outputs)[i] = item at hmem
    cases text <;> simp [turnItems, outputItems] at hmem
    · rcases hmem with ⟨call, -, rfl⟩ | ⟨id, output, -, rfl⟩ <;> rfl
    · rcases hmem with rfl | ⟨call, -, rfl⟩ | ⟨id, output, -, rfl⟩ <;> rfl
  have houtputs : ∀ (outputs : List (String × ToolOutput)) messages,
      (outputItems outputs).foldl pushItem messages
        = messages ++ outputs.map fun output => .tool output.1 output.2 := by
    unfold outputItems
    intro outputs
    induction outputs with
    | nil => simp
    | cons output outputs ih => simp [pushItem, ih]
  rw [List.append_assoc, toWireMessages_append, hplain, List.foldl_append, houtputs, turnItems,
    List.foldl_append]

/-- After a turn and some of its outputs, in any order, the other calls wait. -/
theorem scan_turn (text : Option String)
    (hids : (outputs.map Prod.fst ++ left).Perm (calls.map FunctionCall.callId))
    (h : Answered (toWireMessages observe instructions history)) :
    ∃ waiting, scan (toWireMessages observe instructions
      (history ++ turnItems text calls ++ outputItems outputs)) = some waiting
        ∧ waiting.Perm left := by
  have htext : Takes ((text.map fun text => ModelItem.message .assistant text).toList.foldl pushItem
      (toWireMessages observe instructions history)) [] := by
    refine ⟨?_, .inl rfl⟩
    cases text with
    | none => exact h
    | some text =>
        change scan (_ ++ [_]) = _
        rw [scan_concat, h]
        rfl
  rw [toWireMessages_turn, scan_append,
    (htext.turn : Takes ((calls.map ModelItem.functionCall).foldl pushItem _) _).1]
  exact foldlM_accept_outputs hids

theorem answered_message {role : Role} {content : String}
    (h : Answered (toWireMessages observe instructions history)) :
    Answered (toWireMessages observe instructions (history ++ [.message role content])) := by
  rw [toWireMessages_append]
  cases role with
  | user | assistant | system =>
      change scan (_ ++ [_]) = _
      rw [scan_concat, h]
      rfl

/-! ### Pending calls -/

theorem pendingList_outputItems :
    pendingList (history ++ outputItems outputs)
      = (pendingList history).filter fun call => call.callId ∉ outputs.map Prod.fst := by
  induction outputs generalizing history with
  | nil => simp [outputItems]
  | cons output outputs ih =>
      have hfirst : pendingList (history ++ [.functionCallOutput output.1 output.2])
          = (pendingList history).filter fun call => call.callId ≠ output.1 := by
        unfold pendingList
        rw [pendingCalls_concat]
        change ((pendingCalls history).delete output.1).values = _
        unfold JsMap.values JsMap.delete
        rw [List.filter_map]
        congr 1
        apply List.filter_congr
        rintro ⟨k, call⟩ hentry
        simp [← keyedBy_pendingCalls k call (JsMap.get?_eq_some_iff.2 hentry)]
      have hrest := @ih (history ++ [.functionCallOutput output.1 output.2])
      rw [hfirst, List.filter_filter, List.append_assoc] at hrest
      refine hrest.trans (List.filter_congr ?_)
      intro call _
      rw [← Bool.decide_and, decide_eq_decide, List.map_cons, List.mem_cons, not_or, and_comm]

/-- After a turn whose calls have ids of their own, they are what is pending. -/
theorem pendingList_turn (hbefore : pendingList history = [])
    (hdistinct : (calls.map FunctionCall.callId).Nodup) :
    pendingList (history ++ turnItems text calls) = calls := by
  induction calls using List.reverseRecOn with
  | nil =>
      cases text with
      | none => simpa [turnItems] using hbefore
      | some text =>
          unfold pendingList
          exact (congrArg JsMap.values pendingCalls_concat).trans hbefore
  | append_singleton calls call ih =>
      rw [List.map_append, List.nodup_append] at hdistinct
      have hcalls := ih hdistinct.1
      have hitems : history ++ turnItems text (calls ++ [call])
          = history ++ turnItems text calls ++ [.functionCall call] := by simp [turnItems]
      have hfresh : (pendingCalls (history ++ turnItems text calls)).get? call.callId = none := by
        rw [Option.eq_none_iff_forall_ne_some]
        intro other hother
        have hmem : other ∈ pendingList (history ++ turnItems text calls) :=
          JsMap.mem_values_iff.2 ⟨_, hother⟩
        rw [hcalls] at hmem
        exact hdistinct.2.2 _ (List.mem_map_of_mem hmem) _ (List.mem_singleton_self _)
          (keyedBy_pendingCalls _ _ hother)
      rw [hitems]
      unfold pendingList at hcalls ⊢
      rw [pendingCalls_concat]
      change (JsMap.set _ call.callId call).values = _
      rw [JsMap.values_set_of_none call hfresh, hcalls]

/-- The calls without an output are pending. -/
theorem pending_ids (text : Option String) (hbefore : pendingList history = [])
    (hdistinct : (calls.map FunctionCall.callId).Nodup)
    (hids : (outputs.map Prod.fst ++ left).Perm (calls.map FunctionCall.callId)) :
    ((pendingList (history ++ turnItems text calls ++ outputItems outputs)).map
      FunctionCall.callId).Perm left := by
  have hnodup := List.nodup_append.1 (hids.nodup_iff.2 hdistinct)
  have hfilter := hids.symm.filter fun id => decide (id ∉ outputs.map Prod.fst)
  have hleft : left.filter (fun id => decide (id ∉ outputs.map Prod.fst)) = left := by
    rw [List.filter_eq_self]
    intro id hid
    rw [decide_eq_true_eq]
    exact fun hmem => hnodup.2.2 _ hmem _ hid rfl
  have hnone : (outputs.map Prod.fst).filter (fun id => decide (id ∉ outputs.map Prod.fst)) = [] := by
    simp [List.filter_eq_nil_iff]
  rw [List.filter_append, hnone, hleft, List.nil_append, List.filter_map] at hfilter
  rw [pendingList_outputItems, pendingList_turn hbefore hdistinct]
  exact hfilter

end Turn

/-! ## The attempts of a session -/

/-- A history whose calls are all answered, for the provider and for the next restore. -/
structure Settled (history : List ModelItem) : Prop where
  answered : ∀ observe instructions, Answered (toWireMessages observe instructions history)
  pending : pendingList history = []

/-- A history whose last turn may wait for outputs: those of the calls that are pending. -/
def Halfway (history : List ModelItem) : Prop :=
  ∃ before text calls outputs, Settled before
    ∧ history = before ++ turnItems text calls ++ outputItems outputs
    ∧ (outputs.map Prod.fst ++ (pendingList history).map FunctionCall.callId).Perm
      (calls.map FunctionCall.callId)

structure Talk where
  history : List ModelItem
  running : Bool

inductive TalkEvent where
  /-- A work of the session is claimed and restores it, with its messages; or fails to. -/
  | claim (restoring : RestoreEnv) (request : Option RequestSnapshot) (said : List (Role × String))
  | say (role : Role) (content : String)
  /-- A turn with the outputs of some of its calls. -/
  | turn (text : Option String) (calls : List FunctionCall) (outputs : List (String × ToolOutput))
      (left : List String)
  | leave

/-- The attempts of the works of a session, between two compactions. The calls of a turn have
    ids of their own, and an attempt that leaves a call without an output says nothing more. -/
def talk : TransitionSystem Talk TalkEvent where
  start s := Settled s.history ∧ s.running = false
  step s event s' := match event with
    | .claim restoring request said => s.running = false ∧
        (s' = s ∨ ∃ restored, restoreHistory restoring request s.history = .ok restored
          ∧ s' = ⟨restored.history ++ said.map (fun m => .message m.1 m.2), true⟩)
    | .say role content => s.running = true ∧ s' = ⟨s.history ++ [.message role content], true⟩
    | .turn text calls outputs left => s.running = true ∧ (calls.map FunctionCall.callId).Nodup
        ∧ (outputs.map Prod.fst ++ left).Perm (calls.map FunctionCall.callId)
        ∧ s' = ⟨s.history ++ turnItems text calls ++ outputItems outputs, left.isEmpty⟩
    | .leave => s' = { s with running := false }

section Talk

variable {history : List ModelItem} {s s' : Talk}

theorem Settled.halfway (h : Settled history) : Halfway history := by
  refine ⟨history, none, [], [], h, by simp [turnItems, outputItems], ?_⟩
  rw [h.pending]
  exact .nil

theorem Settled.messages {said : List (Role × String)} (h : Settled history) :
    Settled (history ++ said.map fun m => .message m.1 m.2) := by
  induction said generalizing history with
  | nil => simpa using h
  | cons m said ih =>
      have hmessage : Settled (history ++ [.message m.1 m.2]) :=
        ⟨fun observe instructions => answered_message (h.answered observe instructions),
          (congrArg JsMap.values pendingCalls_concat).trans h.pending⟩
      have hrest := ih hmessage
      rw [List.append_assoc] at hrest
      exact hrest

/-- A finished restore has pushed one output for each call, in their order. -/
theorem restoreCalls_outputs {restoring : RestoreEnv} {session restored : RestoredSession}
    {calls : List FunctionCall} (h : restoreCalls restoring session calls = .ok restored) :
    ∃ outputs, restored.history = session.history ++ outputItems outputs
      ∧ outputs.map Prod.fst = calls.map FunctionCall.callId := by
  induction calls generalizing session with
  | nil =>
      cases h
      exact ⟨[], by simp [outputItems], rfl⟩
  | cons call calls ih =>
      obtain ⟨answered, -, hrest⟩ := restoreCalls_cons_eq_ok h
      obtain ⟨outputs, hhistory, hids⟩ := ih hrest
      refine ⟨(call.callId, answered.output) :: outputs, ?_, by rw [List.map_cons, hids]; rfl⟩
      simp [hhistory, RestoredSession.answer, outputItems]

/-- The outputs a finished restore pushes are the ones the last turn waits for. -/
theorem Halfway.restored {restoring : RestoreEnv} {request : Option RequestSnapshot}
    {restored : RestoredSession} (h : Halfway history)
    (hrestored : restoreHistory restoring request history = .ok restored) :
    Settled restored.history := by
  refine ⟨?_, pendingList_restoreHistory hrestored⟩
  intro observe instructions
  obtain ⟨before, text, calls, outputs, hbefore, hhistory, hids⟩ := h
  obtain ⟨answers, hanswers, hpending⟩ := restoreCalls_outputs hrestored
  have hall : ((outputs ++ answers).map Prod.fst ++ []).Perm (calls.map FunctionCall.callId) := by
    rw [List.append_nil, List.map_append, hpending]
    exact hids
  obtain ⟨waiting, hscan, hnone⟩ := scan_turn text hall (hbefore.answered observe instructions)
  rw [List.perm_nil.1 hnone, outputItems, List.map_append, ← List.append_assoc] at hscan
  rw [hanswers]
  dsimp only
  rw [hhistory]
  exact hscan

/-- What every state of a session keeps. -/
theorem talk_inv (hreach : talk.Reachable s) :
    Halfway s.history ∧ (s.running = true → Settled s.history) := by
  apply hreach.invariant
    (I := fun s => Halfway s.history ∧ (s.running = true → Settled s.history))
  · rintro s ⟨hsettled, -⟩
    exact ⟨hsettled.halfway, fun _ => hsettled⟩
  · rintro s event s' ⟨hhalfway, hsettled⟩ hstep
    have of_settled : ∀ {history running}, Settled history → Halfway history
        ∧ (running = true → Settled history) := fun h => ⟨h.halfway, fun _ => h⟩
    cases event with
    | claim restoring request said =>
        obtain ⟨-, rfl | ⟨restored, hrestored, rfl⟩⟩ := hstep
        · exact ⟨hhalfway, hsettled⟩
        · exact of_settled (hhalfway.restored hrestored).messages
    | say role content =>
        obtain ⟨hrunning, rfl⟩ := hstep
        have hsaid : Settled (s.history ++ [(role, content)].map fun m => .message m.1 m.2) :=
          (hsettled hrunning).messages
        exact of_settled hsaid
    | turn text calls outputs left =>
        obtain ⟨hrunning, hdistinct, hids, rfl⟩ := hstep
        have hbefore := hsettled hrunning
        have hpending := pending_ids text hbefore.pending hdistinct hids
        refine ⟨⟨s.history, text, calls, outputs, hbefore, rfl, ?_⟩, ?_⟩
        · exact (hpending.append_left _).trans hids
        · intro hgoes
          rw [List.isEmpty_iff.1 hgoes] at hids hpending
          refine ⟨?_, List.map_eq_nil_iff.1 (List.perm_nil.1 hpending)⟩
          intro observe instructions
          obtain ⟨waiting, hscan, hnone⟩ := scan_turn text hids
            (hbefore.answered observe instructions)
          rw [List.perm_nil.1 hnone] at hscan
          exact hscan
    | leave =>
        cases hstep
        exact ⟨hhalfway, fun hrunning => by cases hrunning⟩

/-- Whatever interrupts the attempts of a session, the conversation of every model request has
    each call answered once, before anything else is said. -/
theorem requests_answered (hreach : talk.Reachable s) (hrunning : s.running = true)
    (observe : Nat → String → String) (instructions : String) :
    Answered (toWireMessages observe instructions s.history) :=
  ((talk_inv hreach).2 hrunning).answered observe instructions

/-- An answer that is published while a call has no output stands between the two for good: no
    later request is taken, whatever a restore still pushes. -/
theorem early_answer_never_taken (hreach : talk.Reachable s) (hpending : pendingList s.history ≠ [])
    (answer : String) (later : List ModelItem) (observe : Nat → String → String)
    (instructions : String) :
    ¬ Answered (toWireMessages observe instructions
      (s.history ++ [.message .assistant answer] ++ later)) := by
  obtain ⟨before, text, calls, outputs, hbefore, hhistory, hids⟩ := (talk_inv hreach).1
  obtain ⟨waiting, hscan, hwaiting⟩ := scan_turn text hids
    (hbefore.answered observe instructions)
  rw [← hhistory] at hscan
  have hsome : waiting ≠ [] := by
    rintro rfl
    exact hpending (List.map_eq_nil_iff.1 (List.nil_perm.1 hwaiting))
  have hrefused : scan (toWireMessages observe instructions
      (s.history ++ [.message .assistant answer])) = none := by
    rw [toWireMessages_append]
    change scan (_ ++ [_]) = none
    rw [scan_concat, hscan]
    simp [accept, hsome]
  have hlater : ∀ (items : List ModelItem) messages, scan messages = none →
      scan (items.foldl pushItem messages) = none := by
    intro items
    induction items with
    | nil => exact fun messages h => h
    | cons item items ih => exact fun messages h => ih _ (scan_pushItem_eq_none h)
  unfold Answered
  rw [toWireMessages_append, hlater _ _ hrefused]
  exact fun h => by cases h

/-! ### A turn cut off between two outputs -/

def cutTalk : Talk := ⟨turnItems none [sharedCall "bills__read"], false⟩

theorem cutTalk_reachable : talk.Reachable cutTalk := by
  have hstart : talk.start ⟨[], false⟩ := ⟨⟨fun _ _ => rfl, rfl⟩, rfl⟩
  have hclaim : talk.Reachable ⟨[], true⟩ := by
    apply (TransitionSystem.Reachable.of_start hstart).next (e := .claim (sharedEnv "A" 1 .init) none [])
    exact ⟨rfl, .inr ⟨⟨none, [], []⟩, rfl, rfl⟩⟩
  apply hclaim.next (e := .turn none [sharedCall "bills__read"] [] ["c1"])
  exact ⟨rfl, List.nodup_singleton _, .refl _, rfl⟩

/-- The next attempt answers the call, and its first request is taken. -/
theorem cutTalk_restored : ∃ s, talk.Reachable s
    ∧ Answered (toWireMessages (fun _ _ => "") "Answer." s.history) := by
  have hrestored : ∃ restored, restoreHistory (sharedEnv "A" 2 .init) none cutTalk.history
      = .ok restored := ⟨_, rfl⟩
  obtain ⟨restored, hrestored⟩ := hrestored
  have hclaim : talk.Reachable ⟨restored.history ++ [], true⟩ := by
    apply cutTalk_reachable.next (e := .claim (sharedEnv "A" 2 .init) none [])
    exact ⟨rfl, .inr ⟨restored, hrestored, rfl⟩⟩
  exact ⟨_, hclaim, requests_answered hclaim rfl _ _⟩

/-- An answer in front of the output is not. -/
theorem cutTalk_answered : ¬ Answered (toWireMessages (fun _ _ => "") "Answer."
    (cutTalk.history ++ [.message .assistant "Done."]
      ++ [.functionCallOutput "c1" (.whole ⟨[], none⟩)])) := by
  refine early_answer_never_taken cutTalk_reachable (fun h => ?_) _ _ _ _
  cases h

end Talk

end LingxiOS.Conversation
