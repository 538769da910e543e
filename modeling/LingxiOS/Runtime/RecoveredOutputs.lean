-- SUMMARY: Where recovered outputs land in a history.
import LingxiOS.ControlPlane.ApprovedOutputs
import LingxiOS.ControlPlane.RecoverWait

/-! # Recovered Outputs

Two more recoveries put outputs into a stored history: `recoverWait` looks for an output after the
last call, and `restoreSession` follows the calls that are open as it goes. -/

namespace LingxiOS

/-! ## A recovered wait -/

/-- What was read, if it is the session that was read. -/
def loadedBy : RecoverEvent → Option SessionRecord
  | ⟨.service (.getSession _ _), .ok session⟩ => session
  | _ => none

/-- The session that was read last. -/
def loaded (events : List RecoverEvent) : Option SessionRecord :=
  events.foldl (fun session event => (loadedBy event).or session) none

/-- What a recovered wait saves is the session that was read, with an output for its last call,
    which had none after it. -/
def WaitsLand (history : List ModelItem) : Prop :=
  ∀ proof work fence before saved answer after outcome session,
    (recoverWait proof work fence).Runs (before ++ ⟨.saveSession saved, answer⟩ :: after) outcome →
    loaded before = some session → session.history = history →
    ∃ k call output, history[k]? = some (.functionCall call)
      ∧ Unanswered (history.map ModelItem.part) k call.callId
      ∧ OutputsLand (fun k' output' => k' = k ∧ output' = output) history saved.history

namespace Recovery

def AnswersLast (session saved : SessionRecord) : Prop :=
  ∃ call after output, lastCall session.history = some (call, after) ∧ answeredIn call after = false
    ∧ saved = { session with
      history := session.history ++ [.functionCallOutput call.callId output] }

/-- The monitor of what is saved: it follows the session that was read last. -/
def loading : Program.Monitor RecoverOp RecoverOp.Value Failure (Option SessionRecord) where
  allows session op := match op with
    | .saveSession saved => ∃ read, session = some read ∧ AnswersLast read saved
    | _ => True
  trusts _ _ := True
  next session event := (loadedBy event).or session

/-- The same of a call of the control plane. -/
def reading : Program.Monitor ServiceOp ServiceOp.Value Failure (Option SessionRecord) where
  allows _ _ := True
  trusts _ _ := True
  next session event := match event with
    | ⟨.getSession _ _, .ok read⟩ => read.or session
    | _ => session

section Waits

open Program

variable {proof : LeaseProof} {work : TurnWork} {fence : Nat} {session : SessionRecord}
  {read : Option SessionRecord}

theorem reading_of_all {α : Type} {post : Option SessionRecord → Except Failure α → Prop}
    (p : Service α) (hpost : ∀ read outcome, post read outcome) : p.Obeys reading post read := by
  induction p generalizing read with
  | done outcome => exact hpost read outcome
  | await op next ih => exact ⟨trivial, fun answer _ => ih answer⟩

/-- The session that is given back, if one is, is the one that was read. -/
def ReadBack (read : Option SessionRecord) (outcome : Except Failure (Option SessionRecord)) : Prop :=
  ∀ session, outcome = .ok (some session) → read = some session

theorem ReadBack.of_error (e : Failure) : ReadBack read (.error e) := by
  intro session h
  cases h

theorem getSession_reading (key : SessionKey) :
    (Service.getSession proof key).Obeys reading ReadBack read := by
  unfold Service.getSession
  apply Obeys.bind
  apply reading_of_all
  intro read leased
  cases leased with
  | error e => exact .of_error e
  | ok leased =>
      apply Obeys.perform_bind trivial (fun e _ => .of_error e)
      intro _ _
      split
      · exact ReadBack.of_error _
      · apply Obeys.perform_bind trivial (fun e _ => .of_error e)
        intro found _
        cases found with
        | none =>
            intro session h
            cases h
        | some session =>
            dsimp only
            split
            · exact ReadBack.of_error _
            · split
              · intro session h
                cases h
                rfl
              · apply Obeys.perform_bind trivial (fun e _ => .of_error e)
                intro _ _ session h
                cases h
                rfl

/-- Reading the session, from within the recovery. -/
theorem getSession_loading (key : SessionKey) :
    ((Service.getSession proof key).interpret serve).Obeys loading ReadBack read := by
  apply Obeys.mono (Obeys.interpret (I := fun n m => n = m) _ (getSession_reading key) rfl)
  · rintro _ outcome ⟨_, rfl, h⟩
    exact h
  · rintro _ op _ - rfl
    refine ⟨trivial, fun answer _ => ⟨trivial, ?_⟩⟩
    cases op with
    | getSession key workId =>
        cases answer with
        | ok read => rfl
        | error e => rfl
    | _ => rfl

/-- Neither reads a session nor saves one. -/
def IsQuiet : RecoverOp → Prop
  | .service (.getSession _ _) => False
  | .saveSession _ => False
  | _ => True

theorem await_loading {α : Type} {op : RecoverOp} (hop : IsQuiet op) {f : op.Value → Recovery α}
    {post : Option SessionRecord → Except Failure α → Prop} (herror : ∀ e, post read (.error e))
    (h : ∀ a, (f a).Obeys loading post read) : (await op >>= f).Obeys loading post read := by
  have hallows : loading.allows read op := by
    cases op with
    | saveSession saved => cases hop
    | _ => trivial
  have hnext : ∀ answer, loading.next read ⟨op, answer⟩ = read := by
    intro answer
    cases op with
    | service op =>
        cases op with
        | getSession key workId => cases hop
        | _ => rfl
    | _ => rfl
  refine ⟨hallows, fun answer _ => ?_⟩
  rw [hnext]
  cases answer with
  | error e => exact herror e
  | ok a => exact h a

theorem recorded_loading {event : RunEvent} {op : RecoverOp} (hop : IsQuiet op)
    {f : op.Value → Recovery Bool} (hf : ∀ a, (f a).Obeys loading (fun _ _ => True) read) :
    (await (.recordEvent event) >>= fun _ => await op >>= f).Obeys loading (fun _ _ => True) read :=
  await_loading (by trivial) (fun _ => trivial)
    (fun _ => await_loading hop (fun _ => trivial) hf)

theorem park_loading {call : FunctionCall} {after : List ModelItem} {outcome : GoalOutcome}
    {receipts : List (HostAction × HostActionResult)}
    (hcall : lastCall session.history = some (call, after)) :
    (park work fence session call after outcome receipts).Obeys loading (fun _ _ => True)
      (some session) := by
  apply await_loading (by trivial) (fun _ => trivial)
  intro _
  dsimp only
  split
  case isTrue => exact recorded_loading (by trivial) (fun _ => trivial)
  case isFalse hopen =>
    refine ⟨⟨session, rfl, call, after, _, hcall, Bool.eq_false_iff.2 hopen, rfl⟩, ?_⟩
    intro answer _
    cases answer with
    | error e => trivial
    | ok => exact recorded_loading (by trivial) (fun _ => trivial)

theorem childSettled_loading {outcome : GoalOutcome} {requestVersion : Nat}
    {post : Option SessionRecord → Except Failure Bool → Prop}
    (hpost : ∀ outcome, post read outcome) :
    (childSettled outcome requestVersion).Obeys loading post read := by
  unfold childSettled
  split
  · apply await_loading (by trivial) (fun _ => hpost _)
    intro status
    cases status with
    | none => exact hpost _
    | some status =>
        dsimp only
        split
        · exact hpost _
        · exact await_loading (by trivial) (fun _ => hpost _) (fun _ => hpost _)
  · exact hpost _

theorem settle_loading {requestVersion : Nat} {call : FunctionCall} {after : List ModelItem}
    {rows : List RecordedAction} (hcall : lastCall session.history = some (call, after)) :
    (settle work fence session requestVersion call after rows).Obeys loading (fun _ _ => True)
      (some session) := by
  unfold settle
  split
  · trivial
  · apply await_loading (by trivial) (fun _ => trivial)
    intro _
    split
    · exact recorded_loading (by trivial) (fun _ => trivial)
    · split
      · trivial
      · split
        · trivial
        · apply Obeys.bind
          apply childSettled_loading
          intro settled
          cases settled with
          | error e => trivial
          | ok settled =>
              dsimp only
              split
              · trivial
              · exact park_loading hcall

/-- A recovered wait only saves the session it read, with an output for its last call. -/
theorem recoverWait_loading :
    (recoverWait proof work fence).Obeys loading (fun _ _ => True) read := by
  apply await_loading (by trivial) (fun _ => trivial)
  intro _
  apply Obeys.bind
  apply Obeys.mono (getSession_loading _)
  intro read outcome hread
  cases outcome with
  | error e => trivial
  | ok session =>
      cases session with
      | none => trivial
      | some session =>
          obtain rfl := hread session rfl
          dsimp only
          split
          · trivial
          · apply await_loading (by trivial) (fun _ => trivial)
            intro current
            cases current with
            | none => trivial
            | some current =>
                dsimp only
                split
                · trivial
                · split
                  · trivial
                  case h_2 call after hcall =>
                    apply await_loading (by trivial) (fun _ => trivial)
                    exact fun rows => settle_loading hcall

end Waits

end Recovery

section Waits

variable {history : List ModelItem} {call : FunctionCall} {after : List ModelItem}

theorem not_mem_of_lastCall (h : Recovery.lastCall history = none) (other : FunctionCall) :
    ModelItem.functionCall other ∉ history := by
  induction history with
  | nil => exact List.not_mem_nil
  | cons item rest ih =>
      unfold Recovery.lastCall at h
      split at h
      case h_1 => cases h
      case h_2 hnone =>
        split at h
        case h_1 => cases h
        case h_2 hitem =>
          intro hmem
          rcases List.mem_cons.1 hmem with rfl | hrest
          · exact hitem other rfl
          · exact ih hnone hrest

theorem lastCall_eq_some (h : Recovery.lastCall history = some (call, after)) :
    ∃ before, history = before ++ .functionCall call :: after
      ∧ ∀ other, ModelItem.functionCall other ∉ after := by
  induction history with
  | nil => cases h
  | cons item rest ih =>
      unfold Recovery.lastCall at h
      split at h
      case h_1 found hfound =>
        cases h
        obtain ⟨before, rfl, hlast⟩ := ih hfound
        exact ⟨item :: before, rfl, hlast⟩
      case h_2 hnone =>
        split at h
        case h_1 =>
          cases h
          exact ⟨[], rfl, not_mem_of_lastCall hnone⟩
        case h_2 => cases h

/-- Nothing under its id comes after a last call without an output. -/
theorem unanswered_of_lastCall (h : Recovery.lastCall history = some (call, after))
    (hopen : Recovery.answeredIn call after = false) :
    ∃ k, history[k]? = some (.functionCall call)
      ∧ Unanswered (history.map ModelItem.part) k call.callId := by
  obtain ⟨before, rfl, hlast⟩ := lastCall_eq_some h
  have hget : (before ++ ModelItem.functionCall call :: after)[before.length]?
      = some (.functionCall call) := by
    rw [List.getElem?_append_right le_rfl, Nat.sub_self]
    rfl
  refine ⟨before.length, hget, ⟨?_, fun j hj => ?_⟩⟩
  · rw [List.getElem?_map, hget]
    rfl
  · have hafter : ∀ item, (before ++ ModelItem.functionCall call :: after)[j]? = some item →
        item ∈ after := by
      intro item hitem
      rw [List.getElem?_append_right hj.le] at hitem
      obtain ⟨n, hn⟩ := Nat.exists_eq_add_of_lt hj
      rw [show j - before.length = n + 1 by omega, List.getElem?_cons_succ] at hitem
      exact List.mem_of_getElem? hitem
    rw [List.getElem?_map]
    constructor
    · intro hask
      obtain ⟨item, hitem, hpart⟩ := Option.map_eq_some_iff.1 hask
      cases item with
      | functionCall other => exact hlast other (hafter _ hitem)
      | message => cases hpart
      | functionCallOutput => cases hpart
    · intro hanswer
      obtain ⟨item, hitem, hpart⟩ := Option.map_eq_some_iff.1 hanswer
      cases item with
      | functionCall => cases hpart
      | message => cases hpart
      | functionCallOutput answered output =>
          have hid : answered = call.callId := LogPart.answer.inj hpart
          have hfalse := List.any_eq_false.1 hopen _ (hafter _ hitem)
          simp [hid] at hfalse

theorem waits_land (history : List ModelItem) : WaitsLand history := by
  rintro proof work fence before saved answer after outcome session hrun hloaded rfl
  have hobeys : (recoverWait proof work fence).Obeys Recovery.loading (fun _ _ => True) none :=
    Recovery.recoverWait_loading
  have hallows := hobeys.allows_at (fun _ _ => trivial) hrun
  obtain ⟨read, hread, call, after, output, hcall, hopen, rfl⟩ := hallows
  obtain rfl : session = read := Option.some.inj (hloaded.symm.trans hread)
  obtain ⟨k, hget, hun⟩ := unanswered_of_lastCall hcall hopen
  refine ⟨k, call, output, hget, hun, Lands.outputs ?_⟩
  have hparts : [ModelItem.functionCallOutput call.callId output].map ModelItem.part
      = [call.callId].map .answer := rfl
  refine Lands.of_unanswered hparts (List.nodup_singleton _) ?_ ?_
  · intro id hid
    rw [List.mem_singleton.1 hid]
    exact ⟨k, output, ⟨rfl, rfl⟩, hun⟩
  · rintro _ _ ⟨rfl, rfl⟩
    exact ⟨0, call.callId, _, rfl, hun, rfl, rfl⟩

end Waits

/-! ## A restored session -/

/-- For a call with nothing under its id after it: the output it is restored with. -/
def RestoredOutput (env : RestoreEnv) (request : Option RequestSnapshot) (history : List ModelItem)
    (k : Nat) (output : ToolOutput) : Prop :=
  ∃ call answered, history[k]? = some (.functionCall call)
    ∧ Unanswered (history.map ModelItem.part) k call.callId
    ∧ AnswersAt env request history call answered ∧ output = answered.output

def RestoresLand (history : List ModelItem) : Prop :=
  ∀ env request restored, restoreHistory env request history = .ok restored →
    OutputsLand (RestoredOutput env request history) history restored.history

section Restores

variable {env : RestoreEnv} {request : Option RequestSnapshot} {session restored : RestoredSession}
  {history : List ModelItem} {calls : List FunctionCall} {call : FunctionCall} {callId : String}

/-- The calls that are open are those with nothing under their id after them. -/
theorem get?_pendingCalls_iff : (pendingCalls history).get? callId = some call ↔
    ∃ k, history[k]? = some (.functionCall call)
      ∧ Unanswered (history.map ModelItem.part) k callId := by
  induction history using List.reverseRecOn with
  | nil =>
      constructor
      · intro h
        cases h
      · rintro ⟨k, hget, -⟩
        cases hget
  | append_singleton history item ih =>
      have hold : ∀ k, Unanswered (history.map ModelItem.part) k callId →
          (history ++ [item])[k]? = history[k]? := by
        intro k hun
        have hk := lt_length_of_part hun.asks
        rw [List.length_map] at hk
        exact List.getElem?_append_left hk
      have hlast : (history ++ [item])[history.length]? = some item := by
        rw [List.getElem?_append_right le_rfl, Nat.sub_self]
        rfl
      rw [pendingCalls_concat, get?_trackCall]
      simp only [List.map_append, List.map_singleton, unanswered_concat_iff, List.length_map]
      have hkept : item.part ≠ .ask callId → item.part ≠ .answer callId →
          ((pendingCalls history).get? callId = some call ↔
            ∃ k, (history ++ [item])[k]? = some (.functionCall call)
              ∧ (Unanswered (history.map ModelItem.part) k callId
                ∧ item.part ≠ .ask callId ∧ item.part ≠ .answer callId
                ∨ k = history.length ∧ item.part = .ask callId)) := by
        intro hask hanswer
        rw [ih]
        refine exists_congr fun k => ?_
        constructor
        · rintro ⟨hget, hun⟩
          exact ⟨(hold k hun).trans hget, .inl ⟨hun, hask, hanswer⟩⟩
        · rintro ⟨hget, ⟨hun, -⟩ | ⟨-, heq⟩⟩
          · exact ⟨(hold k hun).symm.trans hget, hun⟩
          · exact absurd heq hask
      cases item with
      | message role content => exact hkept nofun nofun
      | functionCall other =>
          dsimp only
          split
          case isTrue hid =>
            constructor
            · intro h
              cases h
              exact ⟨history.length, hlast, .inr ⟨rfl, congrArg LogPart.ask hid.symm⟩⟩
            · rintro ⟨k, hget, ⟨-, hask, -⟩ | ⟨rfl, -⟩⟩
              · exact absurd (congrArg LogPart.ask hid.symm) hask
              · rw [hlast] at hget
                cases hget
                rfl
          case isFalse hid =>
            exact hkept (fun h => hid (LogPart.ask.inj h).symm) nofun
      | functionCallOutput answered output =>
          dsimp only
          split
          case isTrue hid =>
            constructor
            · intro h
              cases h
            · rintro ⟨k, -, ⟨-, -, hanswer⟩ | ⟨-, hask⟩⟩
              · exact absurd (congrArg LogPart.answer hid.symm) hanswer
              · cases hask
          case isFalse hid =>
            exact hkept nofun (fun h => hid (LogPart.answer.inj h).symm)

theorem nodup_pendingIds : ((pendingList history).map FunctionCall.callId).Nodup := by
  have hkeys : (pendingList history).map FunctionCall.callId
      = (pendingCalls history).entries.map Prod.fst := by
    unfold pendingList JsMap.values
    rw [List.map_map]
    refine List.map_congr_left fun entry hentry => ?_
    exact keyedBy_pendingCalls entry.1 entry.2 (JsMap.get?_eq_some_iff.2 hentry)
  rw [hkeys]
  exact (pendingCalls history).nodup

/-- What a finished loop pushed, one output a call. -/
theorem restoreCalls_outputs (h : restoreCalls env session calls = .ok restored) :
    ∃ outputs, restored.history = session.history ++ outputs
      ∧ outputs.map ModelItem.part = (calls.map FunctionCall.callId).map .answer
      ∧ ∀ before call later, calls = before ++ call :: later → ∃ between answered,
        restoreCalls env session before = .ok between
          ∧ restoreCall env between.request call = .ok answered
          ∧ outputs[before.length]? = some (.functionCallOutput call.callId answered.output) := by
  induction calls generalizing session with
  | nil =>
      cases h
      refine ⟨[], (List.append_nil _).symm, rfl, fun before call later heq => ?_⟩
      exact absurd heq.symm (List.append_ne_nil_of_right_ne_nil _ (List.cons_ne_nil _ _))
  | cons first calls ih =>
      obtain ⟨answered, hfirst, hrest⟩ := restoreCalls_cons_eq_ok h
      obtain ⟨outputs, houtputs, hparts, heach⟩ := ih hrest
      refine ⟨.functionCallOutput first.callId answered.output :: outputs, ?_, ?_, ?_⟩
      · rw [houtputs, RestoredSession.answer, List.append_assoc]
        rfl
      · rw [List.map_cons, hparts]
        rfl
      · intro before call later heq
        cases before with
        | nil =>
            cases heq
            exact ⟨session, answered, rfl, hfirst, rfl⟩
        | cons other before =>
            obtain ⟨rfl, htail⟩ := List.cons.inj heq
            obtain ⟨between, answered', hbefore, hcall, houtput⟩ := heach before call later htail
            refine ⟨between, answered', ?_, hcall, houtput⟩
            unfold restoreCalls
            rw [hfirst, Except.ok_bind]
            exact hbefore

theorem restores_land (history : List ModelItem) : RestoresLand history := by
  intro env request restored h
  obtain ⟨outputs, houtputs, hparts, heach⟩ := restoreCalls_outputs h
  refine Lands.outputs ?_
  rw [houtputs]
  refine Lands.of_unanswered hparts nodup_pendingIds ?_ ?_
  · intro id hid
    obtain ⟨call, hcall, rfl⟩ := List.mem_map.1 hid
    obtain ⟨k, hget, hun⟩ := get?_pendingCalls_iff.1 (mem_pendingList_iff.1 hcall)
    obtain ⟨before, later, hsplit⟩ := List.append_of_mem hcall
    obtain ⟨between, answered, hbefore, hanswered, -⟩ := heach before call later hsplit
    exact ⟨k, answered.output, ⟨call, answered, hget, hun,
      ⟨before, later, between, hsplit, hbefore, hanswered⟩, rfl⟩, hun⟩
  · rintro k output ⟨call, answered, hget, hun, ⟨before, later, between, hsplit, hbefore, hcall⟩, rfl⟩
    obtain ⟨between', answered', hbefore', hcall', houtput⟩ := heach before call later hsplit
    obtain rfl := Except.ok.inj (hbefore.symm.trans hbefore')
    obtain rfl := Except.ok.inj (hcall.symm.trans hcall')
    refine ⟨before.length, call.callId, _, ?_, hun, houtput, rfl⟩
    rw [hsplit, List.map_append, List.getElem?_append_right (by rw [List.length_map]),
      List.length_map, Nat.sub_self]
    rfl

end Restores

/-- Outputs of recovered waits and of restored sessions always land on their own calls, those of
    approved cells exactly where each cell is that of one call, no output under its id stands before
    that call, and no later call of the id stands before an output. -/
theorem recovered_outputs_land_iff (history : List ModelItem) (actions : List HostAction) :
    (ApprovalsLand history actions ∧ WaitsLand history ∧ RestoresLand history)
      ↔ (actions.length ≤ 64 → OwnsOutputs history actions) := by
  rw [approvalsLand_iff]
  exact and_iff_left ⟨waits_land history, restores_land history⟩

/-- Two turns that use the same call id; the later call has an output that waits for approval. -/
private def twoTurns : List ModelItem :=
  [.functionCall ⟨"c1", "bills__pay", ⟨"\x7b\x7d", some (.obj [])⟩, some "step:1"⟩,
    .functionCallOutput "c1" (.whole ⟨[("paid", .str "rent")], none⟩),
    .functionCall ⟨"c1", "bills__pay", ⟨"\x7b\x7d", some (.obj [])⟩, some "step:2"⟩,
    .functionCallOutput "c1" (.whole ⟨[("approvalPending", .str "a")], none⟩)]

private def secondPayment : HostAction := ⟨"A", "step:2", 0, "bills.pay", [], "k"⟩

private def billReceipts : Option (List Receipt) := some [⟨"bills.pay", "k", { ok := true }⟩]

/-- The output of the first turn is overwritten, and the call that was approved keeps the one that
    says it is not. -/
theorem older_output_overwritten : ¬ApprovalsLand twoTurns [secondPayment]
    ∧ ((executeDecidedApprovals (sameReceipts twoTurns [secondPayment] billReceipts)).toOption.join.map
        fun saved => saved.history.map ModelItem.outputText?)
      = some [none, some (approvedOutput billReceipts).text, none,
        twoTurns[3]?.bind ModelItem.outputText?] := by
  constructor
  · rw [approvalsLand_iff]
    intro hown
    obtain ⟨howns, -⟩ := hown (by decide) secondPayment List.mem_cons_self 2 _ ⟨rfl, rfl⟩
    exact howns.before 1 (by decide) rfl
  · decide +kernel

end LingxiOS
