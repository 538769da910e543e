-- SUMMARY: The works of one session share its history.
import LingxiOS.Runtime.RestoreSession
import LingxiOS.Base.Transition

/-! # A History Shared by Works

The stored history belongs to the session; steps, receipts and action keys belong
to a work. An attempt that ends with unanswered calls leaves them in the history,
and whichever work of the session is claimed next restores them. -/

namespace LingxiOS

/-! ## One restore -/

/-- The restore gets to the call and answers it. -/
def AnswersAt (env : RestoreEnv) (request : Option RequestSnapshot) (history : List ModelItem)
    (call : FunctionCall) (answered : RestoredCall) : Prop :=
  ∃ before later between, pendingList history = before ++ call :: later
    ∧ restoreCalls env ⟨request, history, []⟩ before = .ok between
    ∧ restoreCall env between.request call = .ok answered

/-- The action that restoring a call runs under the identity of the restoring work. -/
def directRun (env : RestoreEnv) (request : Option RequestSnapshot) (call : FunctionCall) :
    Option HostAction :=
  match recoverStep env.work env.fence request env.steps call.cellId,
      recoverCell env.work env.serviceTools env.execute request env.steer env.ledger call.cellId with
  | .ok none, .ok receipts =>
      if (receipts.getD []).isEmpty then
        ((env.contextTools.find? (fun tool => tool.name == call.name)).filter
          ToolDefinition.isSafe).bind
          (fun tool => (directAction env.work call tool.action).toOption)
      else none
  | _, _ => none

theorem answersAt_of_ok {env : RestoreEnv} {session restored : RestoredSession}
    {calls : List FunctionCall} (h : restoreCalls env session calls = .ok restored)
    {call : FunctionCall} (hcall : call ∈ calls) :
    ∃ before later between answered, calls = before ++ call :: later
      ∧ restoreCalls env session before = .ok between
      ∧ restoreCall env between.request call = .ok answered := by
  induction calls generalizing session with
  | nil => cases hcall
  | cons first calls ih =>
      obtain ⟨answered, hfirst, hrest⟩ := restoreCalls_cons_eq_ok h
      rcases List.mem_cons.1 hcall with rfl | hlater
      · exact ⟨[], calls, session, answered, rfl, rfl, hfirst⟩
      · obtain ⟨before, later, between, answered', rfl, hbefore, hanswered⟩ := ih hrest hlater
        refine ⟨first :: before, later, between, answered', rfl, ?_, hanswered⟩
        unfold restoreCalls
        rw [hfirst, Except.ok_bind]
        exact hbefore

theorem recoverStep_without_output {work : TurnWork} {fence : Nat}
    {request : Option RequestSnapshot} {steps : StepStore} {cellId : String}
    {step : Option (ToolOutput × List KernelArtifact)}
    (hsteps : ∀ version step, steps.get work.id cellId version = some step → step.output = none)
    (h : recoverStep work fence request steps cellId = .ok step) : step = none := by
  unfold recoverStep at h
  obtain ⟨_, _, h⟩ := Except.bind_ok h
  split at h
  · cases h
    rfl
  · split at h
    · cases h
      rfl
    · split at h
      · cases h
        rfl
      · -- a step that was started and has no output is passed over
        rename_i started hget
        rw [hsteps _ _ hget] at h
        cases h
        rfl

theorem recoverCell_without_records {work : TurnWork} {tools : List ToolDefinition}
    {execute : HostAction → Except Failure HostActionResult} {request : Option RequestSnapshot}
    {steer : Nat} {ledger : ActionLedger} {cellId : String} {recovered : Option (List Receipt)}
    (hrecords : ∀ version, ledger.listCell work.id cellId version = [])
    (h : recoverCell work tools execute request steer ledger cellId = .ok recovered) :
    recovered.getD [] = [] := by
  unfold recoverCell at h
  obtain ⟨_, _, h⟩ := Except.bind_ok h
  rw [hrecords] at h
  cases h
  rfl

/-- A call the restoring work has neither a completed step nor a record of is run under that
    work's identity, or the restore fails at it. -/
theorem restoreCall_without_records {env : RestoreEnv} {request : Option RequestSnapshot}
    {call : FunctionCall} {answered : RestoredCall}
    (hsteps : ∀ version step, env.steps.get env.work.id call.cellId version = some step →
      step.output = none)
    (hrecords : ∀ version, env.ledger.listCell env.work.id call.cellId version = [])
    (h : restoreCall env request call = .ok answered) :
    (directRun env request call).isSome = true := by
  unfold restoreCall at h
  obtain ⟨step, hstep, h⟩ := Except.bind_ok h
  have hnone : step = none := recoverStep_without_output hsteps hstep
  subst hnone
  obtain ⟨receipts, hreceipts, hanswer⟩ := Except.bind_ok h
  obtain ⟨recovered, hrecovered, hreceipts⟩ := Except.bind_ok hreceipts
  have hempty : recovered.getD [] = [] := recoverCell_without_records hrecords hrecovered
  rw [hempty] at hreceipts
  dsimp only at hreceipts
  unfold directRun
  rw [hstep, hrecovered]
  simp only [hempty, List.isEmpty_nil, if_true]
  split at hreceipts
  · -- no safe direct tool, so there is nothing to answer from
    cases hreceipts
    cases hanswer
  · rename_i tool htool
    obtain ⟨action, haction, _⟩ := Except.bind_ok hreceipts
    rw [htool, Option.bind_some, haction]
    rfl

/-- A session with a call of which neither a completed step nor a record is found is restored
    only where the call is one of a safe direct tool. -/
theorem unrecorded_call_is_safe {env : RestoreEnv} {request : Option RequestSnapshot}
    {history : List ModelItem} {restored : RestoredSession} {call : FunctionCall}
    (hrestored : restoreHistory env request history = .ok restored)
    (hcall : call ∈ pendingList history)
    (hsteps : ∀ version step, env.steps.get env.work.id call.cellId version = some step →
      step.output = none)
    (hrecords : ∀ version, env.ledger.listCell env.work.id call.cellId version = []) :
    ∃ tool ∈ env.contextTools, tool.name = call.name ∧ tool.isSafe = true := by
  obtain ⟨before, later, between, answered, -, -, hanswered⟩ := answersAt_of_ok hrestored hcall
  have hrun := restoreCall_without_records hsteps hrecords hanswered
  unfold directRun at hrun
  split at hrun
  · split at hrun
    · obtain ⟨action, haction⟩ := Option.isSome_iff_exists.1 hrun
      obtain ⟨tool, htool, -⟩ := Option.bind_eq_some_iff.1 haction
      obtain ⟨hfind, hsafe⟩ := Option.filter_eq_some_iff.1 htool
      exact ⟨tool, List.mem_of_find?_eq_some hfind, by simpa using List.find?_some hfind, hsafe⟩
    · cases hrun
  · cases hrun

/-! ## The works of a session -/

structure SharedSession where
  history : List ModelItem
  /-- The work whose attempt holds the session lease. -/
  running : Option String

inductive SessionEvent where
  /-- A work is claimed, restores the session and saves it with its input messages. -/
  | claim (env : RestoreEnv) (request : Option RequestSnapshot) (messages : List (Role × String))
  /-- The running attempt appends to the history and saves it. -/
  | save (items : List ModelItem)
  /-- The running attempt compacts the history: a summary, and the end of it. -/
  | compact (summary : String) (kept : List ModelItem)
  /-- The attempt ends: its lease expires, it yields, parks or settles. -/
  | leave

/-- The id of a call is of the work's making: ids are random, so no two works share one. -/
def FunctionCall.madeBy (owner : String → String) (call : FunctionCall) (workId : String) : Prop :=
  call.stepId.map owner = some workId

/-- The attempts of the works of one session, in any order. -/
def sharedSession (owner : String → String) : TransitionSystem SharedSession SessionEvent where
  start s := s.history = [] ∧ s.running = none
  step s event s' := match event with
    | .claim env request messages => s.running = none ∧
        (s' = s ∨ ∃ restored, restoreHistory env request s.history = .ok restored
          ∧ s' = ⟨restored.history ++ messages.map (fun m => .message m.1 m.2), some env.work.id⟩)
    | .save items => ∃ workId, s.running = some workId
        ∧ (∀ call, ModelItem.functionCall call ∈ items → call.madeBy owner workId)
        ∧ s' = { s with history := s.history ++ items }
    | .compact summary kept => kept <:+ s.history
        ∧ s' = { s with history := .message .user summary :: kept }
    | .leave => s' = { s with running := none }

/-- The pending calls are all of one work, and of the running one if there is one. -/
structure OneAuthor (owner : String → String) (s : SharedSession) : Prop where
  one : ∃ workId, ∀ call ∈ pendingList s.history, call.madeBy owner workId
  running : ∀ workId, s.running = some workId →
    ∀ call ∈ pendingList s.history, call.madeBy owner workId

section Works

variable {owner : String → String} {s s' : SharedSession}

theorem OneAuthor.of_none {history : List ModelItem} {running : Option String}
    (h : pendingList history = []) : OneAuthor owner ⟨history, running⟩ := by
  refine ⟨⟨"", ?_⟩, ?_⟩
  · intro call hcall
    rw [h] at hcall
    cases hcall
  · intro workId _ call hcall
    rw [h] at hcall
    cases hcall

theorem OneAuthor.step {event : SessionEvent} (h : OneAuthor owner s)
    (hstep : (sharedSession owner).step s event s') : OneAuthor owner s' := by
  cases event with
  | claim env request messages =>
      obtain ⟨_, hclaim⟩ := hstep
      rcases hclaim with rfl | ⟨restored, hrestored, rfl⟩
      · exact h
      · apply OneAuthor.of_none
        rw [List.eq_nil_iff_forall_not_mem]
        intro call hcall
        rcases mem_pendingList_append hcall with hbefore | hnew
        · rw [pendingList_restoreHistory hrestored] at hbefore
          cases hbefore
        · simp at hnew
  | save items =>
      obtain ⟨workId, hrunning, hitems, rfl⟩ := hstep
      have hall : ∀ call ∈ pendingList (s.history ++ items), call.madeBy owner workId := by
        intro call hcall
        rcases mem_pendingList_append hcall with hbefore | hnew
        · exact h.running workId hrunning call hbefore
        · exact hitems call hnew
      refine ⟨⟨workId, hall⟩, ?_⟩
      intro other hother call hcall
      rw [hrunning] at hother
      cases hother
      exact hall call hcall
  | compact summary kept =>
      obtain ⟨hkept, rfl⟩ := hstep
      have hpending : ∀ call ∈ pendingList (.message .user summary :: kept),
          call ∈ pendingList s.history := by
        intro call hcall
        exact mem_pendingList_of_suffix hkept hcall
      obtain ⟨workId, hone⟩ := h.one
      refine ⟨⟨workId, fun call hcall => hone call (hpending call hcall)⟩, ?_⟩
      intro other hother call hcall
      exact h.running other hother call (hpending call hcall)
  | leave =>
      subst hstep
      refine ⟨h.one, ?_⟩
      intro workId hrunning
      cases hrunning

theorem oneAuthor_of_reachable (h : (sharedSession owner).Reachable s) : OneAuthor owner s := by
  apply h.invariant
  · intro s hstart
    obtain ⟨history, running⟩ := s
    obtain ⟨rfl, _⟩ := hstart
    exact .of_none rfl
  · intro s event s' hone hstep
    exact hone.step hstep

end Works

/-- The restore of a work keeps out of the calls of other works: it fails at none of
    them, and answers none, neither from its own records nor by running it. -/
def KeepsOut (owner : String → String) (env : RestoreEnv) (request : Option RequestSnapshot)
    (history : List ModelItem) : Prop :=
  ∀ call ∈ pendingList history, ¬ call.madeBy owner env.work.id →
    ¬ FailsAt env request history call ∧ ∀ answered, ¬ AnswersAt env request history call answered

section TwoWorks

def sharedWork (id : String) : TurnWork where
  id := id
  tenantId := "t"
  agentId := "a"
  sessionId := "s"
  threadId := none
  kind := "turn"
  lane := .interactive
  triggerRef := "m"
  principalId := some "u"
  meta_ := { text := some "What is due?" }

def sharedRequest (workId : String) : RequestSnapshot where
  version := 1
  workId := workId
  tenantId := "t"
  sessionId := "s"
  authorId := "u"
  sourceRef := "m"
  originalText := "What is due?"
  revisions := []
  attachments := []
  evidence := ⟨1, "evidence", []⟩

def sharedCall (name : String) : FunctionCall where
  callId := "c1"
  name := name
  arguments := ⟨"\x7b\x7d", some (.obj [])⟩
  stepId := some "step:1"

/-- The only step id is of the first work's making. -/
def sharedOwner : String → String := fun _ => "A"

/-- The first work's call, completed. -/
def sharedStep (name : String) : ExecutionStep where
  id := "step:1"
  requestVersion := 1
  kind := name
  input := []
  output := some (.whole ⟨[], some []⟩)

def sharedSteps (name : String) : StepStore := (StepStore.init.save "A" (sharedStep name)).2

def sharedEnv (workId : String) (fence : Nat) (steps : StepStore) : RestoreEnv where
  sha256 _ := ""
  work := sharedWork workId
  fence := fence
  steps := steps
  ledger := .init
  steer := 0
  serviceTools := []
  contextTools := [{ name := "bills__read", action := "bills.read", effect := .read },
    { name := "bills__pay", action := "bills.pay", effect := .uncertain }]
  execute _ := .ok { ok := true }

/-- The first work saved its call and left. -/
def leftBehind (name : String) : SharedSession := ⟨[.functionCall (sharedCall name)], none⟩

theorem leftBehind_reachable (name : String) :
    (sharedSession sharedOwner).Reachable (leftBehind name) := by
  have hstart : (sharedSession sharedOwner).start ⟨[], none⟩ := ⟨rfl, rfl⟩
  have hclaim : (sharedSession sharedOwner).Reachable ⟨[], some "A"⟩ := by
    apply (TransitionSystem.Reachable.of_start hstart).next
      (e := .claim (sharedEnv "A" 1 .init) none [])
    exact ⟨rfl, .inr ⟨⟨none, [], []⟩, rfl, rfl⟩⟩
  have hsave : (sharedSession sharedOwner).Reachable
      ⟨[.functionCall (sharedCall name)], some "A"⟩ := by
    apply hclaim.next (e := .save [.functionCall (sharedCall name)])
    refine ⟨"A", rfl, ?_, rfl⟩
    intro call hcall
    cases List.mem_singleton.1 hcall
    rfl
  exact hsave.next (e := .leave) rfl

/-- The step of a call as `executeCall` saves it before the tool runs. -/
def startedSteps (name : String) : StepStore :=
  (StepStore.init.save "A" { sharedStep name with output := none }).2

theorem startedSteps_output (name : String) (version : Nat) (step : ExecutionStep)
    (h : (startedSteps name).get "A" "step:1" version = some step) : step.output = none := by
  have hsaved := (Option.filter_eq_some_iff.1 h).1
  cases (hsaved : some { sharedStep name with output := none } = some step)
  rfl

/-- A read that was running when the first attempt of its work ended is run by the next one. -/
theorem started_read_is_safe : ∃ tool ∈ (sharedEnv "A" 2 (startedSteps "bills__read")).contextTools,
    tool.name = "bills__read" ∧ tool.isSafe = true := by
  have hrestored : restoreHistory (sharedEnv "A" 2 (startedSteps "bills__read"))
      (some (sharedRequest "A")) (leftBehind "bills__read").history = .ok _ := rfl
  have hcall : sharedCall "bills__read" ∈ pendingList (leftBehind "bills__read").history :=
    List.mem_singleton.2 rfl
  exact unrecorded_call_is_safe hrestored hcall (startedSteps_output _) (fun _ => rfl)

end TwoWorks

end LingxiOS
