-- SUMMARY: A running cell against the host bridge once it is suspended.
import LingxiOS.Kernel.HostBridge

/-! # Suspension

A translation of `HostBridge.call` and of `execute` in `runner.py` around an
arbitrary cell: a cell is whatever it does next after the replies its calls have
had, exceptions included, so it may catch what a call raises and go on. -/

namespace LingxiOS

/-! ## The bridge -/

/-- An exception as a cell sees it or ends with it. -/
inductive CellException where
  | turnDeferred
  | approvalPending (id : String)
  | other (text : String)
  deriving DecidableEq

/-- What a host call gives the cell. -/
abbrev Reply := Except CellException (Option Json)

/-- What `read_message` gives a call: nothing that can be read, a message that is not
    the answer to the call, or the host's result. -/
inductive HostAnswer where
  | unreadable (error : String)
  | unexpected
  | result (result : HostActionResult)

namespace HostActionResult

def deferral (result : HostActionResult) : Option HostDirective :=
  result.directive.filter (fun directive => directive.type == .defer)

end HostActionResult

namespace HostBridge

/-- `call`, from the host's result on. -/
def accept (bridge : HostBridge) (result : HostActionResult) : HostBridge × Reply :=
  (bridge.receive result,
    match result.pendingApproval with
    | some id => .error (.approvalPending id)
    | none =>
        if !result.ok then
          .error (.other ((result.error.filter (fun text => text != "")).getD "host action failed"))
        else if result.deferral.isSome then .error .turnDeferred
        else .ok result.value)

/-- `call`, from `read_message` on. -/
def answer (bridge : HostBridge) : HostAnswer → HostBridge × Reply
  | .unreadable error => (bridge, .error (.other error))
  | .unexpected => (bridge, .error (.other "unexpected host bridge response"))
  | .result result => bridge.accept result

end HostBridge

/-! ## The cell -/

/-- What a cell does next. -/
inductive CellMove where
  /-- Call the host, with arguments that can be written or the error writing them raises. -/
  | call (action : String) (args : Except String JsonObject)
  /-- End, with an exception or a shaped value; collecting the artifacts may fail. -/
  | finish (outcome : Except CellException Json) (artifacts : Except String (List KernelArtifact))

/-- A cell: what it does after the replies it has had, if it ever does anything. -/
abbrev Cell := List Reply → Option CellMove

/-- The `execution_result` message, less the streams and the duration. -/
structure ExecutionReport where
  id : String
  ok : Bool
  result : Option Json
  error : Option String
  approvalId : Option String
  artifacts : List KernelArtifact
  directives : List HostDirective

/-- The end of `execute`. -/
def HostBridge.report (bridge : HostBridge) (outcome : Except CellException Json)
    (artifacts : Except String (List KernelArtifact)) : ExecutionReport :=
  let approvalId :=
    match outcome with
    | .error (.approvalPending id) => some id
    | _ => none
  let error :=
    match artifacts, outcome with
    | .error text, _ => some text
    | .ok _, .error (.other text) => some text
    | .ok _, _ => none
  { id := bridge.executionId
    ok := error.isNone && approvalId.isNone
    result := outcome.toOption
    error := error
    approvalId := approvalId
    artifacts := artifacts.toOption.getD []
    directives := bridge.directives }

/-- An execution under way: the replies the cell has had, the calls that were sent
    with their answers, and the result once it is emitted. -/
structure CellRun where
  bridge : HostBridge
  replies : List Reply
  exchanges : List (HostCall × HostAnswer)
  report : Option ExecutionReport

namespace CellRun

def init (executionId : String) : CellRun := ⟨.begin executionId, [], [], none⟩

/-- One call of the cell; the host's answers come in the order of the calls sent. -/
def call (answers : Nat → HostAnswer) (run : CellRun) (action : String)
    (args : Except String JsonObject) : CellRun :=
  if run.bridge.deferred then { run with replies := run.replies ++ [.error .turnDeferred] }
  else
    let sent := { run.bridge with callIndex := run.bridge.callIndex + 1 }
    match args with
    | .error text =>
        { run with bridge := sent, replies := run.replies ++ [.error (.other text)] }
    | .ok args =>
        let answer := answers run.exchanges.length
        { run with
          bridge := (sent.answer answer).1
          replies := run.replies ++ [(sent.answer answer).2]
          exchanges := run.exchanges
            ++ [(⟨run.bridge.executionId, run.bridge.callIndex, action, args⟩, answer)] }

/-- One move of the cell. -/
def step (cell : Cell) (answers : Nat → HostAnswer) (run : CellRun) : CellRun :=
  match run.report, cell run.replies with
  | none, some (.call action args) => run.call answers action args
  | none, some (.finish outcome artifacts) =>
      { run with report := some (run.bridge.report outcome artifacts) }
  | _, _ => run

/-- An execution after some moves. -/
def after (cell : Cell) (answers : Nat → HostAnswer) (executionId : String) : Nat → CellRun
  | 0 => init executionId
  | n + 1 => (after cell answers executionId n).step cell answers

end CellRun

/-! ## Suspension -/

namespace HostAnswer

/-- The approval the answer leaves pending. -/
def pendingApproval : HostAnswer → Option String
  | .result given => given.pendingApproval
  | _ => none

/-- The directive to defer that the answer carries. -/
def deferral : HostAnswer → Option HostDirective
  | .result given => given.deferral
  | _ => none

/-- The answer suspends the cell. -/
def suspends (answer : HostAnswer) : Prop :=
  answer.pendingApproval.isSome ∨ answer.deferral.isSome

/-- The directive that the bridge takes note of. -/
def noted : HostAnswer → Option HostDirective
  | .result given => if given.pendingApproval.isNone && given.ok then given.directive else none
  | _ => none

/-- The directive to defer that the bridge takes note of. -/
def recorded (answer : HostAnswer) : Option HostDirective :=
  answer.noted.filter (fun directive => directive.type == .defer)

/-- The answer suspends the cell and only the exception says so. -/
def missed (answer : HostAnswer) : Prop := answer.suspends ∧ answer.recorded = none

/-- The result tells of the suspension. -/
def Reports (answer : HostAnswer) (report : ExecutionReport) : Prop :=
  (∃ id, report.approvalId = some id ∧ id ≠ "") ∨
    ∃ directive, answer.deferral = some directive ∧ directive ∈ report.directives

theorem deferral_of_recorded {answer : HostAnswer} {directive : HostDirective}
    (h : answer.recorded = some directive) : answer.deferral = some directive := by
  cases answer with
  | unreadable error => cases h
  | unexpected => cases h
  | result given =>
      obtain ⟨hnoted, htype⟩ := Option.filter_eq_some_iff.1 h
      simp only [noted, Option.ite_none_right_eq_some] at hnoted
      exact Option.filter_eq_some_iff.2 ⟨hnoted.2, htype⟩

theorem deferral_type {answer : HostAnswer} {directive : HostDirective}
    (h : answer.deferral = some directive) : directive.type = .defer := by
  cases answer with
  | unreadable error => cases h
  | unexpected => cases h
  | result given =>
      have hfilter : given.directive.filter (fun d => d.type == .defer) = some directive := h
      exact beq_iff_eq.1 (Option.filter_eq_some_iff.1 hfilter).2

theorem suspends_of_recorded {answer : HostAnswer} {directive : HostDirective}
    (h : answer.recorded = some directive) : answer.suspends :=
  .inr (by rw [deferral_of_recorded h]; rfl)

end HostAnswer

/-- Once a call has been answered with a suspension, no call is sent any more, and
    the result tells of it. -/
structure CellRun.Suspended (run : CellRun) : Prop where
  last : ∀ i exchange, run.exchanges[i]? = some exchange → exchange.2.suspends →
    i + 1 = run.exchanges.length
  reported : ∀ report, run.report = some report → ∀ exchange ∈ run.exchanges,
    exchange.2.suspends → exchange.2.Reports report

/-- A move that lets a pending approval through: the cell sends nothing and ends with
    the exception, if it ends. -/
def CellMove.yields : CellMove → Prop
  | .call _ (.ok _) => False
  | .call _ (.error _) => True
  | .finish (.error (.approvalPending id)) _ => id ≠ ""
  | .finish _ _ => False

/-- After a suspension that only an exception tells of, the cell lets it through. -/
def CellRun.Yields (cell : Cell) (run : CellRun) : Prop :=
  run.report = none → (∃ exchange ∈ run.exchanges, exchange.2.missed) →
    ∀ move, cell run.replies = some move → move.yields

/-! ## What the bridge takes note of -/

namespace HostBridge

theorem deferred_iff {bridge : HostBridge} :
    bridge.deferred = true ↔ ∃ directive ∈ bridge.directives, directive.type = .defer := by
  simp [deferred]

/-- The directives after an answer. -/
theorem directives_answer (bridge : HostBridge) (answer : HostAnswer) :
    (bridge.answer answer).1.directives = bridge.directives ++ answer.noted.toList := by
  cases answer with
  | unreadable error => simp [HostBridge.answer, HostAnswer.noted]
  | unexpected => simp [HostBridge.answer, HostAnswer.noted]
  | result given =>
      simp only [HostBridge.answer, accept, receive, HostAnswer.noted]
      cases given.pendingApproval with
      | some id => simp
      | none =>
          cases given.ok with
          | false => simp
          | true => simp

theorem mem_directives_answer (bridge : HostBridge) {answer : HostAnswer}
    {directive : HostDirective} (h : answer.recorded = some directive) :
    directive ∈ (bridge.answer answer).1.directives := by
  rw [directives_answer, (Option.filter_eq_some_iff.1 h).1]
  simp

/-- Only an answer that is taken note of makes the bridge defer. -/
theorem deferred_answer {bridge : HostBridge} {answer : HostAnswer}
    (hbefore : bridge.deferred = false) (hafter : (bridge.answer answer).1.deferred = true) :
    answer.recorded.isSome := by
  obtain ⟨directive, hmem, htype⟩ := deferred_iff.1 hafter
  rw [directives_answer] at hmem
  rcases List.mem_append.1 hmem with hmem | hmem
  · have hdeferred := deferred_iff.2 ⟨directive, hmem, htype⟩
    rw [hbefore] at hdeferred
    cases hdeferred
  · have hnoted : answer.noted = some directive := by simpa [eq_comm] using hmem
    rw [HostAnswer.recorded, hnoted]
    simp [Option.filter, htype]

end HostBridge

namespace CellRun

/-- What the bridge knows of the answers there have been. -/
structure Tracked (run : CellRun) : Prop where
  noted : ∀ exchange ∈ run.exchanges, ∀ directive, exchange.2.recorded = some directive →
    directive ∈ run.bridge.directives
  source : run.bridge.deferred = true → ∃ exchange ∈ run.exchanges, exchange.2.recorded.isSome
  reported : ∀ report, run.report = some report → report.directives = run.bridge.directives

/-- What one call of the cell can do. -/
theorem call_cases (answers : Nat → HostAnswer) (run : CellRun) (action : String)
    (args : Except String JsonObject) :
    ((run.call answers action args).exchanges = run.exchanges ∧
      (run.call answers action args).bridge.directives = run.bridge.directives ∧
      (run.bridge.deferred = true ∨ ∃ text, args = .error text)) ∨
    (run.bridge.deferred = false ∧ ∃ (sent : HostBridge) (object : JsonObject), args = .ok object ∧
      sent.directives = run.bridge.directives ∧
      (run.call answers action args).bridge = (sent.answer (answers run.exchanges.length)).1 ∧
      (run.call answers action args).exchanges = run.exchanges
        ++ [(⟨run.bridge.executionId, run.bridge.callIndex, action, object⟩,
          answers run.exchanges.length)]) := by
  unfold call
  cases hdeferred : run.bridge.deferred with
  | true => exact .inl ⟨rfl, rfl, .inl rfl⟩
  | false =>
      cases args with
      | error text => exact .inl ⟨rfl, rfl, .inr ⟨text, rfl⟩⟩
      | ok object =>
          exact .inr ⟨rfl, { run.bridge with callIndex := run.bridge.callIndex + 1 }, object,
            rfl, rfl, rfl, rfl⟩

@[simp] theorem call_report (answers : Nat → HostAnswer) (run : CellRun) (action : String)
    (args : Except String JsonObject) : (run.call answers action args).report = run.report := by
  unfold call
  split
  · rfl
  · cases args <;> rfl

/-- What one move of the cell can do. -/
theorem step_cases (cell : Cell) (answers : Nat → HostAnswer) (run : CellRun) :
    run.step cell answers = run ∨
    (run.report = none ∧ ∃ move, cell run.replies = some move ∧
      ((∃ action args, move = .call action args ∧
          run.step cell answers = run.call answers action args) ∨
        ∃ outcome artifacts, move = .finish outcome artifacts ∧
          run.step cell answers
            = { run with report := some (run.bridge.report outcome artifacts) })) := by
  unfold step
  cases hreport : run.report with
  | some report => exact .inl rfl
  | none =>
      cases hmove : cell run.replies with
      | none => exact .inl rfl
      | some move =>
          refine .inr ⟨rfl, move, rfl, ?_⟩
          cases move with
          | call action args => exact .inl ⟨action, args, rfl, rfl⟩
          | finish outcome artifacts => exact .inr ⟨outcome, artifacts, rfl, rfl⟩

theorem Tracked.call {run : CellRun} (h : run.Tracked) (hreport : run.report = none)
    (answers : Nat → HostAnswer) (action : String) (args : Except String JsonObject) :
    (run.call answers action args).Tracked := by
  have hnone : ∀ report, (run.call answers action args).report ≠ some report := by
    simp [hreport]
  rcases call_cases answers run action args with
    ⟨hexchanges, hdirectives, -⟩ | ⟨hdeferred, sent, object, -, hsent, hbridge, hexchanges⟩
  · refine ⟨?_, ?_, fun report hr => absurd hr (hnone report)⟩
    · rw [hexchanges, hdirectives]
      exact h.noted
    · rw [hexchanges, HostBridge.deferred_iff, hdirectives, ← HostBridge.deferred_iff]
      exact h.source
  · refine ⟨?_, ?_, fun report hr => absurd hr (hnone report)⟩
    · rw [hexchanges, hbridge]
      intro exchange hmem directive hrecorded
      rcases List.mem_append.1 hmem with hmem | hmem
      · rw [HostBridge.directives_answer, hsent]
        exact List.mem_append_left _ (h.noted exchange hmem directive hrecorded)
      · rw [List.mem_singleton.1 hmem] at hrecorded
        exact HostBridge.mem_directives_answer _ hrecorded
    · rw [hexchanges, hbridge]
      intro hafter
      have hbefore : sent.deferred = false := by
        rw [← hdeferred, HostBridge.deferred, HostBridge.deferred, hsent]
      exact ⟨_, List.mem_append_right _ (List.mem_singleton_self _),
        HostBridge.deferred_answer hbefore hafter⟩

theorem Tracked.step {run : CellRun} (h : run.Tracked) (cell : Cell)
    (answers : Nat → HostAnswer) : (run.step cell answers).Tracked := by
  rcases step_cases cell answers run with
    heq | ⟨hreport, move, -, ⟨action, args, -, heq⟩ | ⟨outcome, artifacts, -, heq⟩⟩
  · rwa [heq]
  · rw [heq]
    exact h.call hreport answers action args
  · rw [heq]
    refine ⟨h.noted, h.source, ?_⟩
    intro report hr
    cases hr
    rfl

theorem after_tracked (cell : Cell) (answers : Nat → HostAnswer) (executionId : String) (n : Nat) :
    (after cell answers executionId n).Tracked := by
  induction n with
  | zero => exact ⟨by simp [after, init], by simp [after, init, HostBridge.begin, HostBridge.deferred],
      by simp [after, init]⟩
  | succ n ih => exact ih.step cell answers

theorem Tracked.deferred_of_recorded {run : CellRun} (h : run.Tracked) {exchange : HostCall × HostAnswer}
    (hmem : exchange ∈ run.exchanges) (hrecorded : exchange.2.recorded.isSome) :
    run.bridge.deferred = true := by
  obtain ⟨directive, hdirective⟩ := Option.isSome_iff_exists.1 hrecorded
  exact HostBridge.deferred_iff.2 ⟨directive, h.noted exchange hmem directive hdirective,
    HostAnswer.deferral_type (HostAnswer.deferral_of_recorded hdirective)⟩

/-- A suspended cell sends nothing: the bridge defers, or the cell lets the
    exception through. -/
theorem Suspended.call {run : CellRun} {cell : Cell} (h : run.Suspended) (htracked : run.Tracked)
    (hyields : run.Yields cell) (hreport : run.report = none) (answers : Nat → HostAnswer)
    {action : String} {args : Except String JsonObject}
    (hmove : cell run.replies = some (.call action args)) :
    (run.call answers action args).Suspended := by
  have hnone : ∀ report, (run.call answers action args).report ≠ some report := by
    simp [hreport]
  refine ⟨?_, fun report hr => absurd hr (hnone report)⟩
  rcases call_cases answers run action args with
    ⟨hexchanges, -, -⟩ | ⟨hdeferred, sent, object, hargs, -, -, hexchanges⟩
  · rw [hexchanges]
    exact h.last
  · rw [hexchanges]
    intro i exchange hi hsuspends
    by_cases hlast : i = run.exchanges.length
    · simp [hlast]
    · have hlt : i < run.exchanges.length := by
        obtain ⟨hlt, -⟩ := List.getElem?_eq_some_iff.1 hi
        simp only [List.length_append, List.length_singleton] at hlt
        omega
      rw [List.getElem?_append_left hlt] at hi
      have hmem := List.mem_of_getElem? hi
      exfalso
      cases hrecorded : exchange.2.recorded with
      | some directive =>
          have := htracked.deferred_of_recorded hmem (by simp [hrecorded])
          rw [hdeferred] at this
          cases this
      | none =>
          have := hyields hreport ⟨exchange, hmem, hsuspends, hrecorded⟩ _ hmove
          rwa [hargs] at this

theorem Suspended.finish {run : CellRun} {cell : Cell} (h : run.Suspended)
    (htracked : run.Tracked) (hyields : run.Yields cell) (hreport : run.report = none)
    {outcome : Except CellException Json} {artifacts : Except String (List KernelArtifact)}
    (hmove : cell run.replies = some (.finish outcome artifacts)) :
    CellRun.Suspended { run with report := some (run.bridge.report outcome artifacts) } := by
  refine ⟨h.last, ?_⟩
  intro report hr exchange hmem hsuspends
  cases hr
  cases hrecorded : exchange.2.recorded with
  | some directive =>
      exact .inr ⟨directive, HostAnswer.deferral_of_recorded hrecorded,
        htracked.noted exchange hmem directive hrecorded⟩
  | none =>
      have hlets := hyields hreport ⟨exchange, hmem, hsuspends, hrecorded⟩ _ hmove
      cases outcome with
      | ok value => exact absurd hlets id
      | error exception =>
          cases exception with
          | turnDeferred => exact absurd hlets id
          | other text => exact absurd hlets id
          | approvalPending id => exact .inl ⟨id, rfl, hlets⟩

theorem Suspended.step {run : CellRun} {cell : Cell} (h : run.Suspended) (htracked : run.Tracked)
    (hyields : run.Yields cell) (answers : Nat → HostAnswer) :
    (run.step cell answers).Suspended := by
  rcases step_cases cell answers run with
    heq | ⟨hreport, move, hmove, ⟨action, args, rfl, heq⟩ | ⟨outcome, artifacts, rfl, heq⟩⟩
  · rwa [heq]
  · rw [heq]
    exact h.call htracked hyields hreport answers hmove
  · rw [heq]
    exact h.finish htracked hyields hreport hmove

/-- Where an answer was missed, the bridge has taken no note of any. -/
theorem not_deferred {run : CellRun} (h : run.Suspended) (htracked : run.Tracked)
    {exchange : HostCall × HostAnswer} (hmem : exchange ∈ run.exchanges)
    (hmissed : exchange.2.missed) : run.bridge.deferred = false := by
  cases hdeferred : run.bridge.deferred with
  | false => rfl
  | true =>
      obtain ⟨other, hother, hrecorded⟩ := htracked.source hdeferred
      obtain ⟨directive, hdirective⟩ := Option.isSome_iff_exists.1 hrecorded
      obtain ⟨i, hi⟩ := List.getElem?_of_mem hmem
      obtain ⟨j, hj⟩ := List.getElem?_of_mem hother
      have hilast := h.last i exchange hi hmissed.1
      have hjlast := h.last j other hj (HostAnswer.suspends_of_recorded hdirective)
      have hij : i = j := by omega
      rw [hij, hj, Option.some.injEq] at hi
      rw [hi, hmissed.2] at hdirective
      cases hdirective

/-- A cell that does not let a missed suspension through breaks it with its next move. -/
theorem Suspended.yields {run : CellRun} {cell : Cell} {answers : Nat → HostAnswer}
    (h : run.Suspended) (htracked : run.Tracked) (hnext : (run.step cell answers).Suspended) :
    run.Yields cell := by
  rintro hreport ⟨exchange, hmem, hmissed⟩ move hmove
  have hdeferred := not_deferred h htracked hmem hmissed
  cases move with
  | call action args =>
      have hstep : run.step cell answers = run.call answers action args := by
        simp [CellRun.step, hreport, hmove]
      rw [hstep] at hnext
      cases args with
      | error text => trivial
      | ok object =>
          obtain ⟨i, hi⟩ := List.getElem?_of_mem hmem
          have hexchanges : (run.call answers action (.ok object)).exchanges = run.exchanges
              ++ [(⟨run.bridge.executionId, run.bridge.callIndex, action, object⟩,
                answers run.exchanges.length)] := by
            simp [CellRun.call, hdeferred]
          have hlt := (List.getElem?_eq_some_iff.1 hi).1
          have hlast := hnext.last i exchange
            (by rw [hexchanges, List.getElem?_append_left hlt, hi]) hmissed.1
          rw [hexchanges, List.length_append, List.length_singleton] at hlast
          omega
  | finish outcome artifacts =>
      have hstep : run.step cell answers
          = { run with report := some (run.bridge.report outcome artifacts) } := by
        simp [CellRun.step, hreport, hmove]
      rw [hstep] at hnext
      rcases hnext.reported _ rfl exchange hmem hmissed.1 with
        ⟨id, hid, hne⟩ | ⟨directive, hdeferral, hdirective⟩
      · cases outcome with
        | ok value => cases hid
        | error exception =>
            cases exception with
            | turnDeferred => cases hid
            | other text => cases hid
            | approvalPending id => cases hid; exact hne
      · have := HostBridge.deferred_iff.2 ⟨directive, hdirective, HostAnswer.deferral_type hdeferral⟩
        rw [hdeferred] at this
        cases this

/-- A cell that catches the pending approval of its first call and calls again. -/
private def catching : Cell
  | [] => some (.call "mail.send" (.ok []))
  | [_] => some (.call "mail.list" (.ok []))
  | _ => some (.finish (.ok .null) (.ok []))

private def approvals : Nat → HostAnswer
  | 0 => .result { ok := true, executionState := some .awaitingApproval, approval := some "appr" }
  | _ => .result { ok := true }

end CellRun

end LingxiOS
