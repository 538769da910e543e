-- SUMMARY: Whether an approved action is executed by the next call.
import LingxiOS.ControlPlane.ApprovalGate
import LingxiOS.ControlPlane.AtMostOnce

/-! # Approvals

A call that ends with a receipt which waits has recorded its intent, the approval
and the preview. After the decision the next call passes the same checks, and
either reaches the tool or is held back by its reservation or by another action. -/

namespace LingxiOS

open Program

namespace ActionRows

section Ledger

variable {s : ActionSetting} {service : ServiceConfig} {cfg : ExecutorConfig} {tool : NativeTool}
  {proof : LeaseProof} {admitted : Service.Admitted} {rows : ActionRows}

/-- A call that ends with a receipt which waits for the approval has recorded all of it. -/
def Suspends (service : ServiceConfig) (cfg : ExecutorConfig) (s : ActionSetting) (tool : NativeTool)
    (rows' : ActionRows) (outcome : Except Failure ActionAnswer) : Prop :=
  ∀ r, outcome = .ok (.answered r) → r.isFinal = false → Recorded service cfg s tool none rows'

theorem Suspends.of_final {rows' : ActionRows} {r : HostActionResult} (hfinal : r.isFinal = true) :
    Suspends service cfg s tool rows' (.ok (.answered r)) := by
  intro r' h hwaits
  cases h
  rw [hfinal] at hwaits
  cases hwaits

theorem settledReadback_final {read : Option HostActionResult} {result : HostActionResult}
    (h : Service.settledReadback read = some result) : result.isFinal = true := by
  unfold Service.settledReadback at h
  split at h
  · cases h
  · rename_i found
    split at h
    · cases h
    · rename_i hsettled
      cases h
      have hnone : found.approval.isSome = false := by
        by_contra hsome
        simp [Bool.eq_true_of_not_eq_false hsome] at hsettled
      simpa [HostActionResult.isFinal] using hnone

/-- What is read back from the product waits for no approval. -/
theorem reconcileNative_final {work : TurnWork} {version : Nat} :
    ((Service.reconcileNative service work s.action version).interpret (Native.serve cfg)).Obeys
      (monitor s) (fun _ outcome => ∀ r, outcome = .ok (some r) → r.isFinal = true) rows := by
  unfold Service.reconcileNative
  apply Obeys.interpret_attempt
  refine ⟨trivial, fun answer _ => ?_⟩
  cases answer with
  | error e =>
      intro r h
      cases h
  | ok read =>
      show Obeys _ _ _ (interpret _ _)
      dsimp only
      cases hread : Service.settledReadback read with
      | none =>
          intro r h
          cases h
      | some result =>
          apply service_obeys rfl
          · intro e _ r h
            cases h
          · intro _ _ r h
            cases h
            exact settledReadback_final hread

/-- An approval that is undecided: the action is recorded, and waits. -/
theorem runAction_asks (hwired : Wired s service cfg tool)
    (happroval : tool.definition.approval = true) (hnative : admitted.namespace_ ≠ "task")
    (hintended : Intended service cfg s tool rows)
    (hunsettled : rows.receipt.any HostActionResult.isFinal = false) (hundecided : Undecided rows) :
    ((Service.runAction admitted s.action).interpret (Native.serve cfg)).Obeys (monitor s)
      (Suspends service cfg s tool) rows := by
  unfold Service.runAction Service.dispatch
  rw [if_neg hnative]
  apply Obeys.interpret_attempt
  have hexecute : (Native.execute cfg admitted.work s.action).Obeys (monitor s)
      (fun rows' outcome => ∀ r, outcome = .ok r →
        Recorded service cfg s tool none rows' ∧ r.isFinal = false) rows := by
    unfold Native.execute
    rw [hwired.executed]
    cases hparsed : tool.parse s.action.args with
    | error message =>
        simp only [hparsed]
        intro r h
        cases h
    | ok input =>
        simp only [hparsed]
        split
        · exact executeTransaction_asks happroval hparsed hintended hunsettled hundecided
        · exact executeOther_asks happroval hparsed hintended hunsettled hundecided
  apply Obeys.mono hexecute
  intro rows' outcome hasks
  apply service_obeys rfl
  · intro e _ r h
    cases h
  · rintro recorded hrecorded
    cases outcome with
    | error failure =>
        -- The receipt of a failure, or the one that is stored already: both are final.
        apply Suspends.of_final
        cases hstored : rows'.receipt.filter HostActionResult.isFinal with
        | none =>
            have hsame : recorded = Service.failedReceipt admitted failure := by
              simpa [hstored] using answers_record.1 hrecorded
            rw [hsame]
            rfl
        | some stored =>
            have hsame : recorded = stored := by
              simpa [hstored] using answers_record.1 hrecorded
            rw [hsame]
            exact (Option.filter_eq_some_iff.1 hstored).2
    | ok result =>
        obtain ⟨hall, hwaits⟩ := hasks result rfl
        intro r _ _
        exact hall.put hwaits

theorem replayOrRun_asks {reservation : ActionLedger.Reservation} (hwired : Wired s service cfg tool)
    (happroval : tool.definition.approval = true) (hnative : admitted.namespace_ ≠ "task")
    (hintended : Intended service cfg s tool rows) (hundecided : Undecided rows) :
    ((Service.replayOrRun service admitted s.action reservation).interpret (Native.serve cfg)).Obeys
      (monitor s) (Suspends service cfg s tool) rows := by
  have hreconciles : ∀ {fallback : HostActionResult} {rows' : ActionRows},
      fallback.isFinal = true →
        ((Service.reconcileNative service admitted.work s.action admitted.requestVersion >>= fun read =>
          pure (.answered (read.getD fallback))).interpret (Native.serve cfg)).Obeys (monitor s)
            (Suspends service cfg s tool) rows' := by
    intro fallback rows' hfallback
    apply Obeys.interpret_bind
    apply Obeys.mono reconcileNative_final
    intro _ outcome hfinal
    cases outcome with
    | error e =>
        intro r h
        cases h
    | ok read =>
        apply Suspends.of_final
        cases read with
        | none => exact hfallback
        | some result => exact hfinal result rfl
  unfold Service.replayOrRun
  refine service_told rfl (fun _ h => h) ?_
  split
  · rename_i replayed hreplayed
    have hfinal : replayed.isFinal = true := (Option.filter_eq_some_iff.1 hreplayed).2
    split
    · exact hreconciles hfinal
    · exact Suspends.of_final hfinal
  · rename_i hnone
    have hunsettled : rows.receipt.any HostActionResult.isFinal = false := by
      cases hreceipt : rows.receipt with
      | none => rfl
      | some receipt =>
          rw [hreceipt] at hnone
          exact Bool.eq_false_of_not_eq_true (Option.filter_eq_none_iff.1 hnone receipt rfl)
    split
    · exact hreconciles rfl
    · exact runAction_asks hwired happroval hnative hintended hunsettled hundecided

/-- The intent that is recorded for an admitted action is its own. -/
theorem sameIntent_newIntent {intent : Option ActionIntent}
    (hadmits : s.Admits service proof intent admitted) :
    Service.sameIntent s.work admitted.requestVersion s.action
      (Service.newIntent service admitted s.action) = true := by
  simp [Service.sameIntent, Service.newIntent, ActionIntent.ownedBy, HostAction.same, hadmits.work]

/-- What an admitted action is reserved with. -/
theorem intended_of_reserved (hwired : Wired s service cfg tool)
    (hadmits : s.Admits service proof (rows.intent.map Prod.snd) admitted)
    (hcontract : admitted.existing.any (fun existing =>
      existing.toolContractHash != admitted.tool.map service.toolContractHash) = false)
    (hfingerprint : ∀ recorded intent, rows.intent = some (recorded, intent) →
      recorded = actionFingerprint service.sha256 admitted.work s.action) {key : String}
    {answer : Except Failure ActionLedger.Reservation} :
    Intended service cfg s tool (rows.next ⟨.service (.reserve key
      (actionFingerprint service.sha256 admitted.work s.action)
      (Service.newIntent service admitted s.action)), answer⟩) := by
  have htool : admitted.tool = some tool.definition := hadmits.tool.trans hwired.listed
  cases hintent : rows.intent with
  | none =>
      refine ⟨Service.newIntent service admitted s.action, ?_, ?_, admitted.requestVersion,
        hadmits.version, sameIntent_newIntent hadmits⟩
      · simp [next, hintent, hadmits.work]
      · simp [Service.newIntent, htool, hwired.contract]
  | some stored =>
      obtain ⟨recorded, intent⟩ := stored
      have hexisting : admitted.existing = some intent := by
        rw [hadmits.existing, hintent]
        rfl
      have hsame := hadmits.sameIntent
      rw [hintent] at hsame
      refine ⟨intent, ?_, ?_, admitted.requestVersion, hadmits.version, hsame⟩
      · rw [← hadmits.work, ← hfingerprint recorded intent hintent]
        simp [next, hintent]
      · simpa [hexisting, htool, hwired.contract] using hcontract

theorem settleAdmitted_asks (hwired : Wired s service cfg tool)
    (happroval : tool.definition.approval = true)
    (hadmits : s.Admits service proof (rows.intent.map Prod.snd) admitted)
    (hundecided : Undecided rows) :
    ((Service.settleAdmitted service admitted s.action).interpret (Native.serve cfg)).Obeys
      (monitor s) (Suspends service cfg s tool) rows := by
  have hnative : admitted.namespace_ ≠ "task" := by
    obtain ⟨method, hsplit, -⟩ := hadmits.granted
    intro htask
    exact hwired.native method (htask ▸ hsplit)
  have hrefused : ∀ {p : Service ActionAnswer} {rows' : ActionRows},
      (p.interpret (Native.serve cfg)).Obeys (monitor s) (fun _ outcome =>
        ∀ answer, outcome = .ok answer → ∃ result, answer = .refused result) rows' →
      (p.interpret (Native.serve cfg)).Obeys (monitor s) (Suspends service cfg s tool) rows' := by
    intro p rows' h
    apply Obeys.mono h
    intro rows' outcome hrefused r hanswer
    obtain ⟨result, h⟩ := hrefused _ hanswer
    cases h
  unfold Service.settleAdmitted
  split
  · unfold Service.changedContract
    refine service_told rfl (fun _ h => h) ?_
    split
    · intro r h
      cases h
    · rename_i prior hprior
      split
      · rename_i hsettled
        apply Suspends.of_final
        rw [HostActionResult.isSettled, Bool.and_eq_true] at hsettled
        exact hsettled.1
      · split
        · exact hrefused reject_obeys
        · intro r h
          cases h
  · rename_i hcontract
    have hreserve : ∀ {rows' : ActionRows}, rows' = rows →
        ((Service.reserveAndRun service admitted s.action).interpret (Native.serve cfg)).Obeys
          (monitor s) (Suspends service cfg s tool) rows' := by
      rintro _ rfl
      unfold Service.reserveAndRun
      apply service_obeys rfl
      · intro e _ r h
        cases h
      · intro reservation hreserved
        apply replayOrRun_asks hwired happroval hnative
        · apply intended_of_reserved hwired hadmits (Bool.eq_false_of_not_eq_true hcontract)
          intro recorded intent hintent
          rw [answers_reserve, hintent] at hreserved
          simp only at hreserved
          split at hreserved
          · rename_i hsame
            exact hsame
          · obtain ⟨failure, h⟩ := hreserved
            cases h
        · exact hundecided
    unfold Service.gate
    split
    · apply service_obeys rfl
      · intro e _ r h
        cases h
      · intro pending _
        split
        · intro r h
          cases h
        · exact hreserve rfl
    · exact hreserve rfl

/-- A call that is answered with a receipt which waits was admitted, and has recorded the
    action and its approval. -/
theorem executeAction_asks (hwired : Wired s service cfg tool)
    (happroval : tool.definition.approval = true) (hundecided : Undecided rows) :
    (Native.executeAction service cfg proof s.action).Obeys (monitor s) (fun rows' outcome =>
      Suspends service cfg s tool rows' outcome ∧ ∀ r, outcome = .ok (.answered r) →
        ∃ intent admitted, s.Admits service proof intent admitted) rows := by
  have hnone : ∀ {rows' : ActionRows} {outcome : Except Failure ActionAnswer},
      (∀ r, outcome ≠ .ok (.answered r)) →
        Suspends service cfg s tool rows' outcome ∧ ∀ r, outcome = .ok (.answered r) →
          ∃ intent admitted, s.Admits service proof intent admitted :=
    fun h => ⟨fun r hr => absurd hr (h r), fun r hr => absurd hr (h r)⟩
  unfold Native.executeAction Service.executeAction
  cases hproof : proof.isComplete with
  | false =>
      have hincomplete : (proof.id.isEmpty || !isSafeInteger proof.fence) = true :=
        (Bool.not_eq_false' _).mp hproof
      unfold Service.checkAction Service.requireLease
      rw [if_pos hincomplete]
      exact hnone (by simp)
  | true =>
      apply Obeys.interpret_bind
      apply Obeys.mono (checkAction_obeys hwired.native hproof)
      rintro rows' outcome (⟨admitted, hadmits, rfl, rfl⟩ | ⟨-, hrefused⟩)
      · apply Obeys.mono (settleAdmitted_asks hwired happroval hadmits hundecided)
        intro rows' outcome hsuspends
        exact ⟨hsuspends, fun _ _ => ⟨_, admitted, hadmits⟩⟩
      · cases outcome with
        | error e => exact hnone (by simp)
        | ok answer =>
            obtain ⟨result, rfl⟩ := hrefused answer rfl
            exact hnone (by simp)

/-! ### The call after the decision -/

theorem reconcileNative_keeps {work : TurnWork} {version n : Nat} (hn : rows.executions = n) :
    ((Service.reconcileNative service work s.action version).interpret (Native.serve cfg)).Obeys
      (monitor s) (fun rows' _ => rows'.executions = n) rows := by
  unfold Service.reconcileNative
  apply Obeys.interpret_attempt
  refine ⟨trivial, fun answer _ => ?_⟩
  cases answer with
  | error e => exact hn
  | ok read =>
      unfold Obeys
      show Obeys _ _ _ (interpret _ _)
      dsimp only
      cases Service.settledReadback read with
      | none => exact hn
      | some result =>
          exact service_keeps rfl hn fun _ _ hn => hn

section Approved

variable (hwired : Wired s service cfg tool) (happroval : tool.definition.approval = true)
  (hpreview : ∀ row, rows.approval = some row → Json.deepEqual (.obj row.preview) (.obj s.preview))
  (h : Recorded service cfg s tool (some true) rows)

include hwired happroval hpreview h

theorem runAction_executes (hnative : admitted.namespace_ ≠ "task") :
    ((Service.runAction admitted s.action).interpret (Native.serve cfg)).Obeys (monitor s)
      (fun rows' _ => rows'.executions
        = rows.executions + if quotaTakes tool rows.load then 1 else 0) rows := by
  have hexecute : (Native.execute cfg admitted.work s.action).Obeys (monitor s)
      (fun rows' _ => rows'.executions
        = rows.executions + if quotaTakes tool rows.load then 1 else 0) rows := by
    obtain ⟨input, hparsed⟩ := h.parsed
    unfold Native.execute
    rw [hwired.executed]
    simp only [hparsed]
    by_cases htransaction : tool.definition.effect = .transaction
    · have htakes : quotaTakes tool rows.load = true := by simp [quotaTakes, htransaction]
      rw [if_pos htransaction, htakes]
      exact executeTransaction_executes happroval hpreview h
    · have htakes : quotaTakes tool rows.load = tool.maxConcurrency.all rows.load.takes := by
        simp [quotaTakes, htransaction]
      rw [if_neg htransaction, htakes]
      exact executeOther_executes happroval hpreview h
  unfold Service.runAction Service.dispatch
  rw [if_neg hnative]
  apply Obeys.interpret_attempt
  apply Obeys.mono hexecute
  intro rows' outcome hn
  exact service_keeps rfl hn fun _ _ hn => hn

theorem replayOrRun_executes (hnative : admitted.namespace_ ≠ "task")
    (htool : admitted.tool = some tool.definition) (hfree : rows.blocked = false) :
    ((Service.replayOrRun service admitted s.action .existing).interpret (Native.serve cfg)).Obeys
      (monitor s) (fun rows' _ => rows'.executions = rows.executionsAfter tool) rows := by
  unfold Service.replayOrRun
  refine service_told rfl (fun _ h => h) ?_
  rw [filter_unsettled h.unsettled, htool]
  dsimp only
  split
  · rename_i huncertain
    have heffect : tool.definition.effect = .uncertain := by simpa using huncertain.2
    have hn : rows.executions = rows.executionsAfter tool := by simp [executionsAfter, heffect]
    apply Obeys.interpret_bind
    apply Obeys.mono (reconcileNative_keeps hn)
    intro rows' outcome hn
    cases outcome with
    | error e => exact hn
    | ok read => exact hn
  · rename_i hcertain
    have heffect : tool.definition.effect ≠ .uncertain := by simpa using hcertain
    apply Obeys.mono (runAction_executes hwired happroval hpreview h hnative)
    intro rows' outcome hn
    rw [hn]
    simp [executionsAfter, heffect, hfree]

theorem settleAdmitted_executes (heffect : tool.definition.effect ≠ .read)
    (hadmits : s.Admits service proof (rows.intent.map Prod.snd) admitted) :
    ((Service.settleAdmitted service admitted s.action).interpret (Native.serve cfg)).Obeys
      (monitor s) (fun rows' _ => rows'.executions = rows.executionsAfter tool) rows := by
  have hnative : admitted.namespace_ ≠ "task" := by
    obtain ⟨method, hsplit, -⟩ := hadmits.granted
    intro htask
    exact hwired.native method (htask ▸ hsplit)
  have htool : admitted.tool = some tool.definition := hadmits.tool.trans hwired.listed
  obtain ⟨intent, hintent, hhash, -⟩ := h.intended
  have hexisting : admitted.existing = some intent := by
    rw [hadmits.existing, hintent]
    rfl
  unfold Service.settleAdmitted
  rw [if_neg (by simp [hexisting, hhash, htool, hwired.contract])]
  unfold Service.gate
  rw [if_pos ⟨by simpa [htool] using heffect, hnative⟩]
  apply service_obeys rfl
  · rintro e ⟨items, h, -⟩
    cases h
  · rintro pending ⟨items, hitems, hblocked⟩
    cases hitems
    split
    · rename_i hother
      show rows.executions = _
      simp [executionsAfter, hblocked.symm.trans hother]
    · rename_i hother
      have hfree : rows.blocked = false :=
        hblocked.symm.trans (Bool.eq_false_of_not_eq_true hother)
      unfold Service.reserveAndRun
      refine service_told (a := ActionLedger.Reservation.existing) rfl (fun answer hreserved => ?_) ?_
      · simpa [hintent, hadmits.work, next] using answers_reserve.1 hreserved
      · have hkept : Recorded service cfg s tool (some true) (rows.next ⟨.service (.reserve
            s.action.idempotencyKey (actionFingerprint service.sha256 admitted.work s.action)
            (Service.newIntent service admitted s.action)), .ok .existing⟩) :=
          h.of_eq (by simp [next, hintent]) rfl rfl
        exact replayOrRun_executes hwired happroval hpreview hkept hnative htool hfree

/-- After the decision the next call executes the tool, unless its effect is uncertain or
    another action is unsettled. -/
theorem executeAction_executes (heffect : tool.definition.effect ≠ .read)
    (hproof : proof.isComplete = true)
    (hadmits : ∃ admitted, s.Admits service proof (rows.intent.map Prod.snd) admitted) :
    (Native.executeAction service cfg proof s.action).Obeys (monitor s)
      (fun rows' _ => rows'.executions = rows.executionsAfter tool) rows := by
  unfold Native.executeAction Service.executeAction
  apply Obeys.interpret_bind
  apply Obeys.mono (checkAction_obeys hwired.native hproof)
  rintro rows' outcome (⟨admitted, hadmitted, rfl, rfl⟩ | ⟨hno, -⟩)
  · exact settleAdmitted_executes hwired happroval hpreview h heffect hadmitted
  · obtain ⟨admitted, hadmitted⟩ := hadmits
    exact absurd hadmitted (hno admitted)

end Approved

end Ledger

/-! ## Both calls -/

/-- The work is claimed again, from any lane, and its session may have been saved. -/
def resumed (s : ActionSetting) (lane : WorkLane) (session : Option SessionRecord) : ActionSetting :=
  { s with work := { s.work with lane := lane }, session := session }

section Resumed

variable {s : ActionSetting} {service : ServiceConfig} {cfg : ExecutorConfig} {tool : NativeTool}
  {proof : LeaseProof} {rows : ActionRows} {lane : WorkLane} {session : Option SessionRecord}

/-- The decision leaves everything else recorded as it was. -/
theorem Recorded.approved {blocked : Bool} {load : QuotaLoad} (h : Recorded service cfg s tool none rows)
    (hversion : (resumed s lane session).version = s.version) :
    Recorded service cfg (resumed s lane session) tool (some true) (rows.approve blocked load) where
  intended := by
    obtain ⟨intent, hintent, hhash, version, hcurrent, hsame⟩ := h.intended
    exact ⟨intent, hintent, hhash, version, hversion.trans hcurrent, hsame⟩
  unsettled := h.unsettled
  approval := by
    obtain ⟨row, hrow, -, hhash⟩ := h.approval
    exact ⟨{ row with decision := some true }, by simp [approve, hrow], rfl, hhash⟩
  small := h.small
  parsed := h.parsed

/-- The checks of the next call find what they found before. -/
theorem admits_resumed {proof' : LeaseProof} {intent : Option ActionIntent}
    {admitted : Service.Admitted} (h : s.Admits service proof intent admitted)
    (hproof : proof'.isComplete = true) (hrecorded : Recorded service cfg s tool none rows)
    (hversion : (resumed s lane session).version = s.version) :
    ∃ admitted', (resumed s lane session).Admits service proof' (rows.intent.map Prod.snd) admitted' := by
  obtain ⟨recorded, hintent, -, version, hcurrent, hsame⟩ := hrecorded.intended
  have hrequest : admitted.requestVersion = version :=
    Option.some.inj (h.version.symm.trans hcurrent)
  refine ⟨{ admitted with work := (resumed s lane session).work, existing := some recorded }, ?_⟩
  exact {
    complete := hproof
    envelope := h.envelope
    granted := h.granted
    target := h.target
    version := hversion.trans h.version
    sameIntent := by
      rw [hintent]
      exact hrequest ▸ hsame
    mode := h.mode
    parameters := h.parameters
    work := rfl
    tool := h.tool
    existing := by rw [hintent]; rfl }

/-- A call records that an action needs an approval, the principal approves it, and the
    next call is made under a valid lease, with the tool, its preview, the grants and the
    request as they were. It executes the tool, once, exactly if the tool's effect is not
    an uncertain one, no other action of the work is unsettled, and the tool's quota takes
    the call. -/
theorem approved_action_executed_iff (hwired : Wired s service cfg tool)
    (happroval : tool.definition.approval = true) (heffect : tool.definition.effect ≠ .read)
    {first : List NativeEvent} {pending : HostActionResult} (hundecided : Undecided rows)
    (hfirst : (Native.executeAction service cfg proof s.action).Runs first (.ok (.answered pending)))
    (hfirst_answers : (monitor s).Trusts rows first) (hpending : pending.isFinal = false)
    (hpreview : ∀ row, ((monitor s).after rows first).approval = some row →
      Json.deepEqual (.obj row.preview) (.obj s.preview))
    {proof' : LeaseProof} {blocked : Bool} {load : QuotaLoad} {second : List NativeEvent}
    {outcome : Except Failure ActionAnswer} (hproof : proof'.isComplete = true)
    (hversion : (resumed s lane session).version = s.version)
    (hsecond : (Native.executeAction service cfg proof' s.action).Runs second outcome)
    (hsecond_answers : (monitor (resumed s lane session)).Trusts
      (((monitor s).after rows first).approve blocked load) second) :
    ((monitor (resumed s lane session)).after (((monitor s).after rows first).approve blocked load)
        second).executions = ((monitor s).after rows first).executions + 1
      ↔ tool.definition.effect ≠ .uncertain ∧ blocked = false ∧ quotaTakes tool load = true := by
  obtain ⟨hsuspends, hadmitted⟩ :=
    (executeAction_asks hwired happroval hundecided).runs hfirst hfirst_answers
  have hrecorded := hsuspends pending rfl hpending
  obtain ⟨intent, admitted, hadmits⟩ := hadmitted pending rfl
  have hwired' : Wired (resumed s lane session) service cfg tool :=
    ⟨hwired.executed, hwired.listed, hwired.contract, hwired.native⟩
  have hpreview' : ∀ row, (((monitor s).after rows first).approve blocked load).approval = some row →
      Json.deepEqual (.obj row.preview) (.obj (resumed s lane session).preview) := by
    intro row hrow
    obtain ⟨decided, hdecided, rfl⟩ := Option.map_eq_some_iff.1 hrow
    exact hpreview decided hdecided
  have happroved : Recorded service cfg (resumed s lane session) tool (some true)
      (((monitor s).after rows first).approve blocked load) := hrecorded.approved hversion
  have hadmits' := admits_resumed hadmits hproof hrecorded hversion
  have hexecutes := (executeAction_executes hwired' happroval hpreview' happroved heffect hproof
    hadmits').runs hsecond hsecond_answers
  rw [hexecutes, executionsAfter]
  show (_ + if tool.definition.effect ≠ .uncertain ∧ blocked = false ∧ quotaTakes tool load
    then 1 else 0) = _ + 1 ↔ _
  split
  · rename_i hfree
    exact ⟨fun _ => hfree, fun _ => rfl⟩
  · rename_i hheld
    exact ⟨fun h => by simp [approve] at h, fun h => absurd h hheld⟩

end Resumed

/-! ### A payment that is approved -/

section Payment

private def approvedTool (effect : ToolEffect) : NativeTool where
  definition := { payTool with effect := effect, approval := true }
  parse := .ok

private def approvedConfig (effect : ToolEffect) : ExecutorConfig where
  sha256 _ := "h"
  toolContractHash tool := tool.name
  tools := [approvedTool effect]

private def approvedService (effect : ToolEffect) : ServiceConfig :=
  { payConfig with tools := [(approvedTool effect).definition] }

private def approvedSetting : ActionSetting where
  action := payAction 0
  work := payWork
  steer := []
  grants := [⟨"pay", none⟩]
  session := none
  preview := []

/-- What the stores and the product answer a call of the payment. -/
private def approvedHandler (rows : ActionRows) : (op : NativeOp) → Except Failure op.Value
  | .service (.getLeased _) => .ok (some ⟨payWork, 1, false⟩)
  | .service (.heartbeat _) => .ok (some ⟨false, false, []⟩)
  | .service (.authorizeWork _) => .ok ()
  | .service (.authorizeRequest _ _) => .ok ()
  | .service (.resolveGrants _) => .ok [⟨"pay", none⟩]
  | .service (.getSession _ _) => .ok none
  | .service (.findIntent _) => .ok (rows.intent.map Prod.snd)
  | .service (.find _) => .ok rows.receipt
  | .service (.unsettled _) => .ok (if rows.blocked then [⟨"other", "pay.send", .unknown⟩] else [])
  | .service (.reserve _ fingerprint _) => match rows.intent with
      | none => .ok .started
      | some (recorded, _) =>
          if recorded = fingerprint then .ok .existing else .error (.error "another action")
  | .service (.record _ result) => .ok ((rows.receipt.filter HostActionResult.isFinal).getD result)
  | .service (.recordResolution _) => .error (.error "no resolution")
  | .service (.prepare _ _ _) => .ok ()
  | .service (.execute _ _ _) => .error (.error "no executor")
  | .service (.reconcile _ _ _) => .ok none
  | .service (.taskAction _ _ _) => .error (.error "no task")
  | .connect => .ok 0
  | .selectReceipt _ _ => .ok rows.receipt
  | .selectIntent _ _ => .ok (rows.intent.map Prod.snd)
  | .selectApproval _ _ => match rows.approval with
      | some row => .ok row
      | none => .error (.error "no approval")
  | .preview _ _ _ => .ok []
  | .toolExecute _ _ _ => .ok (payReceipt "executed")
  | .begin_ _ _ => .ok ()
  | .setTimeouts _ => .ok ()
  | .commit _ => .ok ()
  | .rollback _ => .ok ()
  | .lockAction _ _ _ => .ok ()
  | .insertReceipt _ _ _ => .ok ()
  | .markInFlight _ _ _ => .ok ()
  | .settleInFlight _ _ => .ok ()
  | .insertApproval _ _ _ _ _ => .ok ()
  | .authorizeConversation _ _ => .ok ()
  | .assertObservation _ _ _ => .ok ()
  | .throwIfAborted => .ok ()
  | .authorize _ _ _ => .ok ()
  | .acquire _ maxConcurrency =>
      if rows.load.takes maxConcurrency then .ok () else .error (.error "resource queue is full")

private theorem approvedHandler_trusts (rows : ActionRows) (op : NativeOp) :
    (monitor approvedSetting).trusts rows ⟨op, approvedHandler rows op⟩ := by
  cases op with
  | service op =>
      cases op with
      | getLeased => exact ⟨_, rfl, rfl, rfl⟩
      | heartbeat => exact ⟨_, rfl, rfl, rfl⟩
      | unsettled =>
          refine ⟨_, rfl, ?_⟩
          cases hblocked : rows.blocked with
          | false => rfl
          | true =>
              show (List.any [_] _) = true
              decide +kernel
      | reserve key fingerprint intent =>
          have hhandler : approvedHandler rows (.service (.reserve key fingerprint intent))
              = match rows.intent with
                | none => .ok .started
                | some (recorded, _) => if recorded = fingerprint then .ok .existing
                    else .error (.error "another action") := rfl
          refine (answers_reserve (s := approvedSetting)).2 ?_
          rw [hhandler]
          cases rows.intent with
          | none => rfl
          | some stored =>
              simp only
              split
              · rfl
              · exact ⟨_, rfl⟩
      | _ => first | rfl | trivial
  | connect => exact ⟨0, rfl⟩
  | selectApproval conn id =>
      have hhandler : approvedHandler rows (.selectApproval conn id) = match rows.approval with
          | some row => .ok row
          | none => .error (.error "no approval") := rfl
      change match rows.approval with
        | some row => approvedHandler rows (.selectApproval conn id) = .ok row
        | none => ∃ failure, approvedHandler rows (.selectApproval conn id) = .error failure
      rw [hhandler]
      cases rows.approval with
      | none => exact ⟨_, rfl⟩
      | some row => rfl
  | acquire action maxConcurrency =>
      have hhandler : approvedHandler rows (.acquire action maxConcurrency)
          = if rows.load.takes maxConcurrency then .ok ()
            else .error (.error "resource queue is full") := rfl
      rw [hhandler]
      cases htakes : rows.load.takes maxConcurrency with
      | true => exact (if_pos htakes).mpr rfl
      | false => exact (if_neg (by simp [htakes])).mpr rfl
  | _ => first | rfl | trivial

private def approvedCall (effect : ToolEffect) : Native ActionAnswer :=
  Native.executeAction (approvedService effect) (approvedConfig effect) payProof (payAction 0)

/-- The rows after a call of the payment, and its outcome. -/
private def approvedRun (effect : ToolEffect) (rows : ActionRows) :
    List NativeEvent × Except Failure ActionAnswer :=
  (monitor approvedSetting).exec approvedHandler rows (approvedCall effect)

private def afterCall (effect : ToolEffect) (rows : ActionRows) : ActionRows :=
  (monitor approvedSetting).after rows (approvedRun effect rows).1

private theorem approvedRun_runs (effect : ToolEffect) (rows : ActionRows) :
    (approvedCall effect).Runs (approvedRun effect rows).1 (approvedRun effect rows).2
      ∧ (monitor approvedSetting).Trusts rows (approvedRun effect rows).1 :=
  ⟨Monitor.runs_exec _ _ _ _, Monitor.trusts_exec approvedHandler_trusts _ _⟩

/-- The call is answered with a receipt of this kind. -/
private def answeredWith (kind : HostActionResult → Bool) : Except Failure ActionAnswer → Bool
  | .ok (.answered result) => kind result
  | _ => false

private theorem of_answeredWith {kind : HostActionResult → Bool}
    {outcome : Except Failure ActionAnswer} (h : answeredWith kind outcome = true) :
    ∃ result, outcome = .ok (.answered result) ∧ kind result = true := by
  unfold answeredWith at h
  split at h
  · rename_i result
    exact ⟨result, rfl, h⟩
  · cases h

private theorem approved_wired (effect : ToolEffect) :
    Wired approvedSetting (approvedService effect) (approvedConfig effect) (approvedTool effect) := by
  refine ⟨rfl, rfl, rfl, fun method h => ?_⟩
  have hsplit : splitAction approvedSetting.action.action = some ("pay", "send") := by decide +kernel
  simp [hsplit] at h

/-- A payment whose effect is uncertain waits for its approval, is approved, and the next
    call answers that its outcome is unknown without executing it. -/
theorem approved_uncertain_action_not_executed :
    ∃ first second pending result,
      (approvedCall .uncertain).Runs first (.ok (.answered pending))
        ∧ (monitor approvedSetting).Trusts {} first ∧ pending.isFinal = false
        ∧ (approvedCall .uncertain).Runs second (.ok (.answered result))
        ∧ (monitor approvedSetting).Trusts
          (((monitor approvedSetting).after {} first).approve false {}) second
        ∧ result.isUnknown = true
        ∧ ((monitor approvedSetting).after
          (((monitor approvedSetting).after {} first).approve false {}) second).executions = 0 := by
  obtain ⟨hfirst, hfirst_answers⟩ := approvedRun_runs .uncertain {}
  obtain ⟨hsecond, hsecond_answers⟩ :=
    approvedRun_runs .uncertain ((afterCall .uncertain {}).approve false {})
  obtain ⟨pending, hpending, hwaits⟩ := of_answeredWith (by decide +kernel :
    answeredWith (fun result => !result.isFinal) (approvedRun .uncertain {}).2 = true)
  obtain ⟨result, hresult, hunknown⟩ := of_answeredWith (by decide +kernel :
    answeredWith HostActionResult.isUnknown
      (approvedRun .uncertain ((afterCall .uncertain {}).approve false {})).2 = true)
  rw [hpending] at hfirst
  rw [hresult] at hsecond
  exact ⟨_, _, pending, result, hfirst, hfirst_answers, by simpa using hwaits, hsecond,
    hsecond_answers, hunknown, by decide +kernel⟩

/-- A payment that takes effect in a transaction is executed once it is approved. -/
theorem approved_action_executed_iff_transaction :
    (afterCall .transaction ((afterCall .transaction {}).approve false {})).executions
      = (afterCall .transaction {}).executions + 1 := by
  obtain ⟨hfirst, hfirst_answers⟩ := approvedRun_runs .transaction {}
  obtain ⟨hsecond, hsecond_answers⟩ :=
    approvedRun_runs .transaction ((afterCall .transaction {}).approve false {})
  obtain ⟨pending, hpending, hwaits⟩ := of_answeredWith (by decide +kernel :
    answeredWith (fun result => !result.isFinal) (approvedRun .transaction {}).2 = true)
  rw [hpending] at hfirst
  have hpreview : ∀ row, (afterCall .transaction {}).approval = some row →
      Json.deepEqual (.obj row.preview) (.obj approvedSetting.preview) := by
    intro row hrow
    have hempty : (afterCall .transaction {}).approval.all
        (fun row => Json.deepEqual (.obj row.preview) (.obj [])) = true := by decide +kernel
    rw [hrow] at hempty
    exact hempty
  have hversion : (resumed approvedSetting payWork.lane none).version = approvedSetting.version := rfl
  exact (approved_action_executed_iff (approved_wired .transaction) rfl (by decide)
    (fun row h => by cases h) hfirst hfirst_answers (by simpa using hwaits) hpreview rfl hversion
    hsecond hsecond_answers).2 ⟨by decide, rfl, rfl⟩

end Payment

end ActionRows

end LingxiOS
