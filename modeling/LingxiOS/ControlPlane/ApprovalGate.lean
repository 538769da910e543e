-- SUMMARY: The executor on an action that needs an approval.
import LingxiOS.ControlPlane.ApprovalRows

/-! # The Approval Gate

While nobody has decided, the executor records the approval and goes no further.
Once the principal has approved what the preview still shows, it executes the tool. -/

namespace LingxiOS

open Program

namespace ActionRows

section Executor

variable {s : ActionSetting} {service : ServiceConfig} {cfg : ExecutorConfig} {tool : NativeTool}
  {rows : ActionRows} {conn : Nat} {work : TurnWork} {input : JsonObject}

/-- The control plane and its executor have the same tools, and the action is one of these. -/
structure Wired (s : ActionSetting) (service : ServiceConfig) (cfg : ExecutorConfig)
    (tool : NativeTool) : Prop where
  executed : cfg.tools.find? (fun tool => tool.definition.action == s.action.action) = some tool
  listed : service.tools.find? (fun tool => tool.action == s.action.action) = some tool.definition
  contract : service.toolContractHash = cfg.toolContractHash
  native : ∀ method, splitAction s.action.action ≠ some ("task", method)

/-- The intent is recorded for this version of the request and of the tool. -/
def Intended (service : ServiceConfig) (cfg : ExecutorConfig) (s : ActionSetting) (tool : NativeTool)
    (rows : ActionRows) : Prop :=
  ∃ intent, rows.intent = some (actionFingerprint service.sha256 s.work s.action, intent)
    ∧ intent.toolContractHash = some (cfg.toolContractHash tool.definition)
    ∧ ∃ version, s.version = some version
      ∧ Service.sameIntent s.work version s.action intent = true

theorem assertToolContract_obeys {conn : Option Nat} (hintended : Intended service cfg s tool rows) :
    (Native.assertToolContract cfg tool conn s.action).Obeys (monitor s)
      (fun rows' outcome => rows' = rows ∧ outcome = .ok ()) rows := by
  obtain ⟨intent, hintent, hhash, -⟩ := hintended
  unfold Native.assertToolContract
  refine Obeys.told trivial (fun _ h => h) ?_
  simp only [hintent, Option.map_some, Option.any_some, hhash, beq_self_eq_true, Bool.not_true]
  exact ⟨rfl, rfl⟩

/-- What calls leave behind that end with the approval, whether it is decided or not. -/
structure Recorded (service : ServiceConfig) (cfg : ExecutorConfig) (s : ActionSetting)
    (tool : NativeTool) (decision : Option Bool) (rows : ActionRows) : Prop where
  intended : Intended service cfg s tool rows
  unsettled : rows.receipt.any HostActionResult.isFinal = false
  approval : ∃ row, rows.approval = some row ∧ row.decision = decision
    ∧ row.toolContractHash = cfg.toolContractHash tool.definition
  small : (Json.obj s.preview).stringify.utf8ByteSize ≤ 64000
  parsed : ∃ input, tool.parse s.action.args = .ok input

theorem Recorded.of_eq {decision : Option Bool} {rows' : ActionRows}
    (h : Recorded service cfg s tool decision rows) (hintent : rows'.intent = rows.intent)
    (hreceipt : rows'.receipt = rows.receipt) (happroval : rows'.approval = rows.approval) :
    Recorded service cfg s tool decision rows' where
  intended := by
    obtain ⟨intent, h, hhash⟩ := h.intended
    exact ⟨intent, hintent.trans h, hhash⟩
  unsettled := hreceipt ▸ h.unsettled
  approval := happroval ▸ h.approval
  small := h.small
  parsed := h.parsed

/-- Nobody has decided about the action. -/
def Undecided (rows : ActionRows) : Prop := ∀ row, rows.approval = some row → row.decision = none

/-- An approval that is undecided is asked for. -/
theorem approvalGate_asks (happroval : tool.definition.approval = true)
    (hparsed : tool.parse s.action.args = .ok input) (hintended : Intended service cfg s tool rows)
    (hunsettled : rows.receipt.any HostActionResult.isFinal = false) (hundecided : Undecided rows) :
    (Native.approvalGate cfg tool conn s.action input).Obeys (monitor s) (fun rows' outcome =>
      ∀ answer, outcome = .ok answer → Recorded service cfg s tool none rows'
        ∧ answer = some (Native.pendingApproval (cfg.sha256 s.action.idempotencyKey) s.preview))
      rows := by
  unfold Native.approvalGate
  simp only [happroval, Bool.not_true, Bool.false_eq_true, if_false]
  refine Obeys.told trivial (fun _ h => h) ?_
  split
  · intro answer h
    cases h
  · rename_i hsmall
    refine Obeys.told trivial (fun _ h => h) ?_
    obtain ⟨row, hrow⟩ : ∃ row, row = rows.approval.getD
        ⟨s.preview, none, cfg.toolContractHash tool.definition⟩ := ⟨_, rfl⟩
    have hdecision : row.decision = none := by
      cases hasked : rows.approval with
      | none =>
          rw [hrow, hasked]
          rfl
      | some asked =>
          rw [hrow, hasked]
          exact hundecided asked hasked
    refine Obeys.told (a := row) trivial (fun answer h => ?_) ?_
    · rw [hrow]
      exact h
    split
    · intro answer h
      cases h
    · rename_i hhash
      rw [hdecision]
      intro answer h
      cases h
      refine ⟨?_, rfl⟩
      exact {
        intended := hintended
        unsettled := hunsettled
        approval := ⟨row, congrArg some hrow.symm, hdecision, not_not.1 hhash⟩
        small := not_lt.1 hsmall
        parsed := ⟨input, hparsed⟩ }

/-- The approval lets the call go on, if the principal approved what the preview still shows. -/
theorem approvalGate_passes (happroval : tool.definition.approval = true)
    (h : Recorded service cfg s tool (some true) rows)
    (hpreview : ∀ row, rows.approval = some row → Json.deepEqual (.obj row.preview) (.obj s.preview)) :
    (Native.approvalGate cfg tool conn s.action input).Obeys (monitor s) (fun rows' outcome =>
      rows'.executions = rows.executions ∧ outcome = .ok none) rows := by
  obtain ⟨row, hrow, hdecision, hhash⟩ := h.approval
  have hsame : rows.approval.getD ⟨s.preview, none, cfg.toolContractHash tool.definition⟩ = row := by
    rw [hrow]
    rfl
  unfold Native.approvalGate
  simp only [happroval, Bool.not_true, Bool.false_eq_true, if_false]
  refine Obeys.told trivial (fun _ h => h) ?_
  rw [if_neg (not_lt.2 h.small)]
  refine Obeys.told trivial (fun _ h => h) ?_
  refine Obeys.told (a := row) trivial (fun answer h => ?_) ?_
  · rw [← hsame]
    exact h
  rw [if_neg (not_not.2 hhash), hdecision]
  simp only [hpreview row hrow, Bool.not_true, Bool.false_eq_true, if_false]
  exact ⟨rfl, rfl⟩

/-- The receipt that was found is none to answer with. -/
theorem filter_unsettled (h : rows.receipt.any HostActionResult.isFinal = false) :
    rows.receipt.filter (fun receipt => receipt.approval.isNone) = none := by
  cases hreceipt : rows.receipt with
  | none => rfl
  | some receipt =>
      rw [hreceipt] at h
      exact Option.filter_eq_none_iff.2 (fun r hr => by cases hr; exact Bool.eq_false_iff.1 h)

theorem Recorded.put {decision : Option Bool} {result : HostActionResult}
    (h : Recorded service cfg s tool decision rows) (hwaits : result.isFinal = false) :
    Recorded service cfg s tool decision (rows.put result) := by
  unfold ActionRows.put
  rw [if_neg (by simp [h.unsettled])]
  exact ⟨h.intended, by simpa using hwaits, h.approval, h.small, h.parsed⟩

/-! ### While the approval is undecided -/

section Asks

variable (happroval : tool.definition.approval = true)
  (hparsed : tool.parse s.action.args = .ok input) (hintended : Intended service cfg s tool rows)
  (hunsettled : rows.receipt.any HostActionResult.isFinal = false) (hundecided : Undecided rows)

include happroval hparsed hintended hunsettled hundecided

theorem run_asks : (Native.run cfg tool conn work s.action input).Obeys (monitor s)
    (fun rows' outcome => ∀ r, outcome = .ok r → Recorded service cfg s tool none rows'
      ∧ r = Native.pendingApproval (cfg.sha256 s.action.idempotencyKey) s.preview) rows := by
  unfold Native.run
  refine Obeys.told trivial (fun _ h => h) ?_
  apply Obeys.bind
  apply Obeys.mono (assertToolContract_obeys hintended)
  rintro _ _ ⟨rfl, rfl⟩
  refine Obeys.told trivial (fun _ h => h) ?_
  refine Obeys.told trivial (fun _ h => h) ?_
  refine Obeys.told trivial (fun _ h => h) ?_
  apply Obeys.bind
  refine Obeys.mono (approvalGate_asks happroval hparsed (by exact hintended) (by exact hunsettled)
      (by exact hundecided)) ?_
  intro rows' outcome hasks
  cases outcome with
  | error e =>
      intro r h
      cases h
  | ok answer =>
      obtain ⟨hrecorded, rfl⟩ := hasks answer rfl
      intro r h
      cases h
      exact ⟨hrecorded, rfl⟩

theorem writeReceipt_asks : (Native.writeReceipt cfg tool conn work s.action input).Obeys (monitor s)
    (fun rows' outcome => ∀ prepared, outcome = .ok prepared →
      ∃ r, prepared = .inr r ∧ r.isFinal = false ∧ Recorded service cfg s tool none rows') rows := by
  unfold Native.writeReceipt
  refine Obeys.told trivial (fun _ h => h) ?_
  refine Obeys.told trivial (fun _ h => h) ?_
  refine Obeys.told trivial (fun _ h => h) ?_
  refine Obeys.told trivial (fun _ h => h) ?_
  split
  · rename_i previous hfound
    cases hfound.symm.trans (filter_unsettled hunsettled)
  · apply Obeys.bind
    refine Obeys.mono (run_asks happroval hparsed (by exact hintended) (by exact hunsettled)
      (by exact hundecided)) ?_
    intro rows' outcome hran
    cases outcome with
    | error e =>
        intro prepared h
        cases h
    | ok r =>
        obtain ⟨hrecorded, rfl⟩ := hran r rfl
        refine Obeys.told trivial (fun _ h => h) ?_
        refine Obeys.told trivial (fun _ h => h) ?_
        intro prepared h
        cases h
        exact ⟨_, rfl, rfl, hrecorded.put rfl⟩

theorem executeTransaction_asks :
    (Native.executeTransaction cfg tool work s.action input).Obeys (monitor s)
      (fun rows' outcome => ∀ r, outcome = .ok r →
        Recorded service cfg s tool none rows' ∧ r.isFinal = false) rows := by
  unfold Native.executeTransaction
  apply Obeys.perform_bind trivial
  · intro e _ r h
    cases h
  · intro conn _
    apply Obeys.bind
    apply Obeys.attempt
    refine Obeys.mono (writeReceipt_asks happroval hparsed (by exact hintended) (by exact hunsettled)
      (by exact hundecided)) ?_
    intro rows' outcome hasks
    cases outcome with
    | error failure =>
        refine Obeys.told trivial (fun _ h => h) ?_
        cases failure <;> exact fun r h => by cases h
    | ok prepared =>
        obtain ⟨result, rfl, hwaits, hrecorded⟩ := hasks prepared rfl
        refine Obeys.told trivial (fun _ h => h) ?_
        intro r h
        cases h
        exact ⟨hrecorded.of_eq rfl rfl rfl, hwaits⟩

theorem approve_asks : (Native.approve cfg tool work s.action input).Obeys (monitor s)
    (fun rows' outcome => ∀ answer, outcome = .ok answer → Recorded service cfg s tool none rows'
      ∧ ∃ r, answer = some r ∧ r.isFinal = false) rows := by
  unfold Native.approve Native.withTransaction
  simp only [happroval, Bool.not_true, Bool.false_eq_true, if_false]
  apply Obeys.perform_bind trivial
  · intro e _ answer h
    cases h
  · intro conn _
    apply Obeys.bind
    apply Obeys.attempt
    refine Obeys.told trivial (fun _ h => h) ?_
    apply Obeys.bind
    refine Obeys.told trivial (fun _ h => h) ?_
    refine Obeys.told trivial (fun _ h => h) ?_
    apply Obeys.bind
    refine Obeys.mono (approvalGate_asks happroval hparsed (by exact hintended) (by exact hunsettled)
      (by exact hundecided)) ?_
    intro rows' outcome hasks
    cases outcome with
    | error e =>
        refine Obeys.bind (Obeys.attempt (Obeys.perform trivial fun answer _ => ?_))
        intro r h
        cases h
    | ok answer =>
        obtain ⟨hrecorded, rfl⟩ := hasks answer rfl
        refine Obeys.told trivial (fun _ h => h) ?_
        intro r h
        cases h
        exact ⟨hrecorded.of_eq rfl rfl rfl, _, rfl, rfl⟩

theorem executeOther_asks : (Native.executeOther cfg tool work s.action input).Obeys (monitor s)
    (fun rows' outcome => ∀ r, outcome = .ok r →
      Recorded service cfg s tool none rows' ∧ r.isFinal = false) rows := by
  unfold Native.executeOther
  refine Obeys.told trivial (fun _ h => h) ?_
  apply Obeys.bind
  apply Obeys.mono (assertToolContract_obeys hintended)
  rintro _ _ ⟨rfl, rfl⟩
  refine Obeys.told trivial (fun _ h => h) ?_
  refine Obeys.told trivial (fun _ h => h) ?_
  apply Obeys.bind
  refine Obeys.mono (approve_asks happroval hparsed (by exact hintended) (by exact hunsettled)
      (by exact hundecided)) ?_
  intro rows' outcome hasks
  cases outcome with
  | error e =>
      intro r h
      cases h
  | ok answer =>
      obtain ⟨hrecorded, result, rfl, hwaits⟩ := hasks answer rfl
      intro r h
      cases h
      exact ⟨hrecorded, hwaits⟩

end Asks

/-! ### Once the principal has approved -/

section Executes

variable {n : Nat} (happroval : tool.definition.approval = true)
  (hpreview : ∀ row, rows.approval = some row → Json.deepEqual (.obj row.preview) (.obj s.preview))

/-- Up to its `COMMIT` the transaction executes nothing but the tool. -/
theorem finish_keeps {result : HostActionResult} (hn : rows.executions = n) :
    Program.Obeys (monitor s) (fun rows' _ => rows'.executions = n) rows (do
      Native.await .throwIfAborted
      if result.isUnknown then
        Native.noEffect "transactional tool must return a settled result"
      else if !result.ok && result.approval.isNone then do
        Native.await (.rollback conn)
        pure (Sum.inl { result with executionState := some .noEffect })
      else do
        Native.await (.insertReceipt conn s.action.idempotencyKey result)
        pure (Sum.inr result)) := by
  apply perform_keeps rfl hn
  intro _ rows' hn
  split
  · exact hn
  · split
    · exact perform_keeps rfl hn fun _ _ hn => hn
    · exact perform_keeps rfl hn fun _ _ hn => hn

include happroval hpreview

theorem run_executes (h : Recorded service cfg s tool (some true) rows) :
    (Native.run cfg tool conn work s.action input).Obeys (monitor s)
      (fun rows' _ => rows'.executions = rows.executions + 1) rows := by
  unfold Native.run
  refine Obeys.told trivial (fun _ h => h) ?_
  apply Obeys.bind
  apply Obeys.mono (assertToolContract_obeys h.intended)
  rintro rows _ ⟨rfl, rfl⟩
  refine Obeys.told trivial (fun _ h => h) ?_
  refine Obeys.told trivial (fun _ h => h) ?_
  refine Obeys.told trivial (fun _ h => h) ?_
  apply Obeys.bind
  apply Obeys.mono (approvalGate_passes happroval h hpreview)
  rintro rows' _ ⟨hn, rfl⟩
  apply Obeys.perform trivial
  intro answer _
  exact congrArg (· + 1) hn

theorem executeTransaction_executes (h : Recorded service cfg s tool (some true) rows) :
    (Native.executeTransaction cfg tool work s.action input).Obeys (monitor s)
      (fun rows' _ => rows'.executions = rows.executions + 1) rows := by
  unfold Native.executeTransaction
  apply Obeys.perform_bind trivial
  · rintro e ⟨conn, h⟩
    cases h
  · intro conn _
    apply Obeys.bind
    apply Obeys.attempt
    have hwrites : (Native.writeReceipt cfg tool conn work s.action input).Obeys (monitor s)
        (fun rows' _ => rows'.executions = rows.executions + 1) rows := by
      unfold Native.writeReceipt
      refine Obeys.told trivial (fun _ h => h) ?_
      refine Obeys.told trivial (fun _ h => h) ?_
      refine Obeys.told trivial (fun _ h => h) ?_
      refine Obeys.told trivial (fun _ h => h) ?_
      split
      · rename_i previous hfound
        cases hfound.symm.trans (filter_unsettled h.unsettled)
      · apply Obeys.bind
        refine Obeys.mono (run_executes happroval ?_ (h.of_eq rfl rfl rfl)) ?_
        · exact hpreview
        · intro rows' outcome hn
          cases outcome with
          | error e => exact hn
          | ok result => exact finish_keeps hn
    apply Obeys.mono hwrites
    intro rows' outcome hn
    cases outcome with
    | error failure =>
        refine perform_keeps rfl hn fun _ _ hn => ?_
        cases failure <;> exact hn
    | ok prepared =>
        cases prepared with
        | inl refused => exact hn
        | inr result => exact perform_keeps rfl hn fun _ _ hn => hn

theorem approve_passes (h : Recorded service cfg s tool (some true) rows) :
    (Native.approve cfg tool work s.action input).Obeys (monitor s)
      (fun rows' outcome => rows'.executions = rows.executions ∧ outcome = .ok none) rows := by
  unfold Native.approve Native.withTransaction
  simp only [happroval, Bool.not_true, Bool.false_eq_true, if_false]
  apply Obeys.perform_bind trivial
  · rintro e ⟨conn, h⟩
    cases h
  · intro conn _
    apply Obeys.bind
    apply Obeys.attempt
    refine Obeys.told trivial (fun _ h => h) ?_
    apply Obeys.bind
    refine Obeys.told trivial (fun _ h => h) ?_
    refine Obeys.told trivial (fun _ h => h) ?_
    apply Obeys.bind
    refine Obeys.mono (approvalGate_passes happroval (h.of_eq rfl rfl rfl) ?_) ?_
    · exact hpreview
    · rintro rows' _ ⟨hn, rfl⟩
      refine Obeys.told trivial (fun _ h => h) ?_
      refine Obeys.told trivial (fun _ h => h) ?_
      exact ⟨(markInFlight_executions _).trans hn, rfl⟩

omit happroval hpreview in
/-- The tool is executed if its quota takes the call. -/
theorem executeQuota_executes {n : Nat} (hn : rows.executions = n) :
    (Native.executeQuota tool s.action input).Obeys (monitor s) (fun rows' _ => rows'.executions
      = n + if tool.maxConcurrency.all rows.load.takes then 1 else 0) rows := by
  subst hn
  unfold Native.executeQuota
  cases tool.maxConcurrency with
  | none =>
      apply Obeys.perform trivial
      intro answer _
      rfl
  | some maxConcurrency =>
      cases htakes : rows.load.takes maxConcurrency with
      | true =>
          refine Obeys.told (a := ()) trivial (fun answer h => ?_) ?_
          · exact (if_pos htakes).mp h
          · apply Obeys.perform trivial
            intro answer _
            simp [Option.all, htakes, monitor, next]
      | false =>
          apply Obeys.perform_bind trivial
          · intro e _
            simp [Option.all, htakes, monitor, next]
          · intro a h
            have herror := (if_neg (by simp [htakes])).mp h
            cases herror

theorem executeOther_executes (h : Recorded service cfg s tool (some true) rows) :
    (Native.executeOther cfg tool work s.action input).Obeys (monitor s)
      (fun rows' _ => rows'.executions
        = rows.executions + if tool.maxConcurrency.all rows.load.takes then 1 else 0) rows := by
  unfold Native.executeOther
  refine Obeys.told trivial (fun _ h => h) ?_
  apply Obeys.bind
  apply Obeys.mono (assertToolContract_obeys h.intended)
  rintro rows _ ⟨rfl, rfl⟩
  refine Obeys.told trivial (fun _ h => h) ?_
  refine Obeys.told trivial (fun _ h => h) ?_
  apply Obeys.bind
  refine Obeys.mono (Obeys.and (approve_passes happroval ?_ (h.of_eq rfl rfl rfl))
    (keeps_load _)) ?_
  · exact hpreview
  · rintro rows' _ ⟨⟨hn, rfl⟩, hload⟩
    unfold Native.executeExternal
    apply Obeys.bind
    apply Obeys.attempt
    apply Obeys.mono (executeQuota_executes hn)
    rw [hload]
    intro rows' answer hn'
    change rows'.executions
      = rows.executions + (if tool.maxConcurrency.all rows.load.takes then 1 else 0) at hn'
    generalize rows.executions + (if tool.maxConcurrency.all rows.load.takes then 1 else 0) = n
      at hn' ⊢
    have hsettle : ∀ result, Program.Obeys (monitor s) (fun rows' _ => rows'.executions = n) rows' (do
        if tool.definition.approval then
          Native.await (.settleInFlight s.action.idempotencyKey result)
        pure result) := by
      intro result
      rw [if_pos happroval]
      exact perform_keeps rfl hn' fun _ _ hn => hn
    cases answer with
    | ok result => exact hsettle _
    | error failure =>
        cases failure with
        | noEffect message code => exact hsettle _
        | _ => exact hn'

end Executes

end Executor

end ActionRows

end LingxiOS
