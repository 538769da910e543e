-- SUMMARY: What is unsettled when a write is handed over.
import LingxiOS.ControlPlane.AtMostOnce

/-! # The Gate on Writes

A write looks at the unsettled actions of its work, and reserves itself some awaits
later. What was unsettled at the look it has seen; what another call records between
the look and the hand-over it has not. -/

namespace LingxiOS

open Program

/-! ## Settled actions -/

namespace ActionLedger

/-- The effective receipt of the key is there, known and not waiting for an approval. -/
def SettledAt (ledger : ActionLedger) (key : String) : Prop :=
  ∃ result, ledger.effectiveResult key = some result ∧ result.isSettled = true

/-- A business action of the work is recorded under the key. -/
def Records (ledger : ActionLedger) (workId key : String) : Prop :=
  ∃ intent, ledger.intentDetails.get? key = some intent ∧ intent.workId = workId
    ∧ Text.hasPrefix "task." intent.action.action = false

/-- Every other business action of the work is settled. -/
def OthersSettled (ledger : ActionLedger) (workId key : String) : Prop :=
  ∀ other, other ≠ key → ledger.Records workId other → ledger.SettledAt other

theorem settledAt_of_pendingState {ledger : ActionLedger} {key : String}
    (h : pendingState (ledger.effectiveResult key) = none) : ledger.SettledAt key := by
  unfold pendingState at h
  split at h
  · cases h
  · rename_i result hresult
    split at h
    · cases h
    · rename_i happroval
      split at h
      · cases h
      · rename_i hunknown
        refine ⟨result, hresult, ?_⟩
        simpa [HostActionResult.isSettled, hunknown] using happroval

/-- No key is pending twice. -/
theorem pending_nodup (ledger : ActionLedger) (workId : String) :
    ((ledger.pending workId).map PendingAction.actionKey).Nodup := by
  apply ledger.intentDetails.nodup_filterMap
  intro entry item hitem
  split at hitem
  · cases hitem
  · obtain ⟨state, _, rfl⟩ := Option.map_eq_some_iff.1 hitem
    rfl

theorem mem_pending {ledger : ActionLedger} {workId key : String}
    (hrecords : ledger.Records workId key) (h : ¬ledger.SettledAt key) :
    ∃ item ∈ ledger.pending workId, item.actionKey = key := by
  obtain ⟨intent, hget, hwork, htask⟩ := hrecords
  cases hstate : pendingState (ledger.effectiveResult key) with
  | none => exact absurd (settledAt_of_pendingState hstate) h
  | some state =>
      refine ⟨⟨key, intent.action.action, state⟩, List.mem_filterMap.2 ⟨(key, intent), ?_, ?_⟩, rfl⟩
      · exact JsMap.get?_eq_some_iff.1 hget
      · simp [hwork, htask, hstate]

/-- A look that shows no other action means there is none: two pending actions have
    two keys, so the look was not cut off. -/
theorem othersSettled_of_unsettled {ledger : ActionLedger} {workId key : String}
    (h : ∀ item ∈ ledger.unsettled workId, item.actionKey = key) :
    ledger.OthersSettled workId key := by
  intro other hother hrecords
  by_contra hopen
  obtain ⟨item, hitem, hkey⟩ := mem_pending hrecords hopen
  rw [unsettled_eq] at h
  have hsame : ∀ k ∈ ((ledger.pending workId).take 65).map PendingAction.actionKey,
      k = key := by
    intro k hk
    obtain ⟨pending, hpending, rfl⟩ := List.mem_map.1 hk
    exact h pending hpending
  have hnodup : (((ledger.pending workId).take 65).map PendingAction.actionKey).Nodup :=
    (pending_nodup ledger workId).sublist ((List.take_sublist 65 _).map _)
  rw [List.eq_replicate_of_mem hsame, List.nodup_replicate, List.length_map,
    List.length_take] at hnodup
  rw [List.take_of_length_le (by omega)] at h
  exact hother (hkey.symm.trans (h item hitem))

end ActionLedger

/-! ## The calls -/

/-- What the built-in inspection of a work records while it runs: settled read-backs. -/
def ActionLedger.readsBack (ledger ledger' : ActionLedger) : Prop :=
  ∃ resolution : ActionResolution, resolution.result.isSettled = true
    ∧ ledger' = (ledger.recordResolution resolution).2

/-- Calls of `executeAction` for any actions of any works, under any leases. -/
def serviceCalls (cfg : ServiceConfig) :
    PoolSpec ActionLedger ServiceOp ServiceOp.Value Failure ActionAnswer where
  world := fun ledger event ledger' => ServiceEvent.onLedger ledger event ledger'
  env := ActionLedger.readsBack
  entry p := ∃ proof action, p = Service.executeAction cfg proof action
  start _ := True

/-- The tool of the action is no read. -/
def ServiceConfig.writes (cfg : ServiceConfig) (action : HostAction) : Prop :=
  (cfg.tools.find? fun tool => tool.action == action.action).map ToolDefinition.effect ≠ some .read

/-- The call has looked at the unsettled actions of the work and seen no other. -/
def Looked (trace : List ServiceEvent) (workId key : String) : Prop :=
  ∃ pending, ⟨.unsettled workId, .ok pending⟩ ∈ trace ∧ ∀ item ∈ pending, item.actionKey = key

theorem Looked.concat {trace : List ServiceEvent} {workId key : String} {event : ServiceEvent}
    (h : Looked trace workId key) : Looked (trace ++ [event]) workId key := by
  obtain ⟨pending, hmem, hkeys⟩ := h
  exact ⟨pending, List.mem_append_left _ hmem, hkeys⟩

/-- A write is handed over after a look, and what is read back is settled. -/
def gated (cfg : ServiceConfig) :
    Monitor ServiceOp ServiceOp.Value Failure (List ServiceEvent) where
  allows trace op := match op with
    | .execute work action _ => cfg.writes action → Looked trace work.id action.idempotencyKey
    | .recordResolution resolution => resolution.result.isSettled = true
    | _ => True
  trusts _ _ := True
  next trace event := trace ++ [event]

theorem gated_after {cfg : ServiceConfig} (seen trace : List ServiceEvent) :
    (gated cfg).after seen trace = seen ++ trace := by
  induction trace generalizing seen with
  | nil => simp
  | cons event rest ih =>
      have hnext := ih (seen ++ [event])
      rw [List.append_assoc] at hnext
      exact hnext

namespace Service

variable {cfg : ServiceConfig} {action : HostAction} {admitted : Admitted}
  {trace : List ServiceEvent}

/-- The action may be handed over: it is no write, or the call has looked. -/
abbrev MayRun (cfg : ServiceConfig) (admitted : Admitted) (action : HostAction)
    (trace : List ServiceEvent) : Prop :=
  admitted.namespace_ ≠ "task" → cfg.writes action →
    Looked trace admitted.work.id action.idempotencyKey

theorem checks_gated : AllowsChecks (gated cfg) (fun _ => True) := by
  intro trace op answer _ hop
  refine ⟨?_, trivial⟩
  cases op <;> trivial

theorem reject_gated : AllowsRefusals (gated cfg) (fun _ => True) action :=
  refusals_of_record (fun _ _ _ => ⟨trivial, trivial⟩) (fun _ _ _ _ _ => ⟨trivial, trivial⟩)

theorem lookups_gated {I : List ServiceEvent → Prop}
    (hI : ∀ {trace} {event : ServiceEvent}, I trace → I (trace ++ [event])) :
    ∀ trace op answer, I trace → op.isLookup = true →
      (gated cfg).allows trace op ∧ I ((gated cfg).next trace ⟨op, answer⟩) := by
  intro trace op answer htrace hop
  refine ⟨?_, hI htrace⟩
  cases op <;> trivial

theorem MayRun.concat {event : ServiceEvent} (h : MayRun cfg admitted action trace) :
    MayRun cfg admitted action (trace ++ [event]) :=
  fun htask hwrites => (h htask hwrites).concat

theorem reconcileNative_gated {work : TurnWork} {requestVersion : Nat}
    (h : MayRun cfg admitted action trace) :
    (reconcileNative cfg work action requestVersion).Obeys (gated cfg)
      (fun trace _ => MayRun cfg admitted action trace) trace := by
  unfold reconcileNative
  apply Obeys.attempt_bind trivial
  intro read _
  split
  · exact h.concat
  · split
    · exact h.concat
    · rename_i hsettled
      apply Obeys.perform_bind
      · exact settledReadback_isSettled hsettled
      · intro _ _
        exact h.concat.concat
      · intro _ _
        exact h.concat.concat

theorem runAction_gated (h : MayRun cfg admitted action trace) :
    (runAction admitted action).Obeys (gated cfg)
      (fun trace _ => MayRun cfg admitted action trace) trace := by
  unfold runAction
  apply Obeys.bind
  apply Obeys.attempt
  have hdispatch : (dispatch admitted action).Obeys (gated cfg)
      (fun trace _ => MayRun cfg admitted action trace) trace := by
    unfold dispatch
    split
    · exact Obeys.perform trivial (fun _ _ => h.concat)
    · rename_i htask
      exact Obeys.perform (h htask) (fun _ _ => h.concat)
  apply Obeys.mono hdispatch
  intro trace outcome h
  apply Obeys.perform_bind trivial
  · intro _ _
    exact h.concat
  · intro _ _
    exact h.concat

theorem reserveAndRun_gated (h : MayRun cfg admitted action trace) :
    (reserveAndRun cfg admitted action).Obeys (gated cfg)
      (fun trace _ => MayRun cfg admitted action trace) trace :=
  reserveAndRun_obeys (lookups_gated fun h => h.concat)
    (fun _ h => reconcileNative_gated h) (fun _ _ _ _ h => ⟨trivial, h.concat⟩)
    (fun _ h => runAction_gated h) h

/-- The gate lets a write through only after a look that showed no other action. -/
theorem gate_gated
    (htool : admitted.tool = cfg.tools.find? fun tool => tool.action == action.action) :
    (gate cfg admitted action).Obeys (gated cfg) (fun _ _ => True) trace := by
  unfold gate
  split
  · apply Obeys.perform_bind trivial
    · intro _ _
      trivial
    · intro pending _
      split
      · trivial
      · rename_i hseen
        apply Obeys.mono (reserveAndRun_gated ?_) (fun _ => trivial)
        intro _ _
        refine ⟨pending, by simp [gated], ?_⟩
        intro item hitem
        by_contra hne
        exact hseen (List.any_eq_true.2 ⟨item, hitem, by simpa using hne⟩)
  · rename_i hfree
    apply Obeys.mono (reserveAndRun_gated ?_) (fun _ => trivial)
    intro htask hwrites
    exact absurd ⟨by rwa [htool], htask⟩ hfree

theorem executeAction_gated {proof : LeaseProof} :
    (executeAction cfg proof action).Obeys (gated cfg) (fun _ _ => True) trace := by
  unfold executeAction
  apply Obeys.bind
  apply Obeys.mono (checkAction_obeys checks_gated reject_gated trivial)
  intro trace outcome hadmits
  cases outcome with
  | error e => trivial
  | ok admission =>
      cases admission with
      | inl answer => trivial
      | inr admitted =>
          dsimp only
          unfold settleAdmitted
          split
          · exact Obeys.mono (changedContract_obeys (lookups_gated fun h => h) reject_gated trivial)
              (fun _ => trivial)
          · exact gate_gated hadmits.2

end Service

/-! ## Runs -/

section Runs

variable {cfg : ServiceConfig} {s₀ s s' : ActionPool} {label : ActionPoolStep}
  {labels : List ActionPoolStep}

/-- Every call hands writes over only after a look. -/
def Gated (cfg : ServiceConfig) (s : ActionPool) : Prop :=
  s.Each fun _ call => call.Obeys (gated cfg) (fun _ _ => True) []

theorem Gated.step (h : Gated cfg s) (hstep : (serviceCalls cfg).system.step s label s') :
    Gated cfg s' := by
  apply Pool.Each.step h hstep
  · rintro entry ⟨proof, action, rfl⟩
    exact Service.executeAction_gated
  · intro index event trace next _ hcall _
    exact hcall.step trivial

theorem Gated.of_start (hstart : (serviceCalls cfg).system.start s) : Gated cfg s := by
  intro index call hget
  rw [hstart.1] at hget
  cases hget

/-- A settled action stays settled, whatever the calls do. -/
theorem settledAt_step {key : String} (h : Gated cfg s)
    (hstep : (serviceCalls cfg).system.step s label s') (hsettled : s.shared.SettledAt key) :
    s'.shared.SettledAt key := by
  obtain ⟨result, hresult, hR⟩ := hsettled
  cases label with
  | begin entry =>
      obtain ⟨_, rfl⟩ := hstep
      exact ⟨result, hresult, hR⟩
  | step index event =>
      obtain ⟨trace, next, hget, hworld, _⟩ := hstep
      rcases ServiceEvent.onLedger_effective hworld hresult hR with
        hsame | ⟨resolution, hop, _, hnew⟩
      · exact ⟨result, hsame, hR⟩
      · obtain ⟨op, answer⟩ := event
        cases hop
        exact ⟨resolution.result, hnew, (h index _ hget).1⟩
  | other =>
      obtain ⟨⟨resolution, hread, hledger⟩, _⟩ := hstep
      rw [ActionLedger.SettledAt, hledger]
      rcases s.shared.effectiveResult_recordResolution resolution key with hsame | ⟨_, hnew⟩
      · exact ⟨result, hsame.trans hresult, hR⟩
      · exact ⟨resolution.result, hnew, hread⟩

theorem settledAt_run {key : String} (h : Gated cfg s)
    (hrun : (serviceCalls cfg).system.Run s labels s') (hsettled : s.shared.SettledAt key) :
    s'.shared.SettledAt key := by
  have hboth : Gated cfg s' ∧ s'.shared.SettledAt key := by
    apply hrun.preserves (I := fun s => Gated cfg s ∧ s.shared.SettledAt key)
    · rintro s label s' ⟨h, hsettled⟩ hstep
      exact ⟨h.step hstep, settledAt_step h hstep hsettled⟩
    · exact ⟨h, hsettled⟩
  exact hboth.2

/-- The ledger answers a look with what is unsettled then, and stays as it is. -/
theorem onLedger_unsettled {ledger ledger' : ActionLedger} {workId : String}
    {pending : List ActionLedger.PendingAction}
    (h : ServiceEvent.onLedger ledger ⟨.unsettled workId, .ok pending⟩ ledger') :
    pending = ledger.unsettled workId ∧ ledger' = ledger := by
  simp only [ServiceEvent.onLedger, ServiceOp.onLedger] at h
  rcases h with ⟨hanswer, hledger⟩ | ⟨⟨failure, hanswer⟩, _⟩
  · cases hanswer
    exact ⟨rfl, hledger⟩
  · cases hanswer

/-- Whenever a write is handed over, its call has looked at the unsettled actions of the
    work before. If no other business action of the work was recorded between the look
    and the hand-over, every other one is settled. -/
theorem write_gated (hstart : (serviceCalls cfg).system.start s₀)
    (hrun : (serviceCalls cfg).system.Run s₀ labels s) {index : Nat} {work : TurnWork}
    {action : HostAction} {requestVersion : Nat} {answer : Except Failure HostActionResult}
    (hstep : (serviceCalls cfg).system.step s
      (.step index ⟨.execute work action requestVersion, answer⟩) s')
    (hwrites : cfg.writes action) :
    ∃ pending before after look seen,
      (serviceCalls cfg).Happened s₀ labels s index ⟨.unsettled work.id, .ok pending⟩
        before after look seen
      ∧ ((∀ key, key ≠ action.idempotencyKey → s.shared.Records work.id key →
            look.shared.Records work.id key) →
          s.shared.OthersSettled work.id action.idempotencyKey) := by
  have hgated : Gated cfg s := hrun.preserves (fun h hstep => Gated.step h hstep) (.of_start hstart)
  obtain ⟨trace, next, hget, _, _⟩ := hstep
  have hlooked : Looked trace work.id action.idempotencyKey := by
    have hallows := (hgated index _ hget).1 hwrites
    rwa [gated_after, List.nil_append] at hallows
  obtain ⟨pending, hmem, hkeys⟩ := hlooked
  obtain ⟨before, after, look, seen, hlook⟩ := Pool.happened hstart.1 hrun hget hmem
  refine ⟨pending, before, after, look, seen, hlook, ?_⟩
  intro hsame other hother hrecords
  obtain ⟨_, _, _, hworld, _⟩ := hlook.step
  obtain ⟨rfl, hledger⟩ := onLedger_unsettled hworld
  have hsettled := ActionLedger.othersSettled_of_unsettled hkeys other hother
    (hsame other hother hrecords)
  rw [← hledger] at hsettled
  have hseen : Gated cfg seen :=
    (hlook.earlier.snoc hlook.step).preserves (fun h hstep => Gated.step h hstep) (.of_start hstart)
  exact settledAt_run hseen hlook.later hsettled

end Runs

/-! ### Two payments that look before either reserves itself -/

private def paymentCall (callIndex : Nat) : Service ActionAnswer :=
  Service.executeAction payConfig payProof (payAction callIndex)

/-- The first payment alone, up to its execution. -/
private def onePayment : List PayMove := .begin (paymentCall 0) :: List.replicate 8 (.step 0)

/-- Both payments look at the unsettled actions, both reserve themselves, and the second
    comes first to its execution. -/
private def twoPayments : List PayMove :=
  .begin (paymentCall 0) :: .begin (paymentCall 1) :: (List.replicate 6 (.step 0)
    ++ List.replicate 6 (.step 1) ++ List.replicate 2 (.step 0) ++ List.replicate 2 (.step 1))

private theorem payments_run {moves : List PayMove}
    (hmoves : ∀ entry, Move.begin entry ∈ moves → entry = paymentCall 0 ∨ entry = paymentCall 1) :
    (serviceCalls payConfig).system.Run ⟨.init, []⟩ (Pool.play payHandler ⟨.init, []⟩ moves).1
      (payPlay ⟨.init, []⟩ moves) := by
  apply Pool.run_of_play payHandler_world
  intro entry hentry
  rcases hmoves entry hentry with rfl | rfl
  · exact ⟨payProof, payAction 0, rfl⟩
  · exact ⟨payProof, payAction 1, rfl⟩

/-- The operation hands this payment of the work over. -/
private def handsOver (callIndex : Nat) (op : ServiceOp) : Bool :=
  match op with
  | .execute work action _ => work.id == "w" && action.action == "pay.send"
      && action.idempotencyKey == (payAction callIndex).idempotencyKey
  | _ => false

/-- A call that awaits the hand-over of a payment takes the step. -/
private theorem step_of_handsOver {s : ActionPool} {index callIndex : Nat}
    (h : (s.calls[index]?).any (fun call =>
      match call.rest with | .await op _ => handsOver callIndex op | .done _ => false) = true) :
    ∃ s' work action requestVersion answer, (serviceCalls payConfig).system.step s
        (.step index ⟨.execute work action requestVersion, answer⟩) s'
      ∧ work.id = "w" ∧ action.action = "pay.send"
      ∧ action.idempotencyKey = (payAction callIndex).idempotencyKey := by
  obtain ⟨⟨trace, rest⟩, hcall, hover⟩ := (Option.any_eq_true _ _).1 h
  cases rest with
  | done outcome => cases hover
  | await op next =>
      cases op with
      | execute work action requestVersion =>
          simp only [handsOver, Bool.and_eq_true, beq_iff_eq] at hover
          have hstep : (serviceCalls payConfig).system.step s
              (.step index ⟨.execute work action requestVersion, .ok (payReceipt "executed")⟩)
              ⟨s.shared, s.calls.set index
                ⟨trace ++ [⟨.execute work action requestVersion, .ok (payReceipt "executed")⟩],
                  next (.ok (payReceipt "executed"))⟩⟩ :=
            ⟨trace, next, hcall, payHandler_world _ (.execute work action requestVersion), rfl⟩
          exact ⟨_, work, action, requestVersion, _, hstep, hover.1.1, hover.1.2, hover.2⟩
      | _ => cases hover

private theorem writes_payment {action : HostAction} (h : action.action = "pay.send") :
    payConfig.writes action := by
  rw [ServiceConfig.writes, h]
  decide

/-- A payment of a work with no other action is handed over with every other one settled. -/
theorem payment_gated : ∃ s s' work action requestVersion answer,
    (serviceCalls payConfig).system.Reachable s
      ∧ (serviceCalls payConfig).system.step s
          (.step 0 ⟨.execute work action requestVersion, answer⟩) s'
      ∧ s.shared.OthersSettled work.id action.idempotencyKey := by
  have hrun := payments_run (by simp [onePayment] : ∀ entry, Move.begin entry ∈ onePayment → _)
  obtain ⟨s', work, action, requestVersion, answer, hstep, _, haction, hkey⟩ :=
    step_of_handsOver (by decide +kernel : ((payPlay ⟨.init, []⟩ onePayment).calls[0]?).any
      (fun call => match call.rest with | .await op _ => handsOver 0 op | .done _ => false) = true)
  obtain ⟨_, _, _, _, _, _, hsettled⟩ :=
    write_gated (⟨rfl, trivial⟩ : (serviceCalls payConfig).system.start ⟨.init, []⟩) hrun hstep
      (writes_payment haction)
  refine ⟨_, s', work, action, requestVersion, answer, ⟨_, _, ⟨rfl, trivial⟩, hrun⟩, hstep, ?_⟩
  apply hsettled
  rintro key hother ⟨intent, hget, _⟩
  have honly : (payPlay ⟨.init, []⟩ onePayment).shared.intentDetails.entries.all
      (fun entry => entry.1 == (payAction 0).idempotencyKey) = true := by decide +kernel
  have hsame := List.all_eq_true.1 honly _ (JsMap.get?_eq_some_iff.1 hget)
  exact absurd ((beq_iff_eq.1 hsame).trans hkey.symm) hother

private theorem first_unsettled {ledger : ActionLedger} {key : String}
    (hrecorded : (ledger.intentDetails.get? key).any (fun intent =>
      intent.workId == "w" && !Text.hasPrefix "task." intent.action.action) = true)
    (hnone : (ledger.effectiveResult key).isNone = true) :
    ledger.Records "w" key ∧ ¬ledger.SettledAt key := by
  obtain ⟨intent, hget, hintent⟩ := (Option.any_eq_true _ _).1 hrecorded
  rw [Bool.and_eq_true, beq_iff_eq, Bool.not_eq_true'] at hintent
  refine ⟨⟨intent, hget, hintent⟩, ?_⟩
  rintro ⟨result, hresult, _⟩
  rw [hresult] at hnone
  cases hnone

/-- The second payment of a work is executed, for the first time, while the first one is
    recorded without a receipt. -/
theorem payments_overlap : ∃ labels s s' work action requestVersion answer,
    (serviceCalls payConfig).system.Run ⟨.init, []⟩ labels s
      ∧ (serviceCalls payConfig).system.step s
          (.step 1 ⟨.execute work action requestVersion, answer⟩) s'
      ∧ payConfig.writes action ∧ labels.countP executes = 0
      ∧ ¬s.shared.OthersSettled work.id action.idempotencyKey := by
  have hrun := payments_run (by simp [twoPayments] : ∀ entry, Move.begin entry ∈ twoPayments → _)
  obtain ⟨s', work, action, requestVersion, answer, hstep, hwork, haction, hkey⟩ :=
    step_of_handsOver (by decide +kernel : ((payPlay ⟨.init, []⟩ twoPayments).calls[1]?).any
      (fun call => match call.rest with | .await op _ => handsOver 1 op | .done _ => false) = true)
  refine ⟨_, _, s', work, action, requestVersion, answer, hrun, hstep, writes_payment haction,
    by decide +kernel, ?_⟩
  obtain ⟨hrecords, hunsettled⟩ := @first_unsettled (payPlay ⟨.init, []⟩ twoPayments).shared
    (payAction 0).idempotencyKey (by decide +kernel) (by decide +kernel)
  intro hothers
  rw [hwork, hkey] at hothers
  exact hunsettled (hothers _ (by decide) hrecords)

end LingxiOS
