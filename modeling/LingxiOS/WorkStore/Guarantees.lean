-- SUMMARY: Session exclusivity and fencing of the work store.
import LingxiOS.WorkStore.System

/-! # Guarantees of the Work Store

Both results read a guarantee of the abstract lease protocol back off the rows:
at most one live lease for each session, and no lease proof that becomes valid
again. -/

namespace LingxiOS.WorkStore

variable {opts : WorkStoreOptions} {t₀ : Int}

/-- A live row carries a live lease. -/
theorem live_grantOf {row : WorkRow} {now : Int} (h : row.Live now) :
    (grantOf row).live now := by
  obtain ⟨hstatus, expiry, hexpiry, hnow⟩ := h
  exact ⟨by simp [grantOf, hstatus], by simpa [grantOf, hexpiry] using hnow⟩

/-! ## Session exclusivity -/

/-- In every reachable state a live leased row holds the lock of its session. -/
theorem guarded_of_reachable {s : Timed} (h : (system opts t₀).Reachable s) :
    FencedLease.Guarded (s.store.leases s.clock) s.clock :=
  FencedLease.guarded_of_reachable ((refinement opts t₀).reachable h)

/-- At most one row of a session is leased under a lease that has not run out,
    and that row alone owns the session lease, with its fence and its expiry. -/
theorem session_exclusive {s : Timed} (h : (system opts t₀).Reachable s) {now : Int}
    (hnow : s.clock ≤ now) :
    (∀ id id' row row', s.store.rows.get? id = some row → s.store.rows.get? id' = some row' →
      row.sessionKey = row'.sessionKey → row.Live now → row'.Live now → id = id') ∧
    (∀ id row, s.store.rows.get? id = some row → row.Live now →
      ∃ lease, s.store.sessionLeases.get? row.sessionKey = some lease ∧
        lease.workId = row.id ∧ lease.fence = row.fence ∧
        row.leaseExpiresAt = some lease.expiresAt ∧
        ∀ id' row', s.store.rows.get? id' = some row' → id' ≠ id → lease.workId ≠ row'.id) := by
  have hguarded := (guarded_of_reachable h).mono hnow
  have hids := (refinement opts t₀).inv_of_reachable h
  have hgrant : ∀ id row, s.store.rows.get? id = some row →
      (s.store.leases s.clock).grants id = some (grantOf row) := by
    intro id row hrow
    simp [leases, hrow]
  refine ⟨?_, ?_⟩
  · intro id id' row row' hrow hrow' hkey hlive hlive'
    exact hguarded.exclusive (hgrant id row hrow) (hgrant id' row' hrow') (live_grantOf hlive)
      (live_grantOf hlive') hkey
  · intro id row hrow hlive
    have hlock := hguarded id (grantOf row) (hgrant id row hrow) (live_grantOf hlive)
    obtain ⟨lease, hlease, heq⟩ := Option.map_eq_some_iff.1 hlock
    obtain ⟨hstatus, expiry, hexpiry, hlt⟩ := hlive
    simp only [lockOf, grantOf, hexpiry, Option.getD_some, FencedLease.Lock.mk.injEq] at heq
    obtain ⟨howner, hfence, hexpires⟩ := heq
    refine ⟨lease, hlease, howner.trans (hids id row hrow).symm, hfence, ?_, ?_⟩
    · rw [hexpiry, hexpires]
    · intro id' row' hrow' hne heq
      exact hne (by rw [← hids id' row' hrow', ← heq, howner])

/-! A first run: one work is enqueued, leased at 5 for 10 ms, and its lease runs
out at 15. -/

private def trialOptions : WorkStoreOptions := ⟨10, fun token => "digest of " ++ token⟩

private def trialInput : EnqueueWorkInput :=
  ⟨some "w1", "t", "a", "s", none, "turn", .interactive, "m1", none, none, none, none⟩

private def trialClaim (now : Int) (token : String) : Call × Int :=
  (.claim { workerId := "worker" } token, now)

private def advance (s : Timed) (c : Call × Int) : Timed :=
  ⟨(exec trialOptions s.store c.2 c.2 c.1).2, c.2⟩

private def trialQueued : Timed := advance ⟨init, 0⟩ (.enqueue trialInput "", 0)

private def trialLeased : Timed := advance trialQueued (trialClaim 5 "t1")

private theorem advance_step (s : Timed) (c : Call × Int) (h : s.clock ≤ c.2) :
    Step trialOptions s (.call c.2 c.2 c.1 (exec trialOptions s.store c.2 c.2 c.1).1)
      (advance s c) :=
  .call h le_rfl

private theorem trialQueued_reachable : (system trialOptions 0).Reachable trialQueued :=
  (TransitionSystem.Reachable.of_start rfl).run (.single (advance_step ⟨init, 0⟩ _ le_rfl))

private theorem trialLeased_reachable : (system trialOptions 0).Reachable trialLeased :=
  trialQueued_reachable.run (.single (advance_step trialQueued _ (by decide)))

/-- The leased work owns the lock of its session. -/
theorem session_exclusive_leased :
    ∃ lease, trialLeased.store.sessionLeases.get? ⟨"t", "a", "s", none⟩ = some lease ∧
      lease.workId = "w1" ∧ lease.fence = 1 ∧ some 15 = some lease.expiresAt := by
  have hexclusive := session_exclusive trialLeased_reachable (show trialLeased.clock ≤ 6 by decide)
  have hlive : (leasedRow trialOptions (newRow trialInput "w1" 0) "worker" "t1" 5).Live 6 :=
    ⟨rfl, 15, rfl, by decide⟩
  obtain ⟨lease, hlease, howner, hfence, hexpiry, -⟩ := hexclusive.2 "w1" _ rfl hlive
  exact ⟨lease, hlease, howner, hfence, hexpiry⟩

/-! ## Fencing -/

/-- The step leases a work: a claim that was not answered before returns it.
    (A repeated request gets its earlier answer again and leases nothing.) -/
def Leases (s : Timed) (e : Label) (work : WorkItem) : Prop :=
  ∃ now later request token, s.store.priorClaim request = none ∧
    e = .call now later (.claim request token) (.claimed (.ok (some work)))

/-- The step is a successful `yieldWork` of a work. -/
def Yields (e : Label) (id : String) : Prop :=
  ∃ now later proof, proof.id = id ∧ e = .call now later (.yieldWork proof) (.accepted true)

/-- The proof a leased work carries. -/
def issuedProof (opts : WorkStoreOptions) (work : WorkItem) : LeaseProof :=
  ⟨work.id, work.fence, opts.hashToken work.leaseToken⟩

/-- The answer of a call under a lease that is refused for its proof. `complete`
    throws on a waiting outcome before it looks at the proof. -/
def rejection : Call → Option (LeaseProof × Answer)
  | .heartbeat proof => some (proof, .heartbeat none)
  | .yieldWork proof => some (proof, .accepted false)
  | .wait proof _ => some (proof, .accepted false)
  | .complete proof completion => some (proof,
      if workStatusOf completion = .waiting then .completed (.error "waiting requires wait")
      else .completed (.ok false))
  | _ => none

/-- A call under a lease that presents an invalid proof is rejected and leaves
    the store as it was. -/
theorem exec_of_invalid {s : WorkStore} {now later : Int} {call : Call} {proof : LeaseProof}
    {answer : Answer} (hcall : rejection call = some (proof, answer))
    (hinvalid : s.validLease proof now = none) : exec opts s now later call = (answer, s) := by
  cases call with
  | heartbeat proof' =>
      obtain ⟨rfl, rfl⟩ : proof' = proof ∧ Answer.heartbeat none = answer := by
        simpa [rejection] using hcall
      simp [exec, heartbeat, hinvalid]
  | yieldWork proof' =>
      obtain ⟨rfl, rfl⟩ : proof' = proof ∧ Answer.accepted false = answer := by
        simpa [rejection] using hcall
      simp [exec, yieldWork, hinvalid]
  | wait proof' goalOutcome =>
      obtain ⟨rfl, rfl⟩ : proof' = proof ∧ Answer.accepted false = answer := by
        simpa [rejection] using hcall
      simp [exec, wait, settle, hinvalid]
  | complete proof' completion =>
      simp only [rejection, Option.some.injEq, Prod.mk.injEq] at hcall
      obtain ⟨rfl, rfl⟩ := hcall
      by_cases hwaiting : workStatusOf completion = .waiting
      · simp [exec, complete, hwaiting]
      · simp [exec, complete, settle, hinvalid, hwaiting]
  | enqueue | claim | getLeased | requestCancel | requestPreempt | addSteer =>
      simp [rejection] at hcall

/-- A claim that was not answered before returns the row it leases. -/
theorem claim_answer (opts : WorkStoreOptions) {s : WorkStore} (now : Int)
    {request : ClaimRequest} (token : String)
    (hprior : s.priorClaim request = none) :
    match s.claimedRow request now with
    | none => (claim opts s request token now).1 = .ok none
    | some row => ∃ homeEpoch, (claim opts s request token now).1
        = .ok (some (toWorkItem (leasedRow opts row request.workerId token now) token homeEpoch)) := by
  cases hrow : s.claimedRow request now with
  | none =>
      have hnil : ((s.evictClaim request).purge request.workerId now).candidates request now
          = [] := by simpa [claimedRow, hprior] using hrow
      simp [claim, hprior, claimFresh, hnil]
  | some row =>
      obtain ⟨rest, hcons⟩ : ∃ rest, ((s.evictClaim request).purge request.workerId
          now).candidates request now = row :: rest := by
        rw [claimedRow, hprior] at hrow
        exact List.head?_eq_some_iff.1 hrow
      refine ⟨(((s.evictClaim request).purge request.workerId now).nextRoute row.sessionKey
        request.workerId).homeEpoch, ?_⟩
      simp [claim, hprior, claimFresh, hcons, leaseRow]

/-- The step moves the fence of a work: it leases it or yields it. -/
def Bumps (s : Timed) (e : Label) (id : String) : Prop :=
  (∃ work, Leases s e work ∧ work.id = id) ∨ Yields e id

section

variable {s s' : Timed} {e : Label}

/-- A step that leases a work issues its proof. -/
theorem event_of_leases (hids : s.store.IdsMatch) (hstep : Step opts s e s') {work : WorkItem}
    (h : Leases s e work) :
    ∃ row, s.store.rows.get? work.id = some row ∧ work.fence = row.fence + 1 ∧
      (labelOf opts s e).event = .issue work.id (opts.hashToken work.leaseToken) := by
  obtain ⟨now, later, request, token, hprior, rfl⟩ := h
  generalize hanswer : Answer.claimed (.ok (some work)) = answer at hstep
  cases hstep with
  | call hnow hlater =>
      simp only [exec, Prod.map_fst, Answer.claimed.injEq] at hanswer
      have hclaim := claim_answer opts now token hprior
      cases hrow : s.store.claimedRow request now with
      | none =>
          rw [hrow] at hclaim
          rw [hclaim] at hanswer
          simp at hanswer
      | some row =>
          rw [hrow] at hclaim
          obtain ⟨homeEpoch, hclaim⟩ := hclaim
          rw [hclaim] at hanswer
          simp only [Except.ok.injEq, Option.some.injEq] at hanswer
          subst hanswer
          refine ⟨row, (claimedRow_spec s.clock hids hrow).1, rfl, ?_⟩
          simp [labelOf, eventOf, hrow, toWorkItem, leasedRow]

/-- The protocol moves a fence by one or not at all, and by one in exactly the
    steps that lease or yield the work. -/
theorem bump_of_step (hids : s.store.IdsMatch) (hstep : Step opts s e s') (id : String) :
    (labelOf opts s e).event.bump id = 1 ∧ Bumps s e id ∨
      (labelOf opts s e).event.bump id = 0 ∧ ¬ Bumps s e id := by
  by_cases hbumps : Bumps s e id
  · left
    refine ⟨?_, hbumps⟩
    rcases hbumps with ⟨work, hleases, rfl⟩ | ⟨now, later, proof, rfl, rfl⟩
    · obtain ⟨row, -, -, hevent⟩ := event_of_leases hids hstep hleases
      simp [hevent, FencedLease.Event.bump]
    · generalize hanswer : Answer.accepted true = answer at hstep
      cases hstep with
      | call hnow hlater =>
          have hyield : (s.store.yieldWork proof now later).1 = true := by
            simpa [exec] using hanswer.symm
          simp [labelOf, eventOf, hyield, FencedLease.Event.bump]
  · right
    refine ⟨?_, hbumps⟩
    cases hstep with
    | tick hlater => rfl
    | @call now later c hnow hlater =>
        cases c with
        | enqueue input randomUUID =>
            simp only [labelOf, eventOf]
            split <;> rfl
        | claim request token =>
            cases hrow : s.store.claimedRow request now with
            | none =>
                simp only [labelOf, eventOf, hrow]
                split <;> rfl
            | some row =>
                simp only [labelOf, eventOf, hrow, FencedLease.Event.bump]
                refine if_neg fun hid => hbumps (.inl ?_)
                have hprior : s.store.priorClaim request = none := by
                  unfold claimedRow at hrow
                  split at hrow
                  · cases hrow
                  · assumption
                have hclaim := claim_answer opts now token hprior
                rw [hrow] at hclaim
                obtain ⟨homeEpoch, hclaim⟩ := hclaim
                refine ⟨toWorkItem (leasedRow opts row request.workerId token now) token homeEpoch,
                  ⟨now, later, request, token, hprior, by simp [exec, hclaim]⟩, hid⟩
        | yieldWork proof =>
            simp only [labelOf, eventOf]
            split
            · rename_i hyield
              refine if_neg fun hid => hbumps (.inr ?_)
              exact ⟨now, later, proof, hid, by simp [exec, hyield]⟩
            · rfl
        | heartbeat proof =>
            simp only [labelOf, eventOf]
            split <;> rfl
        | complete proof completion =>
            simp only [labelOf, eventOf]
            split <;> simp [FencedLease.Event.bump]
        | wait proof goalOutcome =>
            simp only [labelOf, eventOf]
            split <;> simp [FencedLease.Event.bump]
        | getLeased | requestCancel | requestPreempt | addSteer => rfl

end

/-- A proof the store rejects after it was issued is spent in the protocol. -/
theorem spent_iff {s : Timed} {proof : LeaseProof}
    (hissued : FencedLease.Issued (s.store.leases s.clock) (proofOf proof)) :
    FencedLease.Spent (s.store.leases s.clock) (proofOf proof) s.clock ↔
      s.store.validLease proof s.clock = none := by
  rw [FencedLease.Spent, ← validLease_isSome_iff]
  simp [hissued]

/-- Fencing. A fence moves by one in the steps that lease or yield its work and
    in no other; a proof that is invalid at some moment after it was issued is
    invalid from then on; and a call that presents an invalid proof is rejected
    and changes nothing. -/
theorem fencing (opts : WorkStoreOptions) (t₀ : Int) :
    (∀ s e s', (system opts t₀).Reachable s → (system opts t₀).step s e s' →
      ∀ id row, s.store.rows.get? id = some row →
        ∃ row', s'.store.rows.get? id = some row' ∧
          (Bumps s e id → row'.fence = row.fence + 1) ∧
          (¬ Bumps s e id → row'.fence = row.fence)) ∧
    (∀ s e s₁ s₂ s₃ es fs work, (system opts t₀).Reachable s → (system opts t₀).step s e s₁ →
      Leases s e work → (system opts t₀).Run s₁ es s₂ →
      s₂.store.validLease (issuedProof opts work) s₂.clock = none →
      (system opts t₀).Run s₂ fs s₃ →
      s₃.store.validLease (issuedProof opts work) s₃.clock = none) ∧
    (∀ (s : WorkStore) now later call proof answer, rejection call = some (proof, answer) →
      s.validLease proof now = none → exec opts s now later call = (answer, s)) := by
  refine ⟨?_, ?_, fun s now later call proof answer => exec_of_invalid⟩
  · intro s e s' hs hstep id row hrow
    have hids := (refinement opts t₀).inv_of_reachable hs
    obtain ⟨-, -, -, t, hchange, ht⟩ := (refinement opts t₀).step hids hstep
    have hgrant : (s.store.leases s.clock).grants id = some (grantOf row) := by
      simp [leases, hrow]
    obtain ⟨g', hg', -, hfence⟩ := hchange.fence hgrant
    have hgrant' : (s'.store.leases s'.clock).grants id = some g' := by
      rw [show s'.store.leases s'.clock = _ from ht]
      exact hg'
    obtain ⟨row', hrow', rfl⟩ := Option.map_eq_some_iff.1 hgrant'
    refine ⟨row', hrow', ?_⟩
    have hfence : row'.fence = row.fence + (labelOf opts s e).event.bump id := hfence
    rcases bump_of_step hids hstep id with ⟨hbump, hdoes⟩ | ⟨hbump, hdoes⟩
    · exact ⟨fun _ => by rw [hfence, hbump], fun h => absurd hdoes h⟩
    · exact ⟨fun h => absurd h hdoes, fun _ => by rw [hfence, hbump, Nat.add_zero]⟩
  · intro s e s₁ s₂ s₃ es fs work hs hstep hleases hrun hinvalid hrun'
    have hids := (refinement opts t₀).inv_of_reachable hs
    obtain ⟨row, hrow, hfence, hevent⟩ := event_of_leases hids hstep hleases
    obtain ⟨hids₁, -, -, t, hchange, ht⟩ := (refinement opts t₀).step hids hstep
    have hissued₁ : FencedLease.Issued (s₁.store.leases s₁.clock)
        (proofOf (issuedProof opts work)) := by
      have hgrant : (s.store.leases s.clock).grants work.id = some (grantOf row) := by
        simp [leases, hrow]
      have hchange : FencedLease.Change (labelOf opts s e).now (s.store.leases s.clock)
          (.issue work.id (opts.hashToken work.leaseToken)) t := hevent ▸ hchange
      rw [show s₁.store.leases s₁.clock = _ from ht]
      have hissued := hchange.issued hgrant
      rw [show (grantOf row).fence + 1 = work.fence from hfence.symm] at hissued
      exact hissued
    obtain ⟨hids₂, _, hrun₂⟩ := (refinement opts t₀).run hids₁ hrun
    obtain ⟨-, _, hrun₃⟩ := (refinement opts t₀).run hids₂ hrun'
    have hissued₂ := FencedLease.issued_of_run hrun₂ hissued₁
    have hissued₃ := FencedLease.issued_of_run hrun₃ hissued₂
    exact (spent_iff hissued₃).1 (FencedLease.spent_of_run hrun₃ ((spent_iff hissued₂).2 hinvalid))

/-- The first lease runs out; the work is leased again, and the first proof
    stays invalid and is rejected. -/
theorem fencing_reclaimed :
    (∃ row, trialLeased.store.rows.get? "w1" = some row ∧ row.fence = 0 + 1) ∧
      (advance ⟨trialLeased.store, 20⟩ (trialClaim 20 "t2")).store.validLease
        ⟨"w1", 1, "digest of t1"⟩ 20 = none ∧
      exec trialOptions trialLeased.store 20 20 (.heartbeat ⟨"w1", 1, "digest of t1"⟩)
        = (.heartbeat none, trialLeased.store) := by
  obtain ⟨hbump, hspent, hrejected⟩ := fencing trialOptions 0
  have hstep := advance_step trialQueued (trialClaim 5 "t1") (by decide)
  have hleases : Leases trialQueued
      (.call 5 5 (trialClaim 5 "t1").1
        (exec trialOptions trialQueued.store 5 5 (trialClaim 5 "t1").1).1)
      (toWorkItem (leasedRow trialOptions (newRow trialInput "w1" 0) "worker" "t1" 5) "t1" 1) :=
    ⟨5, 5, { workerId := "worker" }, "t1", rfl, rfl⟩
  refine ⟨?_, ?_, ?_⟩
  · obtain ⟨row, hrow, hfence, -⟩ := hbump trialQueued _ trialLeased trialQueued_reachable hstep
      "w1" (newRow trialInput "w1" 0) rfl
    exact ⟨row, hrow, hfence (.inl ⟨_, hleases, rfl⟩)⟩
  · have htick : Step trialOptions trialLeased (.tick 20) ⟨trialLeased.store, 20⟩ :=
      .tick (by decide)
    exact hspent trialQueued _ trialLeased ⟨trialLeased.store, 20⟩ _ _ _ _
      trialQueued_reachable hstep hleases (.single htick) (by decide)
      (.single (advance_step _ (trialClaim 20 "t2") le_rfl))
  · exact hrejected trialLeased.store 20 20 _ _ _ rfl (by decide)

end LingxiOS.WorkStore
