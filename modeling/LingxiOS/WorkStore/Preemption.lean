-- SUMMARY: Which attempt a preempt request reaches.
import LingxiOS.WorkStore.Rows

/-! # Preemption

A preempt request stamps the row, and every heartbeat reports the stamp. A yield
removes it; a settlement and a claim leave it where it is. So a request reaches
a later attempt exactly when a claim leases a row that still carries it. -/

namespace LingxiOS.WorkStore

variable {opts : WorkStoreOptions} {t₀ : Int}

/-- Somewhere on the run a preempt request for the row took effect while the
    row was leased under the given fence. -/
def PreemptRequested (opts : WorkStoreOptions) (t₀ : Int) (s₀ : Timed) (es : List Label)
    (s : Timed) (id : String) (fence : Nat) : Prop :=
  ∃ es₁ es₂ s₁ s₂ now later row,
    (system opts t₀).Run s₀ es₁ s₁ ∧
    (system opts t₀).step s₁ (.call now later (.requestPreempt id) (.accepted true)) s₂ ∧
    (system opts t₀).Run s₂ es₂ s ∧
    es = es₁ ++ .call now later (.requestPreempt id) (.accepted true) :: es₂ ∧
    s₁.store.rows.get? id = some row ∧ row.status = .leased ∧ row.fence = fence

/-- The row a claim leases carries no preempt request. -/
def ClaimsUnstamped (s : Timed) (e : Label) : Prop :=
  ∀ now later request token answer row, e = .call now later (.claim request token) answer →
    s.store.claimedRow request now = some row → row.preemptRequestedAt = none

/-! ## Requests along a run -/

/-- A request stays behind a run however it goes on. -/
theorem PreemptRequested.snoc {s₀ s s' : Timed} {es : List Label} {e : Label} {id : String}
    {fence : Nat} (h : PreemptRequested opts t₀ s₀ es s id fence)
    (hstep : (system opts t₀).step s e s') :
    PreemptRequested opts t₀ s₀ (es ++ [e]) s' id fence := by
  obtain ⟨es₁, es₂, s₁, s₂, now, later, row, hbefore, hrequest, hafter, rfl, hrow⟩ := h
  refine ⟨es₁, es₂ ++ [e], s₁, s₂, now, later, row, hbefore, hrequest, hafter.snoc hstep, ?_, hrow⟩
  simp

/-- A request that took effect is one of the run it ends. -/
theorem PreemptRequested.of_step {s₀ s s' : Timed} {es : List Label} {now later : Int}
    {id : String} {row : WorkRow} (hrun : (system opts t₀).Run s₀ es s)
    (hstep : (system opts t₀).step s (.call now later (.requestPreempt id) (.accepted true)) s')
    (hrow : s.store.rows.get? id = some row) (hleased : row.status = .leased) :
    PreemptRequested opts t₀ s₀
      (es ++ [.call now later (.requestPreempt id) (.accepted true)]) s' id row.fence :=
  ⟨es, [], s, s', now, later, row, hrun, hstep, .refl s', rfl, hrow, hleased, rfl⟩

/-- Cancelling moves neither the fence nor the stamp. -/
theorem Cancels.stamp {now : Int} {row row' : WorkRow} (h : Cancels now row row') :
    row'.fence = row.fence ∧ row'.preemptRequestedAt = row.preemptRequestedAt := by
  rcases h with rfl | rfl
  · exact ⟨rfl, rfl⟩
  · unfold cancelRow
    split
    · exact ⟨rfl, rfl⟩
    · split
      · exact ⟨rfl, rfl⟩
      · exact ⟨rfl, rfl⟩

/-- A stamp found after a step was there before under the same fence, or the
    step is the request that made it. -/
theorem stamp_of_step {s s' : Timed} {e : Label} {id : String} {row' : WorkRow}
    (hids : s.store.IdsMatch) (hok : ClaimsUnstamped s e) (hstep : Step opts s e s')
    (hrow' : s'.store.rows.get? id = some row') (hstamp : row'.preemptRequestedAt ≠ none) :
    ∃ row, s.store.rows.get? id = some row ∧ row.fence = row'.fence ∧
      (row.preemptRequestedAt ≠ none ∨
        row.status = .leased ∧ ∃ now later,
          e = .call now later (.requestPreempt id) (.accepted true)) := by
  cases hstep with
  | tick hlater => exact ⟨row', hrow', rfl, .inl hstamp⟩
  | @call now later call hnow hlater =>
      have hchange := exec_row opts now later id hids call
      rw [hrow'] at hchange
      generalize hstored : s.store.rows.get? id = stored at hchange
      cases hchange with
      | kept => exact ⟨row', rfl, rfl, .inl hstamp⟩
      | created => exact absurd rfl hstamp
      | @cancelled _ row =>
          have hcancels : Cancels later row (cancelRow later row) := .inr rfl
          obtain ⟨hfence, hkept⟩ := hcancels.stamp
          exact ⟨row, rfl, hfence.symm, .inl (hkept ▸ hstamp)⟩
      | leased hclaimed => exact absurd (hok _ _ _ _ _ _ rfl hclaimed) hstamp
      | @extended _ row => exact ⟨row, rfl, rfl, .inl hstamp⟩
      | yielded => exact absurd rfl hstamp
      | @settled _ _ _ _ _ row => exact ⟨row, rfl, rfl, .inl hstamp⟩
      | @preempted row hleased =>
          refine ⟨row, rfl, rfl, .inr ⟨hleased, now, later, ?_⟩⟩
          simp [exec, requestPreempt, hstored, hleased]
      | @steered _ _ row _ _ _ hcancels =>
          obtain ⟨hfence, hkept⟩ := hcancels.stamp
          exact ⟨row, rfl, hfence.symm, .inl (hkept ▸ hstamp)⟩

/-- Every stamp on a row was made under the fence the row has. -/
theorem stamp_requested {s₀ s : Timed} {es : List Label} (hstart : (system opts t₀).start s₀)
    (hrun : ((system opts t₀).restrict ClaimsUnstamped).Run s₀ es s) {id : String}
    {row : WorkRow} (hrow : s.store.rows.get? id = some row)
    (hstamp : row.preemptRequestedAt ≠ none) :
    PreemptRequested opts t₀ s₀ es s id row.fence := by
  have hinv : (system opts t₀).Run s₀ es s ∧ s.store.IdsMatch ∧
      ∀ id row, s.store.rows.get? id = some row → row.preemptRequestedAt ≠ none →
        PreemptRequested opts t₀ s₀ es s id row.fence := by
    apply hrun.traces (I := fun es s => (system opts t₀).Run s₀ es s ∧ s.store.IdsMatch ∧
      ∀ id row, s.store.rows.get? id = some row → row.preemptRequestedAt ≠ none →
        PreemptRequested opts t₀ s₀ es s id row.fence)
    · rintro es s e s' ⟨hbefore, hids, hrequested⟩ ⟨hok, hstep⟩
      refine ⟨hbefore.snoc hstep, ((refinement opts t₀).step hids hstep).1, ?_⟩
      intro id row' hrow' hstamp'
      obtain ⟨row, hrow, hfence, hbefore' | ⟨hleased, now, later, rfl⟩⟩ :=
        stamp_of_step hids hok hstep hrow' hstamp'
      · rw [← hfence]
        exact (hrequested id row hrow hbefore').snoc hstep
      · rw [← hfence]
        exact .of_step hbefore hstep hrow hleased
    · obtain rfl : s₀ = ⟨init, t₀⟩ := hstart
      refine ⟨.refl _, ?_, ?_⟩
      · intro id row hget
        simp [init] at hget
      · intro id row hget
        simp [init] at hget
  exact hinv.2.2 id row hrow hstamp

/-! ## The attempt a heartbeat belongs to -/

/-- As long as no claim leases a row that still carries a preempt request, a
    heartbeat that reports one reports a request made against its own attempt. -/
theorem preempts_own_attempt {s₀ s s' : Timed} {es : List Label} {now later : Int}
    {proof : LeaseProof} {beat : HeartbeatRow} (hstart : (system opts t₀).start s₀)
    (hrun : ((system opts t₀).restrict ClaimsUnstamped).Run s₀ es s)
    (hbeat : (system opts t₀).step s
      (.call now later (.heartbeat proof) (.heartbeat (some beat))) s')
    (hpreempt : beat.preemptRequested = true) :
    PreemptRequested opts t₀ s₀ es s proof.id proof.fence := by
  obtain ⟨-, -, hanswer, -⟩ := step_call_iff.1 hbeat
  cases hlease : s.store.validLease proof now with
  | none => simp [exec, heartbeat, hlease] at hanswer
  | some row =>
      obtain ⟨hrow, -, hfence, -⟩ := validLease_eq_some_iff.1 hlease
      have hstamp : row.preemptRequestedAt ≠ none := by
        simp only [exec, heartbeat, hlease, Prod.map_fst, Answer.heartbeat.injEq,
          Option.some.injEq] at hanswer
        subst hanswer
        simpa [Option.isSome_iff_ne_none] using hpreempt
      rw [← hfence]
      exact stamp_requested hstart hrun hrow hstamp

/-! ### A request that outlives its attempt -/

private def roomOptions : WorkStoreOptions := ⟨10, fun token => "digest of " ++ token⟩

private def roomInput : EnqueueWorkInput :=
  ⟨some "w", "t", "a", "s", none, "turn", .interactive, "m", none, none, none, none⟩

/-- The work is leased and asked to give way. -/
private def roomAsked : List (Int × Call) :=
  [(0, .enqueue roomInput ""), (1, .claim { workerId := "worker" } "t1"), (2, .requestPreempt "w")]

/-- The worker is gone, the lease runs out, and the work is leased again. -/
private def roomReclaimed : List (Int × Call) :=
  roomAsked ++ [(20, .claim { workerId := "worker" } "t2")]

/-- A work is leased under fence 1, asked to give way, and reclaimed under fence
    2 after its lease ran out: the first heartbeat of the new attempt reports a
    request nobody made against it. -/
theorem preempt_reaches_later_attempt :
    ¬ ∀ (opts : WorkStoreOptions) (t₀ : Int) (s₀ s s' : Timed) (es : List Label)
        (now later : Int) (proof : LeaseProof) (beat : HeartbeatRow),
      (system opts t₀).start s₀ → (system opts t₀).Run s₀ es s →
      (system opts t₀).step s (.call now later (.heartbeat proof) (.heartbeat (some beat))) s' →
      beat.preemptRequested = true → PreemptRequested opts t₀ s₀ es s proof.id proof.fence := by
  intro h
  have hrun : (system roomOptions 0).Run ⟨init, 0⟩
      (Timed.trace roomOptions ⟨init, 0⟩ roomReclaimed)
      (Timed.play roomOptions ⟨init, 0⟩ roomReclaimed) :=
    run_play _ _ (by simp [InOrder, roomReclaimed, roomAsked])
  obtain ⟨es₁, es₂, s₁, s₂, now, later, row, hbefore, -, -, hes, hrow, -, hfence⟩ :=
    h roomOptions 0 ⟨init, 0⟩ _ _ _ 21 21 ⟨"w", 2, "digest of t2"⟩ ⟨false, true, []⟩ rfl hrun
      (step_call_iff.2 ⟨by decide, le_rfl, rfl, rfl⟩) rfl
  -- The only request of the run is its third call.
  have hfirst : es₁ = Timed.trace roomOptions ⟨init, 0⟩ (roomAsked.take 2) := by
    rcases es₁ with _ | ⟨a, _ | ⟨b, _ | ⟨c, _ | ⟨d, rest⟩⟩⟩⟩
    · simp [Timed.trace, roomReclaimed, roomAsked] at hes
    · simp [Timed.trace, roomReclaimed, roomAsked] at hes
    · obtain ⟨rfl, rfl, -⟩ := List.cons_eq_cons.1 hes
      rfl
    · simp [Timed.trace, roomReclaimed, roomAsked] at hes
    · simp [Timed.trace, roomReclaimed, roomAsked] at hes
  have hplay : (system roomOptions 0).Run ⟨init, 0⟩ es₁
      (Timed.play roomOptions ⟨init, 0⟩ (roomAsked.take 2)) := by
    rw [hfirst]
    exact run_play _ _ (by simp [InOrder, roomAsked])
  obtain rfl := hbefore.functional Step.functional hplay
  obtain rfl := Option.some.inj hrow
  exact absurd hfence (by decide)

/-- The attempt that was asked to give way hears of it. -/
theorem preempts_own_attempt_asked : PreemptRequested roomOptions 0 ⟨init, 0⟩
    (Timed.trace roomOptions ⟨init, 0⟩ roomAsked)
    (Timed.play roomOptions ⟨init, 0⟩ roomAsked) "w" 1 := by
  have hrun : ((system roomOptions 0).restrict ClaimsUnstamped).Run ⟨init, 0⟩
      (Timed.trace roomOptions ⟨init, 0⟩ roomAsked)
      (Timed.play roomOptions ⟨init, 0⟩ roomAsked) := by
    apply run_play_restrict (by simp [InOrder, roomAsked])
    refine ⟨?_, ?_, ?_, trivial⟩
    · intro now later request token answer row hlabel
      cases hlabel
    · intro now later request token answer row hlabel hclaimed
      cases hlabel
      obtain rfl := Option.some.inj hclaimed
      rfl
    · intro now later request token answer row hlabel
      cases hlabel
  let beat : HeartbeatRow := ⟨false, true, []⟩
  have hbeat : (system roomOptions 0).step (Timed.play roomOptions ⟨init, 0⟩ roomAsked)
      (.call 3 3 (.heartbeat ⟨"w", 1, "digest of t1"⟩) (.heartbeat (some beat))) _ :=
    step_call_iff.2 ⟨by decide, le_rfl, rfl, rfl⟩
  exact preempts_own_attempt rfl hrun hbeat rfl

end LingxiOS.WorkStore
