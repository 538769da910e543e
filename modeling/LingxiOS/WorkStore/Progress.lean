-- SUMMARY: Which open rows can still be brought to an end, and by which calls.
import LingxiOS.WorkStore.Rows
import Mathlib.Data.List.MinMax

/-! # Progress

A row that is queued or waiting ends by a cancellation, and a row under a live
lease by its claimer. A row whose lease has run out must be claimed first, and a
claim passes over a row that was asked to stop and over a job that used up its
attempts: such a row is stranded, and no call moves it again. -/

namespace LingxiOS.WorkStore

variable {opts : WorkStoreOptions} {t₀ : Int}

/-! ## What it means to end -/

/-- The steps a row may be brought to its end by: time passing and every call
    but a new enqueue or a preempt request. -/
def Helps (_ : Timed) : Label → Prop
  | .call _ _ (.enqueue _ _) _ | .call _ _ (.requestPreempt _) _ => False
  | _ => True

/-- Some sequence of calls and of passing time brings the row to a status it
    never leaves. -/
def CanEnd (opts : WorkStoreOptions) (t₀ : Int) (s : Timed) (id : String) : Prop :=
  ∃ es s' row', ((system opts t₀).restrict Helps).Run s es s' ∧
    s'.store.rows.get? id = some row' ∧ row'.status.isOpen = false

/-- Work that is given up after three attempts and has had them. -/
def exhausted (row : WorkRow) : Bool :=
  boundedKinds.contains row.kind && decide (3 ≤ row.attempts)

/-- Leased under a lease that has run out, with no claim to take the row back:
    it was asked to stop, or it is exhausted, or leases end as they begin. -/
structure Stranded (opts : WorkStoreOptions) (row : WorkRow) (clock : Int) : Prop where
  leased : row.status = .leased
  expired : row.leaseExpiresAt.getD 0 ≤ clock
  passedOver : row.cancelRequestedAt ≠ none ∨ exhausted row = true ∨ opts.leaseTtlMs ≤ 0

/-! ## Claims -/

/-- What the filter of a claim says about the row the claim takes. -/
structure Claimable (s : WorkStore) (now : Int) (row : WorkRow) : Prop where
  claimable : claimable row now = true
  unstopped : row.cancelRequestedAt = none
  unexhausted : exhausted row = false
  released : s.dependenciesOpen row = false

theorem dependenciesOpen_congr {s s' : WorkStore} (hrows : s'.rows = s.rows) (row : WorkRow) :
    s'.dependenciesOpen row = s.dependenciesOpen row := by
  have hdependency : s'.dependencyOpen row = s.dependencyOpen row := by
    funext dependency
    simp only [dependencyOpen, hrows]
  simp only [dependenciesOpen, hdependency]

theorem claimable_of_claimedRow {s : WorkStore} {request : ClaimRequest} {now : Int}
    {row : WorkRow} (h : s.claimedRow request now = some row) : Claimable s now row := by
  unfold claimedRow at h
  split at h
  · cases h
  · obtain ⟨-, hcandidate⟩ := candidates_mem (List.mem_of_mem_head? h)
    simp only [candidate, Bool.and_eq_true, Bool.not_eq_true', Option.isNone_iff_eq_none]
      at hcandidate
    obtain ⟨⟨⟨⟨⟨⟨-, hexhausted⟩, hclaimable⟩, hcancel⟩, hreleased⟩, -⟩, -⟩ := hcandidate
    refine ⟨hclaimable, hcancel, hexhausted, ?_⟩
    rwa [dependenciesOpen_congr (s := s) (by simp)] at hreleased

/-! ## A stranded row stays stranded -/

/-- Cancelling a leased row only asks it to stop. -/
theorem Cancels.stranded {now clock : Int} {row row' : WorkRow} (h : Cancels now row row')
    (hrow : Stranded opts row clock) : Stranded opts row' clock := by
  rcases h with rfl | rfl
  · exact hrow
  · have hcancel : cancelRow now row = { row with cancelRequestedAt := some now } := by
      simp [cancelRow, hrow.leased, WorkStatus.isOpen]
    rw [hcancel]
    exact ⟨hrow.leased, hrow.expired, .inl (by simp)⟩

theorem stranded_step {s s' : Timed} {e : Label} {id : String} {row : WorkRow}
    (hids : s.store.IdsMatch) (hstep : Step opts s e s')
    (hrow : s.store.rows.get? id = some row) (h : Stranded opts row s.clock) :
    ∃ row', s'.store.rows.get? id = some row' ∧ Stranded opts row' s'.clock := by
  cases hstep with
  | tick hlater => exact ⟨row, hrow, h.leased, h.expired.trans hlater, h.passedOver⟩
  | @call now later call hnow hlater =>
      have hlater' : Stranded opts row later :=
        ⟨h.leased, h.expired.trans (hnow.trans hlater), h.passedOver⟩
      have hdead : ∀ {proof : LeaseProof}, s.store.validLease proof now ≠ some row := by
        intro proof hlease
        obtain ⟨-, hlive, -⟩ := validLease_eq_some_iff.1 hlease
        have hexpired := h.expired
        have hfuture : now < row.leaseExpiresAt.getD 0 := hlive.2
        omega
      have hchange := exec_row opts now later id hids call
      rw [hrow] at hchange
      generalize (exec opts s.store now later call).2.rows.get? id = stored at hchange ⊢
      cases hchange with
      | kept => exact ⟨row, rfl, hlater'⟩
      | cancelled => exact ⟨_, rfl, Cancels.stranded (.inr rfl) hlater'⟩
      | @leased request token _ hclaimed =>
          obtain ⟨-, hcancel, hexhausted, -⟩ := claimable_of_claimedRow hclaimed
          -- Only a lease without duration lets a claim take the row.
          have httl : opts.leaseTtlMs ≤ 0 := by
            rcases h.passedOver with hstop | hused | httl
            · exact absurd hcancel hstop
            · rw [hexhausted] at hused
              cases hused
            · exact httl
          refine ⟨_, rfl, rfl, ?_, .inr (.inr httl)⟩
          simp only [leasedRow, Option.getD_some]
          omega
      | extended _ hlease => exact absurd hlease hdead
      | yielded _ hlease => exact absurd hlease hdead
      | settled _ _ hlease => exact absurd hlease hdead
      | preempted => exact ⟨_, rfl, hlater'.leased, hlater'.expired, hlater'.passedOver⟩
      | steered hopen hcancel hcancels =>
          refine ⟨_, rfl, hcancels.stranded ⟨?_, hlater'.expired, hlater'.passedOver⟩⟩
          simp [steeredRow, h.leased]

theorem Stranded.not_canEnd {s : Timed} (hids : s.store.IdsMatch) {id : String} {row : WorkRow}
    (hrow : s.store.rows.get? id = some row) (h : Stranded opts row s.clock) :
    ¬ CanEnd opts t₀ s id := by
  rintro ⟨es, s', row', hrun, hrow', hended⟩
  have hstays : s'.store.IdsMatch ∧ ∃ row', s'.store.rows.get? id = some row' ∧
      Stranded opts row' s'.clock := by
    apply hrun.preserves (I := fun s => s.store.IdsMatch ∧ ∃ row',
      s.store.rows.get? id = some row' ∧ Stranded opts row' s.clock)
    · rintro s e s' ⟨hids, row, hrow, h⟩ ⟨-, hstep⟩
      exact ⟨((refinement opts t₀).step hids hstep).1, stranded_step hids hstep hrow h⟩
    · exact ⟨hids, row, hrow, h⟩
  obtain ⟨-, row'', hrow'', h'⟩ := hstays
  obtain rfl := Option.some.inj (hrow'.symm.trans hrow'')
  rw [h'.leased] at hended
  cases hended

/-! ## What a run keeps of a row -/

/-- What no call changes of a row: whose it is and what it was asked to do. -/
def WorkRow.identity (row : WorkRow) : String × Option String × Option JsonObject :=
  (row.tenantId, row.principalId, row.meta_)

theorem Cancels.identity {now : Int} {row row' : WorkRow} (h : Cancels now row row') :
    WorkRow.identity row' = WorkRow.identity row := by
  rcases h with rfl | rfl
  · rfl
  · unfold cancelRow
    split
    · rfl
    · split
      · rfl
      · rfl

theorem RowChange.identity {s : WorkStore} {now later : Int} {id : String} {call : Call}
    {row row' : WorkRow} (h : RowChange opts s now later id call (some row) (some row')) :
    WorkRow.identity row' = WorkRow.identity row := by
  cases h with
  | kept | leased | extended | yielded | settled | preempted => rfl
  | cancelled => exact Cancels.identity (.inr rfl)
  | steered hopen hcancel hcancels => exact hcancels.identity

/-- A row that ended is never touched again. -/
theorem RowChange.eq_of_settled {s : WorkStore} {now later : Int} {id : String} {call : Call}
    {row : WorkRow} {stored : Option WorkRow}
    (h : RowChange opts s now later id call (some row) stored)
    (hended : row.status.isOpen = false) : stored = some row := by
  have hdead : ∀ {proof : LeaseProof}, s.validLease proof now ≠ some row := by
    intro proof hlease
    obtain ⟨-, hlive, -⟩ := validLease_eq_some_iff.1 hlease
    have hleased : row.status = .leased := by simpa [grantOf] using hlive.1
    rw [hleased] at hended
    cases hended
  cases h with
  | kept => rfl
  | cancelled => simp [cancelRow, hended]
  | leased hclaimed =>
      have hclaimable := (claimable_of_claimedRow hclaimed).claimable
      cases hstatus : row.status <;> simp_all [claimable, WorkStatus.isOpen]
  | extended _ hlease => exact absurd hlease hdead
  | yielded _ hlease => exact absurd hlease hdead
  | settled _ _ hlease => exact absurd hlease hdead
  | preempted hleased => simp [hleased, WorkStatus.isOpen] at hended
  | steered hopen => simp [hopen] at hended

/-- A dependency that let its dependents go never holds them back again. -/
theorem dependenciesOpen_exec {s : WorkStore} {now later : Int} (hids : s.IdsMatch) (call : Call)
    {row row' : WorkRow} (hsame : WorkRow.identity row' = WorkRow.identity row)
    (h : s.dependenciesOpen row = false) :
    (exec opts s now later call).2.dependenciesOpen row' = false := by
  obtain ⟨htenant, hprincipal, hmeta⟩ : row'.tenantId = row.tenantId ∧
      row'.principalId = row.principalId ∧ row'.meta_ = row.meta_ := by
    simpa [WorkRow.identity] using hsame
  have hdependency : ∀ dependency, s.dependencyOpen row dependency = false →
      (exec opts s now later call).2.dependencyOpen row' dependency = false := by
    intro dependency hclosed
    unfold dependencyOpen at hclosed ⊢
    cases htarget : s.rows.get? dependency.toJsString with
    | none => simp [htarget] at hclosed
    | some target =>
        have hended : target.status.isOpen = false := by
          rw [htarget] at hclosed
          simp only [Bool.or_eq_false_iff] at hclosed
          exact hclosed.2
        have hchange := exec_row opts now later dependency.toJsString hids call
        rw [htarget] at hchange
        rw [hchange.eq_of_settled hended, htenant, hprincipal]
        rwa [htarget] at hclosed
  unfold dependenciesOpen at h ⊢
  rw [hmeta]
  split
  · rename_i dependencies hdepends
    rw [hdepends] at h
    rw [List.any_eq_false] at h ⊢
    intro dependency hmem
    have hclosed := h dependency hmem
    simpa using hdependency dependency (by simpa using hclosed)
  · rfl

/-- What every leased row has: its dependencies let it go, and somebody holds
    its token. -/
def LeasesGranted (s : WorkStore) : Prop :=
  ∀ id row, s.rows.get? id = some row → row.status = .leased →
    s.dependenciesOpen row = false ∧ row.leaseTokenHash.isSome = true

/-- A cancelled row is leased only if it was. -/
theorem Cancels.leased {now : Int} {row row' : WorkRow} (h : Cancels now row row')
    (hleased : row'.status = .leased) :
    row.status = .leased ∧ row'.leaseTokenHash = row.leaseTokenHash := by
  rcases h with rfl | rfl
  · exact ⟨hleased, rfl⟩
  · cases hstatus : row.status <;> simp_all [cancelRow, WorkStatus.isOpen]

theorem LeasesGranted.exec {s : WorkStore} {now later : Int} (hids : s.IdsMatch)
    (h : LeasesGranted s) (call : Call) : LeasesGranted (exec opts s now later call).2 := by
  intro id row' hrow' hleased
  have hchange := exec_row opts now later id hids call
  rw [hrow'] at hchange
  cases hstored : s.rows.get? id with
  | none =>
      rw [hstored] at hchange
      cases hchange with
      | created => cases hleased
  | some row =>
      rw [hstored] at hchange
      have hsame := hchange.identity
      -- Either the row was leased before, or the call is the claim that leases it.
      have hbefore : (row.status = .leased ∧ row'.leaseTokenHash = row.leaseTokenHash) ∨
          (s.dependenciesOpen row = false ∧ row'.leaseTokenHash.isSome = true) := by
        cases hchange with
        | kept => exact .inl ⟨hleased, rfl⟩
        | cancelled => exact .inl (Cancels.leased (.inr rfl) hleased)
        | leased hclaimed =>
            exact .inr ⟨(claimable_of_claimedRow hclaimed).released, rfl⟩
        | extended => exact .inl ⟨hleased, rfl⟩
        | yielded => cases hleased
        | settled hcall =>
            obtain rfl : _ = WorkStatus.leased := hleased
            rcases settlementOf_status hcall with hstatus | hstatus
            · cases hstatus
            · cases hstatus
        | preempted => exact .inl ⟨hleased, rfl⟩
        | steered hopen hcancel hcancels =>
            obtain ⟨hsteered, htoken⟩ := hcancels.leased hleased
            refine .inl ⟨?_, htoken⟩
            simp only [steeredRow] at hsteered
            split at hsteered
            · cases hsteered
            · exact hsteered
      rcases hbefore with ⟨hwas, htoken⟩ | ⟨hreleased, htoken⟩
      · obtain ⟨hreleased, hsome⟩ := h id row hstored hwas
        exact ⟨dependenciesOpen_exec hids call hsame hreleased, htoken ▸ hsome⟩
      · exact ⟨dependenciesOpen_exec hids call hsame hreleased, htoken⟩

theorem leasesGranted_of_reachable {s : Timed} (h : (system opts t₀).Reachable s) :
    LeasesGranted s.store := by
  have hinv : s.store.IdsMatch ∧ LeasesGranted s.store := by
    apply h.invariant (I := fun s => s.store.IdsMatch ∧ LeasesGranted s.store)
    · rintro s rfl
      refine ⟨?_, ?_⟩
      · intro id row hrow
        simp [init] at hrow
      · intro id row hrow
        simp [init] at hrow
    · rintro s e s' ⟨hids, hgranted⟩ hstep
      refine ⟨((refinement opts t₀).step hids hstep).1, ?_⟩
      cases hstep with
      | tick => exact hgranted
      | call => exact hgranted.exec hids _
  exact hinv.2

/-! ## Rows that end at once -/

theorem CanEnd.of_run {s s₁ : Timed} {es : List Label} {id : String}
    (hrun : ((system opts t₀).restrict Helps).Run s es s₁) (h : CanEnd opts t₀ s₁ id) :
    CanEnd opts t₀ s id := by
  obtain ⟨fs, s', row', hrest, hrow', hended⟩ := h
  exact ⟨es ++ fs, s', row', hrun.trans hrest, hrow', hended⟩

/-- A call made at once. -/
theorem call_step (s : Timed) (call : Call) : (system opts t₀).step s
    (.call s.clock s.clock call (exec opts s.store s.clock s.clock call).1)
    ⟨(exec opts s.store s.clock s.clock call).2, s.clock⟩ :=
  Step.call le_rfl le_rfl

/-- A step that ends the row. -/
theorem CanEnd.of_step {s s' : Timed} {e : Label} {id : String} {row' : WorkRow}
    (hstep : (system opts t₀).step s e s') (hhelps : Helps s e)
    (hrow' : s'.store.rows.get? id = some row') (hended : row'.status.isOpen = false) :
    CanEnd opts t₀ s id :=
  have hstep' : ((system opts t₀).restrict Helps).step s e s' := ⟨hhelps, hstep⟩
  ⟨[e], s', row', .single hstep', hrow', hended⟩

/-- A row that is not leased ends by a cancellation. -/
theorem canEnd_of_unleased {s : Timed} {id : String} {row : WorkRow}
    (hrow : s.store.rows.get? id = some row) (hopen : row.status.isOpen = true)
    (hleased : row.status ≠ .leased) : CanEnd opts t₀ s id := by
  apply CanEnd.of_step (call_step s (.requestCancel id)) trivial
  · exact requestCancel_self hrow hopen s.clock
  · unfold cancelRow
    rw [if_neg (by simp [hopen]), if_neg hleased]
    rfl

/-- A row under a live lease is ended by its claimer. -/
theorem canEnd_of_live {s : Timed} {id : String} {row : WorkRow}
    (hgranted : LeasesGranted s.store) (hrow : s.store.rows.get? id = some row)
    (hleased : row.status = .leased) (hlive : s.clock < row.leaseExpiresAt.getD 0) :
    CanEnd opts t₀ s id := by
  obtain ⟨-, htoken⟩ := hgranted id row hrow hleased
  obtain ⟨hash, htoken⟩ := Option.isSome_iff_exists.1 htoken
  let proof : LeaseProof := ⟨id, row.fence, hash⟩
  have hlease : s.store.validLease proof s.clock = some row := by
    apply validLease_eq_some_iff.2
    exact ⟨hrow, ⟨by simp [grantOf, hleased], hlive⟩, rfl, htoken⟩
  let failure : WorkCompletion := { status := .failed }
  have hsettled : (s.store.settle proof .failed none none s.clock s.clock).2.rows.get? id
      = some (settledRow row .failed none none) :=
    settle_self (show settlementOf (.complete proof failure) = _ from rfl) hlease rfl
  apply CanEnd.of_step (call_step s (.complete proof failure)) trivial hsettled
  rfl

/-! ## Rows whose lease has run out -/

/-- A row whose lease has run out and that a claim may take. -/
structure Ready (s : Timed) (row : WorkRow) : Prop where
  leased : row.status = .leased
  expired : row.leaseExpiresAt.getD 0 ≤ s.clock
  unstopped : row.cancelRequestedAt = none
  unexhausted : exhausted row = false
  due : row.availableAt.any (fun at_ => decide (s.clock < at_)) = false
  unlocked : ∀ key lease, s.store.sessionLeases.get? key = some lease → lease.expiresAt ≤ s.clock

/-- A claim of whatever is most urgent. -/
def anyClaim : ClaimRequest := { workerId := "worker" }

theorem claimedRow_anyClaim (s : WorkStore) (now : Int) :
    s.claimedRow anyClaim now = ((s.purge "worker" now).candidates anyClaim now).head? := rfl

/-- Once every session lease has run out, a purge leaves none. -/
theorem purge_unlocked {s : Timed}
    (h : ∀ key lease, s.store.sessionLeases.get? key = some lease → lease.expiresAt ≤ s.clock)
    (workerId : String) (key : SessionKey) :
    (s.store.purge workerId s.clock).sessionLeases.get? key = none := by
  rw [purge, JsMap.get?_filter, Option.filter_eq_none_iff]
  intro lease hlease
  simpa using h key lease hlease

/-- A ready row is one the claim may take, so the claim takes some row. -/
theorem Ready.claimedRow {s : Timed} {id : String} {row : WorkRow} (h : Ready s row)
    (hgranted : LeasesGranted s.store) (hrow : s.store.rows.get? id = some row) :
    ∃ other, s.store.claimedRow anyClaim s.clock = some other := by
  obtain ⟨hreleased, -⟩ := hgranted id row hrow h.leased
  have hpurged : (s.store.purge "worker" s.clock).dependenciesOpen row = false := by
    rw [dependenciesOpen_congr (s := s.store) (by simp)]
    exact hreleased
  have hfree : (s.store.purge "worker" s.clock).sessionLeases.has row.sessionKey = false := by
    simp [JsMap.has, purge_unlocked h.unlocked]
  have hclaimable : claimable row s.clock = true := by
    simp [claimable, h.leased, h.expired]
  have hexhausted := h.unexhausted
  unfold exhausted at hexhausted
  have hcandidate : (s.store.purge "worker" s.clock).candidate anyClaim s.clock row = true := by
    simp only [candidate, hexhausted, hclaimable, h.unstopped, hpurged, h.due, hfree]
    rfl
  have hmem : row ∈ (s.store.purge "worker" s.clock).candidates anyClaim s.clock := by
    rw [candidates, List.mem_insertionSort, List.mem_filter]
    exact ⟨JsMap.mem_values_iff.2 ⟨id, hrow⟩, hcandidate⟩
  rw [claimedRow_anyClaim]
  cases hhead : ((s.store.purge "worker" s.clock).candidates anyClaim s.clock).head? with
  | none =>
      rw [List.head?_eq_none_iff] at hhead
      simp [hhead] at hmem
  | some other => exact ⟨other, rfl⟩

/-- The rows a claim could take at a moment, but for their sessions. -/
def pending (s : WorkStore) (now : Int) : Nat := s.rows.values.countP (fun row => claimable row now)

/-- Replacing a claimable row by one that is not. -/
theorem countP_values_set_lt {m : JsMap String WorkRow} {id : String} {row : WorkRow}
    (p : WorkRow → Bool) (row' : WorkRow) (hrow : m.get? id = some row) (hp : p row = true)
    (hp' : p row' = false) : (m.set id row').values.countP p < m.values.countP p := by
  obtain ⟨l₁, l₂, hvalues, hset⟩ := JsMap.values_set_of_some row' hrow
  simp [hvalues, hset, hp, hp']

theorem countP_values_set_eq {m : JsMap String WorkRow} {id : String} {row : WorkRow}
    (p : WorkRow → Bool) (row' : WorkRow) (hrow : m.get? id = some row) (hp : p row = p row') :
    (m.set id row').values.countP p = m.values.countP p := by
  obtain ⟨l₁, l₂, hvalues, hset⟩ := JsMap.values_set_of_some row' hrow
  simp [hvalues, hset, List.countP_cons, hp]

theorem claim_sessionLeases {s : WorkStore} {now : Int} {row : WorkRow} (token : String)
    (hclaimed : s.claimedRow anyClaim now = some row) :
    (claim opts s anyClaim token now).2.sessionLeases
      = (s.purge "worker" now).sessionLeases.set row.sessionKey
          ⟨row.id, row.fence + 1, now + opts.leaseTtlMs⟩ := by
  rw [claimedRow_anyClaim] at hclaimed
  obtain ⟨rest, hcons⟩ := List.head?_eq_some_iff.1 hclaimed
  have hcandidates : ((s.evictClaim anyClaim).purge anyClaim.workerId now).candidates anyClaim now
      = row :: rest := hcons
  have hfresh : (claimFresh opts s anyClaim token now).2
      = (leaseRow opts (s.purge "worker" now) row "worker" token now).2 := by
    unfold claimFresh
    dsimp only
    rw [hcandidates]
    rfl
  have hclaim : claim opts s anyClaim token now
      = (.ok (claimFresh opts s anyClaim token now).1, (claimFresh opts s anyClaim token now).2) :=
    rfl
  rw [hclaim]
  exact congrArg WorkStore.sessionLeases hfresh

/-- The outcome a claimer parks a row under. -/
def parkedOutcome (row : WorkRow) : WaitingOutcome :=
  ⟨{ status := .awaitingInput, verification := .notRun,
     requestVersion := row.steerInputs.length + 1 }, rfl⟩

/-- Another row is in the way: its claimer takes it and parks it, and the ready
    row stays ready with one row less before it. -/
theorem Ready.pass {s : Timed} {id : String} {row other : WorkRow} (h : Ready s row)
    (httl : 0 < opts.leaseTtlMs) (hids : s.store.IdsMatch)
    (hrow : s.store.rows.get? id = some row) (hother : other.id ≠ id)
    (hclaimed : s.store.claimedRow anyClaim s.clock = some other) :
    ∃ es s', ((system opts t₀).restrict Helps).Run s es s' ∧
      s'.store.rows.get? id = some row ∧ Ready s' row ∧
      pending s'.store s'.clock < pending s.store s.clock := by
  let leased := leasedRow opts other "worker" "token" s.clock
  let settled := settledRow leased .waiting (some (parkedOutcome other).1) none
  let proof : LeaseProof := ⟨other.id, other.fence + 1, opts.hashToken "token"⟩
  let s₁ : Timed := ⟨(exec opts s.store s.clock s.clock (.claim anyClaim "token")).2, s.clock⟩
  let s₂ : Timed :=
    ⟨(exec opts s₁.store s.clock s.clock (.wait proof (parkedOutcome other))).2, s.clock⟩
  -- The claim stores the leased row under a lock of its own.
  have hrows₁ : s₁.store.rows = s.store.rows.set other.id leased := by
    simp only [s₁, exec, Prod.map_snd, id_eq, claim_rows, hclaimed]
    rfl
  have hlocks₁ : s₁.store.sessionLeases
      = (s.store.purge "worker" s.clock).sessionLeases.set other.sessionKey
          ⟨other.id, other.fence + 1, s.clock + opts.leaseTtlMs⟩ :=
    claim_sessionLeases "token" hclaimed
  have hstored : s.store.rows.get? other.id = some other :=
    (claimedRow_spec s.clock hids hclaimed).1
  -- The claimer's proof is valid, and nothing refuses to park the row.
  have hlease : s₁.store.validLease proof s.clock = some leased := by
    apply validLease_eq_some_iff.2
    refine ⟨by simp [hrows₁, proof], ⟨rfl, ?_⟩, rfl, rfl⟩
    have hfuture : s.clock < s.clock + opts.leaseTtlMs := by omega
    exact hfuture
  have hunstopped : other.cancelRequestedAt = none :=
    (claimable_of_claimedRow hclaimed).unstopped
  have haccepted : settlementRefused leased .waiting (some (parkedOutcome other).1) = false := by
    simp [settlementRefused, hunstopped, parkedOutcome, leased, leasedRow]
  have hstore₂ : s₂.store = ({ s₁.store with rows := s₁.store.rows.set other.id settled } :
      WorkStore).releaseSessionLease settled proof.fence := by
    simp [s₂, exec, wait, settle, hlease, haccepted, proof, settled]
  have hrows₂ : s₂.store.rows = (s.store.rows.set other.id leased).set other.id settled := by
    rw [hstore₂, releaseSessionLease_rows, hrows₁]
  have hstep₁ : ((system opts t₀).restrict Helps).step s
      (.call s.clock s.clock (.claim anyClaim "token") _) s₁ := ⟨trivial, call_step s _⟩
  have hstep₂ : ((system opts t₀).restrict Helps).step s₁
      (.call s.clock s.clock (.wait proof (parkedOutcome other)) _) s₂ := ⟨trivial, call_step s₁ _⟩
  refine ⟨_, s₂, .cons hstep₁ (.single hstep₂), ?_, ?_, ?_⟩
  · simp [hrows₂, JsMap.get?_set_of_ne _ (Ne.symm hother), hrow]
  · refine ⟨h.leased, h.expired, h.unstopped, h.unexhausted, h.due, ?_⟩
    -- The lock went with the lease it was taken for.
    intro key lease hget
    have hlocked : s₁.store.sessionLeases.get? settled.sessionKey
        = some ⟨other.id, other.fence + 1, s.clock + opts.leaseTtlMs⟩ := by
      rw [hlocks₁]
      exact JsMap.get?_set_self _ _ _
    have hreleased : s₂.store.sessionLeases = s₁.store.sessionLeases.delete settled.sessionKey := by
      have hown : other.id = settled.id ∧ other.fence + 1 = proof.fence := ⟨rfl, rfl⟩
      simp only [hstore₂, releaseSessionLease, hlocked]
      rw [if_pos hown]
    rw [hreleased, JsMap.get?_delete] at hget
    split at hget
    · cases hget
    · rename_i hkey
      have hkey' : key ≠ other.sessionKey := hkey
      rw [hlocks₁, JsMap.get?_set_of_ne _ hkey', purge_unlocked h.unlocked] at hget
      cases hget
  · have hbusy : claimable leased s.clock = false := by
      have hfuture : s.clock < s.clock + opts.leaseTtlMs := by omega
      simpa [claimable, leased, leasedRow] using hfuture
    have hidle : claimable settled s.clock = false := rfl
    have hlt : (s.store.rows.set other.id leased).values.countP (fun row => claimable row s.clock)
        < pending s.store s.clock :=
      countP_values_set_lt _ leased hstored (claimable_of_claimedRow hclaimed).claimable hbusy
    have heq : pending s₂.store s₂.clock
        = (s.store.rows.set other.id leased).values.countP (fun row => claimable row s.clock) := by
      unfold pending
      rw [hrows₂]
      exact countP_values_set_eq _ settled (JsMap.get?_set_self _ _ _)
        (by rw [show s₂.clock = s.clock from rfl, hbusy, hidle])
    rw [heq]
    exact hlt

/-- A ready row is claimed in the end, and then ended by its claimer. -/
theorem Ready.canEnd {s : Timed} {id : String} {row : WorkRow} (h : Ready s row)
    (httl : 0 < opts.leaseTtlMs) (hreach : (system opts t₀).Reachable s)
    (hrow : s.store.rows.get? id = some row) : CanEnd opts t₀ s id := by
  -- Induction on the number of rows a claim could take before this one.
  induction hn : pending s.store s.clock using Nat.strong_induction_on generalizing s with
  | _ n ih =>
      have hids := (refinement opts t₀).inv_of_reachable hreach
      have hgranted := leasesGranted_of_reachable hreach
      obtain ⟨other, hclaimed⟩ := h.claimedRow hgranted hrow
      by_cases hother : other.id = id
      · let leased := leasedRow opts other "worker" "token" s.clock
        let s₁ : Timed := ⟨(exec opts s.store s.clock s.clock (.claim anyClaim "token")).2, s.clock⟩
        have hstep : ((system opts t₀).restrict Helps).step s
            (.call s.clock s.clock (.claim anyClaim "token") _) s₁ := ⟨trivial, call_step s _⟩
        have hrow₁ : s₁.store.rows.get? id = some leased := by
          simp only [s₁, exec, Prod.map_snd, id_eq, claim_rows, hclaimed, hother,
            JsMap.get?_set_self]
          rfl
        have hlive : s.clock < s.clock + opts.leaseTtlMs := by omega
        apply CanEnd.of_run (.single hstep)
        exact canEnd_of_live (leasesGranted_of_reachable (hreach.next hstep.2)) hrow₁ rfl hlive
      · obtain ⟨es, s', hrun, hrow', h', hlt⟩ := h.pass httl hids hrow hother hclaimed
        apply CanEnd.of_run hrun
        exact ih _ (hn ▸ hlt) h' (hreach.run hrun.of_restrict) hrow' rfl

/-! ## Every row that is not stranded -/

/-- Some instant lies behind every session lease and after a given one. -/
theorem exists_later (leases : List SessionLease) (now : Int) :
    ∃ later, now ≤ later ∧ ∀ lease ∈ leases, lease.expiresAt ≤ later := by
  induction leases with
  | nil => exact ⟨now, le_rfl, by simp⟩
  | cons lease leases ih =>
      obtain ⟨later, hnow, hleases⟩ := ih
      refine ⟨max later lease.expiresAt, hnow.trans (le_max_left _ _), ?_⟩
      intro lease' hmem
      rcases List.mem_cons.1 hmem with rfl | hmem
      · exact le_max_right _ _
      · exact (hleases lease' hmem).trans (le_max_left _ _)

/-- In every reachable state an open row can be brought to its end exactly when
    it is not stranded. -/
theorem open_row_can_end_iff {s : Timed} {id : String} {row : WorkRow}
    (hreach : (system opts t₀).Reachable s) (hrow : s.store.rows.get? id = some row)
    (hopen : row.status.isOpen = true) :
    CanEnd opts t₀ s id ↔ ¬ Stranded opts row s.clock := by
  have hids := (refinement opts t₀).inv_of_reachable hreach
  constructor
  · intro hends hstranded
    exact hstranded.not_canEnd hids hrow hends
  · intro hstranded
    by_cases hleased : row.status = .leased
    · rcases lt_or_ge s.clock (row.leaseExpiresAt.getD 0) with hlive | hexpired
      · exact canEnd_of_live (leasesGranted_of_reachable hreach) hrow hleased hlive
      · -- The lease has run out: wait until nothing locks a session, then claim.
        have hpassed : ¬ (row.cancelRequestedAt ≠ none ∨ exhausted row = true ∨
            opts.leaseTtlMs ≤ 0) := fun h => hstranded ⟨hleased, hexpired, h⟩
        simp only [not_or, not_not, not_le, Bool.not_eq_true] at hpassed
        obtain ⟨hunstopped, hunexhausted, httl⟩ := hpassed
        obtain ⟨later, hnow, hleases⟩ := exists_later s.store.sessionLeases.values
          (max s.clock (row.availableAt.getD s.clock))
        have hclock : s.clock ≤ later := (le_max_left _ _).trans hnow
        have hdue : row.availableAt.getD s.clock ≤ later := (le_max_right _ _).trans hnow
        have htick : (system opts t₀).step s (.tick later) ⟨s.store, later⟩ := Step.tick hclock
        have htick' : ((system opts t₀).restrict Helps).step s (.tick later) ⟨s.store, later⟩ :=
          ⟨trivial, htick⟩
        have hready : Ready ⟨s.store, later⟩ row := by
          refine ⟨hleased, hexpired.trans hclock, hunstopped, hunexhausted, ?_, ?_⟩
          · cases havailable : row.availableAt with
            | none => rfl
            | some at_ =>
                rw [havailable] at hdue
                simpa using hdue
          · intro key lease hlease
            exact hleases lease (JsMap.mem_values_iff.2 ⟨key, hlease⟩)
        exact CanEnd.of_run (.single htick') (hready.canEnd httl (hreach.next htick) hrow)
    · exact canEnd_of_unleased hrow hopen hleased

/-! ### A cancelled attempt whose worker is gone -/

private def goneOptions : WorkStoreOptions := ⟨10, fun token => "digest of " ++ token⟩

private def goneInput : EnqueueWorkInput :=
  ⟨some "w", "t", "a", "s", none, "turn", .interactive, "m", none, none, none, none⟩

/-- The work is leased until 11. -/
private def goneLeased : List (Int × Call) :=
  [(0, .enqueue goneInput ""), (1, .claim { workerId := "worker" } "t1")]

/-- It is cancelled while leased; the cancelled worker never comes back, and at
    20 another one asks for work. -/
private def goneCancelled : List (Int × Call) :=
  goneLeased ++ [(2, .requestCancel "w"), (20, .claim { workerId := "other" } "t2")]

private theorem gone_reachable (calls : List (Int × Call)) (h : InOrder 0 calls) :
    (system goneOptions 0).Reachable (Timed.play goneOptions ⟨init, 0⟩ calls) :=
  (TransitionSystem.Reachable.of_start rfl).run (run_play _ _ h)

/-- The cancelled row is leased, its lease has run out, and nothing ends it. -/
theorem cancelled_attempt_never_ends :
    ¬ ∀ (opts : WorkStoreOptions) (t₀ : Int) (s : Timed) (id : String) (row : WorkRow),
      (system opts t₀).Reachable s → s.store.rows.get? id = some row →
      row.status.isOpen = true → CanEnd opts t₀ s id := by
  intro h
  have hreach := gone_reachable goneCancelled (by simp [InOrder, goneCancelled, goneLeased])
  have hrow : (Timed.play goneOptions ⟨init, 0⟩ goneCancelled).store.rows.get? "w" = some _ := rfl
  refine Stranded.not_canEnd ((refinement goneOptions 0).inv_of_reachable hreach) hrow ?_
    (h goneOptions 0 _ "w" _ hreach hrow rfl)
  exact ⟨rfl, by decide, .inl (by decide)⟩

/-- The same work, not cancelled: once its lease has run out it can be ended. -/
theorem open_row_can_end_iff_reclaimed :
    CanEnd goneOptions 0 ⟨(Timed.play goneOptions ⟨init, 0⟩ goneLeased).store, 20⟩ "w" := by
  have hreach := (gone_reachable goneLeased (by simp [InOrder, goneLeased])).next
    (show (system goneOptions 0).step _ (.tick 20) _ from Step.tick (by decide))
  refine (open_row_can_end_iff hreach (show _ = some _ from rfl) rfl).2 ?_
  intro hstranded
  rcases hstranded.passedOver with hstop | hused | httl
  · exact hstop rfl
  · exact absurd hused (by decide)
  · exact absurd httl (by decide)

end LingxiOS.WorkStore
