-- SUMMARY: The work store as a transition system that refines the lease protocol.
import LingxiOS.Base.FencedLease
import LingxiOS.WorkStore.Store

/-! # Runs of the Work Store

A run is any sequence of calls under a clock that never runs backwards; between
two calls time may pass. The leases of a store are read off its rows and its
session leases, and every call is one step of the abstract lease protocol on
them (`exec_change`), so both guarantees of the protocol hold of the store. -/

namespace LingxiOS.WorkStore

open Function

/-! ## Calls -/

/-- A call of the store, with the random values it draws. -/
inductive Call where
  | enqueue (input : EnqueueWorkInput) (randomUUID : String)
  | claim (request : ClaimRequest) (token : String)
  | heartbeat (proof : LeaseProof)
  | getLeased (proof : LeaseProof)
  | yieldWork (proof : LeaseProof)
  | complete (proof : LeaseProof) (completion : WorkCompletion)
  | wait (proof : LeaseProof) (goalOutcome : WaitingOutcome)
  | requestCancel (id : String)
  | requestPreempt (id : String)
  | addSteer (id text randomUUID : String)

/-- What a call returns, or the error it throws. -/
inductive Answer where
  | enqueued (result : Except String EnqueueResult)
  | claimed (result : Except String (Option WorkItem))
  | heartbeat (result : Option HeartbeatRow)
  | leased (result : Option LeasedWork)
  | accepted (result : Bool)
  | completed (result : Except String Bool)

/-- Run one call whose clock readings are `now` and then `later`. -/
def exec (opts : WorkStoreOptions) (s : WorkStore) (now later : Int) :
    Call → Answer × WorkStore
  | .enqueue input randomUUID => (s.enqueue input randomUUID now).map .enqueued id
  | .claim request token => (claim opts s request token now).map .claimed id
  | .heartbeat proof => (heartbeat opts s proof now later).map .heartbeat id
  | .getLeased proof => (.leased (s.getLeased proof now), s)
  | .yieldWork proof => (s.yieldWork proof now later).map .accepted id
  | .complete proof completion => (s.complete proof completion now later).map .completed id
  | .wait proof goalOutcome => (s.wait proof goalOutcome now later).map .accepted id
  | .requestCancel id_ => (s.requestCancel id_ later).map .accepted id
  | .requestPreempt id_ => (s.requestPreempt id_ now).map .accepted id
  | .addSteer id_ text randomUUID => (s.addSteer id_ text randomUUID now later).map .accepted id

/-! ## The system -/

structure Timed where
  store : WorkStore
  clock : Int

/-- Time passes, or a call runs to completion. -/
inductive Label where
  | tick (later : Int)
  | call (now later : Int) (call : Call) (answer : Answer)

inductive Step (opts : WorkStoreOptions) : Timed → Label → Timed → Prop
  | tick {s : Timed} {later : Int} (hlater : s.clock ≤ later) :
      Step opts s (.tick later) { s with clock := later }
  | call {s : Timed} {now later : Int} {c : Call} (hnow : s.clock ≤ now) (hlater : now ≤ later) :
      Step opts s (.call now later c (exec opts s.store now later c).1)
        ⟨(exec opts s.store now later c).2, later⟩

/-- The store from its creation at `t₀` on. -/
def system (opts : WorkStoreOptions) (t₀ : Int) : TransitionSystem Timed Label where
  start s := s = ⟨init, t₀⟩
  step := Step opts

/-! ## Leases of a store -/

/-- The lease a row records. -/
def grantOf (row : WorkRow) : FencedLease.Grant SessionKey String Int where
  key := row.sessionKey
  fence := row.fence
  held := row.status == .leased
  token := row.leaseTokenHash
  deadline := row.leaseExpiresAt.getD 0

def lockOf (lease : SessionLease) : FencedLease.Lock String Int :=
  ⟨lease.workId, lease.fence, lease.expiresAt⟩

def proofOf (proof : LeaseProof) : FencedLease.Proof String String :=
  ⟨proof.id, proof.fence, proof.leaseTokenHash⟩

/-- The rows' leases and the session leases, as a state of the lease protocol. -/
def leases (s : WorkStore) (clock : Int) : FencedLease.State String SessionKey String Int where
  grants id := (s.rows.get? id).map grantOf
  locks key := (s.sessionLeases.get? key).map lockOf
  clock := clock

/-- Rows are stored under their own id. -/
def IdsMatch (s : WorkStore) : Prop :=
  ∀ id row, s.rows.get? id = some row → row.id = id

/-- Two stores whose rows carry the same leases under the same session leases. -/
structure SameLeases (s s' : WorkStore) : Prop where
  rows : ∀ id, (s'.rows.get? id).map (fun row => (grantOf row, row.id))
    = (s.rows.get? id).map (fun row => (grantOf row, row.id))
  locks : s'.sessionLeases = s.sessionLeases

namespace SameLeases

theorem refl (s : WorkStore) : SameLeases s s := ⟨fun _ => rfl, rfl⟩

theorem trans {s t u : WorkStore} (h₁ : SameLeases s t) (h₂ : SameLeases t u) :
    SameLeases s u :=
  ⟨fun id => (h₂.rows id).trans (h₁.rows id), h₂.locks.trans h₁.locks⟩

theorem leases {s s' : WorkStore} (h : SameLeases s s') (clock : Int) :
    s'.leases clock = s.leases clock := by
  simp only [WorkStore.leases, h.locks, FencedLease.State.mk.injEq, and_true]
  funext id
  have hrow := congrArg (Option.map Prod.fst) (h.rows id)
  simpa [Function.comp_def] using hrow

theorem idsMatch {s s' : WorkStore} (h : SameLeases s s') (hids : s.IdsMatch) :
    s'.IdsMatch := by
  intro id row hrow
  have hview := h.rows id
  rw [hrow] at hview
  obtain ⟨row₀, hrow₀, heq⟩ := Option.map_eq_some_iff.1 hview.symm
  have hid : row.id = row₀.id := congrArg Prod.snd heq.symm
  exact hid.trans (hids id row₀ hrow₀)

/-- Storing a row whose lease is the stored one changes no lease. -/
theorem set {s : WorkStore} {id : String} {row row' : WorkRow} (hrow : s.rows.get? id = some row)
    (hgrant : grantOf row' = grantOf row) (hid : row'.id = row.id) :
    SameLeases s { s with rows := s.rows.set id row' } := by
  refine ⟨fun id' => ?_, rfl⟩
  by_cases h : id' = id
  · subst h
    simp [hrow, hgrant, hid]
  · simp [JsMap.get?_set_of_ne _ h]

end SameLeases

theorem grants_set (s : WorkStore) (id : String) (row : WorkRow) :
    (fun id' => ((s.rows.set id row).get? id').map grantOf)
      = update (fun id' => (s.rows.get? id').map grantOf) id (some (grantOf row)) := by
  funext id'
  by_cases h : id' = id
  · subst h
    simp
  · simp [h, JsMap.get?_set_of_ne]

theorem IdsMatch.set {s s' : WorkStore} (h : s.IdsMatch) {id : String} (row : WorkRow)
    (hid : row.id = id) (hrows : s'.rows = s.rows.set id row) : s'.IdsMatch := by
  intro id' row' hget
  rw [hrows, JsMap.get?_set] at hget
  split at hget
  · rename_i hid'
    obtain rfl := Option.some.inj hget
    exact hid.trans hid'.symm
  · exact h id' row' hget

/-! ## Session leases -/

@[simp] theorem releaseSessionLease_rows (s : WorkStore) (row : WorkRow) (fence : Nat) :
    (s.releaseSessionLease row fence).rows = s.rows := by
  unfold releaseSessionLease
  split
  · split <;> rfl
  · rfl

theorem releaseSessionLease_locks (s : WorkStore) (row : WorkRow) (fence : Nat) (clock : Int) :
    ((s.releaseSessionLease row fence).leases clock).locks
      = FencedLease.release (s.leases clock).locks row.sessionKey row.id fence := by
  funext key
  unfold releaseSessionLease FencedLease.release leases
  by_cases hkey : key = row.sessionKey
  · subst hkey
    cases hlease : s.sessionLeases.get? row.sessionKey with
    | none => simp [hlease]
    | some lease =>
        by_cases hown : lease.workId = row.id ∧ lease.fence = fence
        · simp [hown, hlease, lockOf, JsMap.get?_delete, Option.filter]
        · simp [hown, hlease, lockOf, Option.filter]
  · cases hlease : s.sessionLeases.get? row.sessionKey with
    | none => simp [hkey]
    | some lease =>
        by_cases hown : lease.workId = row.id ∧ lease.fence = fence
        · simp [hown, hkey, JsMap.get?_delete]
        · simp [hown, hkey]

theorem extendSessionLease_locks (s : WorkStore) (row : WorkRow) (proof : LeaseProof)
    (expiresAt : Int) :
    (fun key => ((s.extendSessionLease row proof expiresAt).get? key).map lockOf)
      = FencedLease.prolong (fun key => (s.sessionLeases.get? key).map lockOf)
          row.sessionKey proof.id proof.fence expiresAt := by
  funext key
  unfold extendSessionLease FencedLease.prolong
  by_cases hkey : key = row.sessionKey
  · subst hkey
    cases hlease : s.sessionLeases.get? row.sessionKey with
    | none => simp [hlease]
    | some lease =>
        by_cases hown : lease.workId = proof.id ∧ lease.fence = proof.fence
        · simp [hlease, hown, lockOf]
        · simp [hlease, hown, lockOf]
  · simp [hkey, JsMap.get?_modify_of_ne]

theorem purge_locks (s : WorkStore) (workerId : String) (now clock : Int) :
    (s.purge workerId now).leases clock
      = { s.leases clock with locks := FencedLease.purged (s.leases clock).locks now } := by
  simp only [leases, purge, FencedLease.State.mk.injEq, true_and, and_true]
  funext key
  rw [JsMap.get?_filter]
  cases hlease : s.sessionLeases.get? key with
  | none => simp [FencedLease.purged, hlease]
  | some lease =>
      by_cases hlive : now < lease.expiresAt
      · simp [FencedLease.purged, hlease, hlive, lockOf, Option.filter]
      · simp [FencedLease.purged, hlease, hlive, lockOf, Option.filter]

/-! ## Calls that change no lease -/

theorem grantOf_cancelRow (now : Int) (row : WorkRow) : grantOf (cancelRow now row) = grantOf row := by
  unfold cancelRow
  split
  · rfl
  · split
    · rfl
    · rename_i hstatus
      simp [grantOf, hstatus, WorkRow.sessionKey]

theorem cancelRow_id (now : Int) (row : WorkRow) : (cancelRow now row).id = row.id := by
  unfold cancelRow
  split
  · rfl
  · split <;> rfl

theorem requestCancel_sameLeases (s : WorkStore) (id : String) (now : Int) :
    SameLeases s (s.requestCancel id now).2 := by
  unfold requestCancel
  split
  · exact .refl s
  · split
    · exact .refl s
    · refine ⟨fun id' => ?_, rfl⟩
      exact JsMap.map_get?_foldl_modify
        (fun row => by rw [grantOf_cancelRow, cancelRow_id]) _ s.rows id'

theorem cancelChildren_sameLeases (s : WorkStore) (row : WorkRow) (now : Int) :
    SameLeases s (s.cancelChildren row now) := by
  unfold cancelChildren
  generalize s.rows.values.filter _ = children
  induction children generalizing s with
  | nil => exact .refl s
  | cons child children ih => exact (requestCancel_sameLeases s child.id now).trans (ih _)

theorem requestPreempt_sameLeases (s : WorkStore) (id : String) (now : Int) :
    SameLeases s (s.requestPreempt id now).2 := by
  unfold requestPreempt
  cases hrow : s.rows.get? id with
  | none => exact .refl s
  | some row =>
      dsimp only
      split
      · exact .refl s
      · exact .set hrow rfl rfl

/-- A waiting row that goes back to the queue is leased neither before nor after. -/
theorem grantOf_steeredRow (row : WorkRow) (input : SteerInput) :
    grantOf (steeredRow row input) = grantOf row := by
  by_cases hwaiting : row.status = .waiting
  · simp [grantOf, steeredRow, hwaiting, WorkRow.sessionKey]
  · simp [grantOf, steeredRow, hwaiting, WorkRow.sessionKey]

theorem addSteer_sameLeases (s : WorkStore) (id text randomUUID : String) (now later : Int) :
    SameLeases s (s.addSteer id text randomUUID now later).2 := by
  unfold addSteer
  cases hrow : s.rows.get? id with
  | none => exact .refl s
  | some row =>
      dsimp only
      split
      · exact .refl s
      · let input : SteerInput := { id := randomUUID, text := text, createdAt := now }
        have hset := SameLeases.set hrow (grantOf_steeredRow row input) rfl
        exact hset.trans (cancelChildren_sameLeases _ _ _)

theorem recordClaim_sameLeases (s : WorkStore) (request : ClaimRequest) (work : Option WorkItem) :
    SameLeases s (s.recordClaim request work) := by
  unfold recordClaim
  split
  · exact .refl s
  · exact ⟨fun _ => rfl, rfl⟩

theorem evictClaim_sameLeases (s : WorkStore) (request : ClaimRequest) :
    SameLeases s (s.evictClaim request) := by
  unfold evictClaim
  split
  · split
    · exact ⟨fun _ => rfl, rfl⟩
    · exact .refl s
  · exact .refl s

/-! ## Calls under a lease -/

/-- What a valid lease proof says about the row it names. -/
theorem validLease_eq_some_iff {s : WorkStore} {proof : LeaseProof} {now : Int} {row : WorkRow} :
    s.validLease proof now = some row ↔
      s.rows.get? proof.id = some row ∧ (grantOf row).live now ∧ row.fence = proof.fence ∧
        row.leaseTokenHash = some proof.leaseTokenHash := by
  simp only [validLease, Option.filter_eq_some_iff, FencedLease.Grant.live, grantOf,
    Bool.and_eq_true, beq_iff_eq, decide_eq_true_eq]
  constructor
  · rintro ⟨hrow, ⟨⟨hstatus, hfence⟩, htoken⟩, hexpiry⟩
    exact ⟨hrow, ⟨hstatus, hexpiry⟩, hfence, htoken⟩
  · rintro ⟨hrow, ⟨hstatus, hexpiry⟩, hfence, htoken⟩
    exact ⟨hrow, ⟨⟨hstatus, hfence⟩, htoken⟩, hexpiry⟩

/-- The store accepts exactly the proofs that are valid in the lease protocol. -/
theorem validLease_isSome_iff {s : WorkStore} {proof : LeaseProof} {now clock : Int} :
    (s.validLease proof now).isSome ↔
      FencedLease.Valid (s.leases clock) (proofOf proof) now := by
  rw [Option.isSome_iff_exists]
  constructor
  · rintro ⟨row, hrow⟩
    obtain ⟨hget, hlive, hfence, htoken⟩ := validLease_eq_some_iff.1 hrow
    exact ⟨grantOf row, by simp [leases, proofOf, hget], hlive, hfence, htoken⟩
  · rintro ⟨g, hget, hlive, hfence, htoken⟩
    obtain ⟨row, hrow, rfl⟩ := Option.map_eq_some_iff.1 hget
    exact ⟨row, validLease_eq_some_iff.2 ⟨hrow, hlive, hfence, htoken⟩⟩

section UnderLease

variable {s : WorkStore} {proof : LeaseProof} {now later clock : Int} {row : WorkRow}

theorem grants_of_validLease (clock : Int) (h : s.validLease proof now = some row) :
    (s.leases clock).grants proof.id = some (grantOf row) := by
  simp [leases, (validLease_eq_some_iff.1 h).1]

theorem heartbeat_change (opts : WorkStoreOptions) (h : s.validLease proof now = some row) :
    FencedLease.Change now (s.leases clock) (.extend proof.id)
      ((heartbeat opts s proof now later).2.leases clock) := by
  obtain ⟨-, hlive, hfence, -⟩ := validLease_eq_some_iff.1 h
  have hstep := FencedLease.Change.extend (later + opts.leaseTtlMs)
    (grants_of_validLease clock h) hlive
  convert hstep using 1
  simp only [heartbeat, h, leases, FencedLease.State.mk.injEq, and_true]
  refine ⟨?_, ?_⟩
  · rw [grants_set]
    rfl
  · rw [extendSessionLease_locks, ← hfence]
    rfl

/-- Storing a row that gave its lease up, and releasing its session. -/
theorem withdraw_change (h : s.validLease proof now = some row) (hid : row.id = proof.id)
    (row' : WorkRow) (bump : Bool) (hkey : row'.sessionKey = row.sessionKey)
    (hstatus : row'.status ≠ .leased) (htoken : row'.leaseTokenHash = none)
    (hbump : row'.fence = row.fence + bump.toNat)
    (released : WorkRow) (hreleased : released.sessionKey = row.sessionKey)
    (hreleasedId : released.id = row.id) :
    FencedLease.Change now (s.leases clock) (.withdraw proof.id bump)
      ((({ s with rows := s.rows.set proof.id row' } : WorkStore).releaseSessionLease released
        proof.fence).leases clock) := by
  obtain ⟨-, hlive, hfence, -⟩ := validLease_eq_some_iff.1 h
  have hheld : (grantOf row').held = false := by simpa [grantOf] using hstatus
  have hstep := FencedLease.Change.withdraw (grantOf row') bump
    (grants_of_validLease clock h) hlive hkey hheld htoken hbump
  convert hstep using 1
  have hlocks := releaseSessionLease_locks
    ({ s with rows := s.rows.set proof.id row' } : WorkStore) released proof.fence clock
  rw [hreleased, hreleasedId, hid] at hlocks
  simp only [leases, releaseSessionLease_rows, FencedLease.State.mk.injEq, and_true]
  refine ⟨grants_set s proof.id row', ?_⟩
  have hfence' : (grantOf row).fence = proof.fence := hfence
  rw [hfence']
  exact hlocks

end UnderLease

/-! ## Every call is one step of the protocol -/

/-- The row a claim leases, if it is not a repeated request and finds one. -/
def claimedRow (s : WorkStore) (request : ClaimRequest) (now : Int) : Option WorkRow :=
  match s.priorClaim request with
  | some _ => none
  | none => (((s.evictClaim request).purge request.workerId now).candidates request now).head?

/-- The protocol event a call amounts to. -/
def eventOf (opts : WorkStoreOptions) (s : WorkStore) (now later : Int) :
    Call → FencedLease.Event String String
  | .enqueue input randomUUID =>
      if s.rows.has (input.id.getD randomUUID) then .idle
      else .register (input.id.getD randomUUID)
  | .claim request token =>
      match s.claimedRow request now with
      | some row => .issue row.id (opts.hashToken token)
      | none => if (s.priorClaim request).isSome then .idle else .purge
  | .heartbeat proof => if (s.validLease proof now).isSome then .extend proof.id else .idle
  | .yieldWork proof =>
      if (s.yieldWork proof now later).1 then .withdraw proof.id true else .idle
  | .complete proof completion =>
      match (s.complete proof completion now later).1 with
      | .ok true => .withdraw proof.id false
      | _ => .idle
  | .wait proof goalOutcome =>
      if (s.wait proof goalOutcome now later).1 then .withdraw proof.id false else .idle
  | .getLeased _ | .requestCancel _ | .requestPreempt _ | .addSteer _ _ _ => .idle

section

variable {s : WorkStore} {now later clock : Int}

/-- A call that leaves the store alone is an idle step. -/
theorem idle_change : FencedLease.Change now (s.leases clock) .idle (s.leases clock) := .idle

theorem enqueue_change (input : EnqueueWorkInput) (randomUUID : String) (opts : WorkStoreOptions) :
    FencedLease.Change now (s.leases clock) (eventOf opts s now later (.enqueue input randomUUID))
      ((s.enqueue input randomUUID now).2.leases clock) := by
  cases hrow : s.rows.get? (input.id.getD randomUUID) with
  | some row =>
      simp only [enqueue, eventOf, JsMap.has, hrow, Option.isSome_some, if_true]
      split <;> exact idle_change
  | none =>
      simp only [enqueue, eventOf, JsMap.has, hrow, Option.isSome_none, Bool.false_eq_true,
        if_false]
      have habsent : (s.leases clock).grants (input.id.getD randomUUID) = none := by
        simp [leases, hrow]
      have hstep : FencedLease.Change now (s.leases clock) _ _ :=
        .register _ (grantOf (newRow input (input.id.getD randomUUID) now)) habsent rfl rfl
      convert hstep using 1
      simp only [leases, grants_set]

theorem candidates_mem {request : ClaimRequest} {row : WorkRow}
    (h : row ∈ s.candidates request now) :
    row ∈ s.rows.values ∧ s.candidate request now row = true := by
  rw [candidates, List.mem_insertionSort, List.mem_filter] at h
  exact h

/-- A candidate is a stored row whose session nobody has locked. -/
theorem claimedRow_spec (clock : Int) {request : ClaimRequest} {row : WorkRow} (hids : s.IdsMatch)
    (h : s.claimedRow request now = some row) :
    s.rows.get? row.id = some row ∧
      ∀ l, (s.leases clock).locks row.sessionKey = some l → l.deadline ≤ now := by
  unfold claimedRow at h
  split at h
  · cases h
  · obtain ⟨hmem, hcandidate⟩ := candidates_mem (List.mem_of_mem_head? h)
    have hevict := evictClaim_sameLeases s request
    obtain ⟨key, hget⟩ := JsMap.mem_values_iff.1 hmem
    have hid : row.id = key := hevict.idsMatch hids key row hget
    have hrows : (s.evictClaim request).rows = s.rows := by
      unfold evictClaim
      split
      · split <;> rfl
      · rfl
    refine ⟨by rw [← hrows, hid]; exact hget, ?_⟩
    intro l hl
    have hfree : ((s.evictClaim request).purge request.workerId now).sessionLeases.get?
        row.sessionKey = none := by
      simpa [candidate, JsMap.has] using (Bool.and_eq_true_iff.1 hcandidate).2
    rw [purge, JsMap.get?_filter, hevict.locks] at hfree
    obtain ⟨lease, hlease, rfl⟩ := Option.map_eq_some_iff.1 hl
    rw [hlease] at hfree
    simpa [Option.filter, lockOf] using hfree

theorem leaseRow_leases (opts : WorkStoreOptions) (row : WorkRow) (workerId token : String) :
    (leaseRow opts s row workerId token now).2.leases clock =
      { s.leases clock with
        grants := update (s.leases clock).grants row.id
          (some (grantOf (leasedRow opts row workerId token now)))
        locks := update (s.leases clock).locks row.sessionKey
          (some ⟨row.id, row.fence + 1, now + opts.leaseTtlMs⟩) } := by
  simp only [leases, leaseRow, grants_set, FencedLease.State.mk.injEq, true_and, and_true]
  funext key
  by_cases hkey : key = row.sessionKey
  · subst hkey
    simp [lockOf, leasedRow]
  · simp [hkey, JsMap.get?_set_of_ne]

theorem claim_change (opts : WorkStoreOptions) (hids : s.IdsMatch) (request : ClaimRequest)
    (token : String) :
    FencedLease.Change now (s.leases clock) (eventOf opts s now later (.claim request token))
      ((claim opts s request token now).2.leases clock) := by
  cases hprior : s.priorClaim request with
  | some prior =>
      simp only [claim, eventOf, claimedRow, hprior, Option.isSome_some, if_true]
      exact idle_change
  | none =>
      have hpurge := purge_locks (s.evictClaim request) request.workerId now clock
      rw [(evictClaim_sameLeases s request).leases clock] at hpurge
      cases hrow : s.claimedRow request now with
      | none =>
          have hnil : ((s.evictClaim request).purge request.workerId now).candidates request now
              = [] := by simpa [claimedRow, hprior] using hrow
          simp only [claim, eventOf, hprior, hrow, claimFresh, hnil, Option.isSome_none,
            Bool.false_eq_true, if_false]
          rw [(recordClaim_sameLeases _ request none).leases clock, hpurge]
          exact .purge
      | some row =>
          obtain ⟨hget, hfree⟩ := claimedRow_spec clock hids hrow
          obtain ⟨rest, hcons⟩ : ∃ rest, ((s.evictClaim request).purge request.workerId
              now).candidates request now = row :: rest := by
            rw [claimedRow, hprior] at hrow
            exact List.head?_eq_some_iff.1 hrow
          simp only [claim, eventOf, hprior, hrow, claimFresh, hcons]
          rw [(recordClaim_sameLeases _ request _).leases clock, leaseRow_leases, hpurge]
          have hgrant : (s.leases clock).grants row.id = some (grantOf row) := by
            simp [leases, hget]
          exact FencedLease.Change.issue _ (now + opts.leaseTtlMs) hgrant hfree

theorem yieldWork_change (opts : WorkStoreOptions) (hids : s.IdsMatch) (proof : LeaseProof) :
    FencedLease.Change now (s.leases clock) (eventOf opts s now later (.yieldWork proof))
      ((s.yieldWork proof now later).2.leases clock) := by
  cases hrow : s.validLease proof now with
  | none =>
      simp only [eventOf, yieldWork, hrow, Bool.false_eq_true, if_false]
      exact idle_change
  | some row =>
      have hid := hids _ _ (validLease_eq_some_iff.1 hrow).1
      by_cases hpreempt : row.preemptRequestedAt.isNone
      · simp only [eventOf, yieldWork, hrow, hpreempt, if_true, Bool.false_eq_true, if_false]
        exact idle_change
      · simp only [eventOf, yieldWork, hrow, hpreempt, Bool.false_eq_true, if_false, if_true]
        exact withdraw_change hrow hid (yieldedRow row later) true rfl (by simp [yieldedRow])
          rfl rfl row rfl rfl

/-- Settling either refuses and changes nothing, or withdraws the lease. -/
theorem settle_change (now later clock : Int) (hids : s.IdsMatch) (proof : LeaseProof) {status : WorkStatus}
    (hstatus : status ≠ .leased) (goalOutcome : Option GoalOutcome) (error : Option String) :
    FencedLease.Change now (s.leases clock)
      (if (s.settle proof status goalOutcome error now later).1 then .withdraw proof.id false
        else .idle)
      ((s.settle proof status goalOutcome error now later).2.leases clock) := by
  cases hrow : s.validLease proof now with
  | none =>
      simp only [settle, hrow, Bool.false_eq_true, if_false]
      exact idle_change
  | some row =>
      have hid := hids _ _ (validLease_eq_some_iff.1 hrow).1
      by_cases hrefused : settlementRefused row status goalOutcome
      · simp only [settle, hrow, hrefused, if_true, Bool.false_eq_true, if_false]
        exact idle_change
      · have hwithdraw : FencedLease.Change now (s.leases clock) _ _ :=
          withdraw_change hrow hid (settledRow row status goalOutcome error) false rfl hstatus rfl
            rfl (settledRow row status goalOutcome error) rfl rfl
        by_cases hwaiting : status = .waiting
        · subst hwaiting
          simp only [settle, hrow, hrefused, Bool.false_eq_true, if_false, if_true]
          exact hwithdraw
        · simp only [settle, hrow, hrefused, hwaiting, Bool.false_eq_true, if_false, if_true]
          rw [(cancelChildren_sameLeases _ _ _).leases clock]
          exact hwithdraw

theorem complete_change (opts : WorkStoreOptions) (hids : s.IdsMatch) (proof : LeaseProof)
    (completion : WorkCompletion) :
    FencedLease.Change now (s.leases clock) (eventOf opts s now later (.complete proof completion))
      ((s.complete proof completion now later).2.leases clock) := by
  have hsettle := settle_change now later clock hids proof
    (workStatusOf_ne_leased completion) completion.goalOutcome completion.error
  by_cases hwaiting : workStatusOf completion = .waiting
  · simp only [eventOf, complete, hwaiting, if_true]
    exact idle_change
  · simp only [eventOf, complete, hwaiting, if_false]
    cases hsettled : (s.settle proof (workStatusOf completion) completion.goalOutcome
        completion.error now later).1 with
    | false => simpa [hsettled] using hsettle
    | true => simpa [hsettled] using hsettle

/-- Every call is the protocol step `eventOf` names. -/
theorem exec_change (clock : Int) (opts : WorkStoreOptions) (hids : s.IdsMatch) (call : Call) :
    FencedLease.Change now (s.leases clock) (eventOf opts s now later call)
      ((exec opts s now later call).2.leases clock) := by
  cases call with
  | enqueue input randomUUID => exact enqueue_change input randomUUID opts
  | claim request token => exact claim_change opts hids request token
  | heartbeat proof =>
      cases hrow : s.validLease proof now with
      | none =>
          simp only [eventOf, exec, heartbeat, hrow, Option.isSome_none, Bool.false_eq_true,
            if_false]
          exact idle_change
      | some row => simpa [eventOf, exec, hrow] using heartbeat_change opts hrow
  | getLeased proof => exact .idle
  | yieldWork proof => exact yieldWork_change opts hids proof
  | complete proof completion => exact complete_change opts hids proof completion
  | wait proof goalOutcome => exact settle_change now later clock hids proof (by simp) _ _
  | requestCancel id =>
      simp only [eventOf, exec, Prod.map_snd, id_eq, (requestCancel_sameLeases s id later).leases]
      exact idle_change
  | requestPreempt id =>
      simp only [eventOf, exec, Prod.map_snd, id_eq, (requestPreempt_sameLeases s id now).leases]
      exact idle_change
  | addSteer id text randomUUID =>
      simp only [eventOf, exec, Prod.map_snd, id_eq, (addSteer_sameLeases s id text randomUUID now later).leases]
      exact idle_change

end

/-! ## Rows stay under their ids -/

theorem idsMatch_of_rows {s s' : WorkStore} (h : s.IdsMatch) (hrows : s'.rows = s.rows) :
    s'.IdsMatch := by
  intro id row hget
  exact h id row (hrows ▸ hget)

theorem IdsMatch.releaseSessionLease {s : WorkStore} (h : s.IdsMatch) (row : WorkRow)
    (fence : Nat) : (s.releaseSessionLease row fence).IdsMatch :=
  idsMatch_of_rows h (releaseSessionLease_rows s row fence)

theorem IdsMatch.claim {s : WorkStore} (h : s.IdsMatch) (opts : WorkStoreOptions)
    (request : ClaimRequest) (token : String) (now : Int) :
    (claim opts s request token now).2.IdsMatch := by
  have hpurged : ((s.evictClaim request).purge request.workerId now).IdsMatch :=
    idsMatch_of_rows ((evictClaim_sameLeases s request).idsMatch h) rfl
  unfold WorkStore.claim
  split
  · exact h
  · simp only [claimFresh]
    split
    · exact (recordClaim_sameLeases _ _ _).idsMatch hpurged
    · rename_i row _ _
      refine (recordClaim_sameLeases _ _ _).idsMatch ?_
      exact hpurged.set (leasedRow opts row request.workerId token now) rfl rfl

theorem IdsMatch.settle {s : WorkStore} (h : s.IdsMatch) (proof : LeaseProof)
    (status : WorkStatus) (goalOutcome : Option GoalOutcome) (error : Option String)
    (now later : Int) : (s.settle proof status goalOutcome error now later).2.IdsMatch := by
  unfold WorkStore.settle
  cases hrow : s.validLease proof now with
  | none => exact h
  | some row =>
      have hid := h _ _ (validLease_eq_some_iff.1 hrow).1
      let settled := settledRow row status goalOutcome error
      have hset : ({ s with rows := s.rows.set proof.id settled } : WorkStore).IdsMatch :=
        h.set settled hid rfl
      have hsettled := hset.releaseSessionLease settled proof.fence
      dsimp only
      split
      · exact h
      · dsimp only
        split
        · exact hsettled
        · exact (cancelChildren_sameLeases _ _ _).idsMatch hsettled

/-- No call moves a row to another id. -/
theorem IdsMatch.exec {s : WorkStore} (h : s.IdsMatch) (opts : WorkStoreOptions)
    (now later : Int) (call : Call) : (exec opts s now later call).2.IdsMatch := by
  cases call with
  | enqueue input randomUUID =>
      simp only [WorkStore.exec, Prod.map_snd, id_eq, enqueue]
      split
      · split <;> exact h
      · exact h.set (newRow input (input.id.getD randomUUID) now) rfl rfl
  | claim request token => exact h.claim opts request token now
  | heartbeat proof =>
      simp only [WorkStore.exec, Prod.map_snd, id_eq, heartbeat]
      cases hrow : s.validLease proof now with
      | none => exact h
      | some row =>
          have hid := h _ _ (validLease_eq_some_iff.1 hrow).1
          exact h.set ({ row with leaseExpiresAt := some (later + opts.leaseTtlMs) }) hid rfl
  | getLeased proof => exact h
  | yieldWork proof =>
      simp only [WorkStore.exec, Prod.map_snd, id_eq, yieldWork]
      cases hrow : s.validLease proof now with
      | none => exact h
      | some row =>
          have hid := h _ _ (validLease_eq_some_iff.1 hrow).1
          have hset : ({ s with rows := s.rows.set proof.id (yieldedRow row later) } :
              WorkStore).IdsMatch := h.set (yieldedRow row later) hid rfl
          dsimp only
          split
          · exact h
          · exact hset.releaseSessionLease row proof.fence
  | complete proof completion =>
      simp only [WorkStore.exec, Prod.map_snd, id_eq, complete]
      split
      · exact h
      · exact h.settle proof _ _ _ now later
  | wait proof goalOutcome => exact h.settle proof _ _ _ now later
  | requestCancel id => exact (requestCancel_sameLeases s id later).idsMatch h
  | requestPreempt id => exact (requestPreempt_sameLeases s id now).idsMatch h
  | addSteer id text randomUUID =>
      exact (addSteer_sameLeases s id text randomUUID now later).idsMatch h

/-! ## Refinement -/

/-- The protocol step behind a step of the store. -/
def labelOf (opts : WorkStoreOptions) (s : Timed) : Label → FencedLease.Label String String Int
  | .tick later => ⟨.idle, later, later⟩
  | .call now later call _ => ⟨eventOf opts s.store now later call, now, later⟩

/-- The work store refines the abstract lease protocol. -/
def refinement (opts : WorkStoreOptions) (t₀ : Int) :
    (system opts t₀).Refinement
      (FencedLease.system t₀ :
        TransitionSystem (FencedLease.State String SessionKey String Int) _) where
  abs s := s.store.leases s.clock
  inv s := s.store.IdsMatch
  label := labelOf opts
  start := by
    rintro s rfl
    refine ⟨?_, ?_, ?_, rfl⟩
    · intro id row hrow
      simp [init] at hrow
    · intro i
      simp [leases, init]
    · intro k
      simp [leases, init]
  step := by
    intro s e s' hids hstep
    cases hstep with
    | tick hlater => exact ⟨hids, hlater, le_rfl, _, .idle, rfl⟩
    | @call now later c hnow hlater =>
        exact ⟨hids.exec opts now later c, hnow, hlater, _,
          exec_change s.clock opts hids c, rfl⟩

end LingxiOS.WorkStore
