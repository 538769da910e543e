-- SUMMARY: A claim that is sent again under its request id.
import LingxiOS.Base.Fifo
import LingxiOS.WorkStore.System

/-! # Retried Claims

The store remembers what it answered to the last 10000 request ids it has recorded. A
claim whose id is among them gets the answer it got before, or an error if anything it
asks for has changed, and leaves the store as it is. An id that has been forgotten is
recorded again like a new one, and so counts again. -/

namespace LingxiOS.WorkStore

/-- How many request ids are remembered. -/
def maxClaims : Nat := 10000

/-! ## What a claim remembers -/

theorem entries_delete_head {κ α : Type*} [DecidableEq κ] {m : JsMap κ α} {k : κ} {a : α}
    {rest : List (κ × α)} (h : m.entries = (k, a) :: rest) : (m.delete k).entries = rest := by
  have hnodup := m.nodup
  rw [h, List.map_cons, List.nodup_cons] at hnodup
  change m.entries.filter (fun entry => decide (entry.1 ≠ k)) = rest
  rw [h, List.filter_cons_of_neg (by simp)]
  refine List.filter_eq_self.2 fun entry hentry => ?_
  rw [decide_eq_true_eq]
  intro hkey
  exact hnodup.1 (List.mem_map.2 ⟨entry, hentry, hkey⟩)

section

variable {opts : WorkStoreOptions} {s : WorkStore} {request : ClaimRequest} {token id : String}
  {now later : Int}

theorem evictClaim_entries (hid : request.identity = some id) : (s.evictClaim request).claims.entries
    = if maxClaims ≤ s.claims.entries.length then s.claims.entries.tail else s.claims.entries := by
  unfold evictClaim
  cases hentries : s.claims.entries with
  | nil => simp [hid, JsMap.keys, hentries]
  | cons entry rest =>
      simp only [hid, JsMap.keys, hentries, List.map_cons, JsMap.size]
      split
      · rename_i hfull
        exact (entries_delete_head hentries).trans (if_pos hfull).symm
      · rename_i hroom
        exact hentries.trans (if_neg hroom).symm

/-- What is left after an eviction was there before. -/
theorem evictClaim_none (hid : request.identity = some id) (hnew : s.claims.get? id = none) :
    (s.evictClaim request).claims.get? id = none := by
  rw [JsMap.get?_eq_none_iff] at hnew ⊢
  rw [evictClaim_entries hid]
  split
  · exact fun hmem => hnew (List.mem_of_mem_tail (List.map_tail ▸ hmem))
  · exact hnew

/-- The record a claim leaves, with its answer. -/
def recordOf (request : ClaimRequest) (work : Option WorkItem) : ClaimRecord :=
  ⟨request.workerId, work, request.kinds, request.sortedLanes, request.executionClass⟩

/-- A claim that is not remembered yet is recorded last, with its answer. -/
theorem claimFresh_entries (hid : request.identity = some id) (hnew : s.claims.get? id = none) :
    (claimFresh opts s request token now).2.claims.entries = Fifo.push maxClaims s.claims.entries
      (id, recordOf request (claimFresh opts s request token now).1) := by
  have hnone := evictClaim_none hid hnew
  have hentries := evictClaim_entries (s := s) hid
  unfold claimFresh
  dsimp only
  split
  · simp only [recordClaim, hid, purge, JsMap.entries_set_of_none _ hnone, hentries, Fifo.push,
      recordOf]
  · simp only [recordClaim, hid, purge, leaseRow, JsMap.entries_set_of_none _ hnone, hentries,
      Fifo.push, recordOf]

theorem claimFresh_claims (hid : request.identity = none) :
    (claimFresh opts s request token now).2.claims = s.claims := by
  unfold claimFresh
  dsimp only
  split
  · simp only [recordClaim, hid, purge, evictClaim]
  · simp only [recordClaim, hid, purge, leaseRow, evictClaim]

/-! ## Other calls -/

theorem releaseSessionLease_claims (s : WorkStore) (row : WorkRow) (fence : Nat) :
    (s.releaseSessionLease row fence).claims = s.claims := by
  unfold releaseSessionLease
  split
  · split <;> rfl
  · rfl

theorem requestCancel_claims (s : WorkStore) (id : String) (now : Int) :
    (s.requestCancel id now).2.claims = s.claims := by
  unfold requestCancel
  split
  · rfl
  · split <;> rfl

theorem cancelChildren_claims (s : WorkStore) (row : WorkRow) (now : Int) :
    (s.cancelChildren row now).claims = s.claims := by
  unfold cancelChildren
  generalize s.rows.values.filter (fun child => child.isChildOf row) = children
  induction children generalizing s with
  | nil => rfl
  | cons child children ih => exact (ih _).trans (requestCancel_claims s child.id now)

theorem settle_claims (s : WorkStore) (proof : LeaseProof) (status : WorkStatus)
    (goalOutcome : Option GoalOutcome) (error : Option String) (now later : Int) :
    (s.settle proof status goalOutcome error now later).2.claims = s.claims := by
  unfold settle
  split
  · rfl
  · split
    · rfl
    · dsimp only
      split
      · exact releaseSessionLease_claims _ _ _
      · exact (cancelChildren_claims _ _ _).trans (releaseSessionLease_claims _ _ _)

/-- The id a call records: that of a claim that is not remembered. -/
def recorded (s : WorkStore) : Call → Option String
  | .claim request _ => if (s.priorClaim request).isNone then request.identity else none
  | _ => none

/-- Only a recorded claim changes what is remembered. -/
theorem exec_claims {call : Call} (h : s.recorded call = none) :
    (exec opts s now later call).2.claims = s.claims := by
  cases call with
  | claim request token =>
      simp only [exec, claim, Prod.map_snd, id_eq]
      cases hprior : s.priorClaim request with
      | some prior => rfl
      | none =>
          simp only [recorded, hprior, Option.isNone_none, if_true] at h
          exact claimFresh_claims h
  | enqueue input randomUUID =>
      simp only [exec, enqueue, Prod.map_snd, id_eq]
      split
      · split <;> rfl
      · rfl
  | heartbeat proof =>
      simp only [exec, heartbeat, Prod.map_snd, id_eq]
      split <;> rfl
  | getLeased proof => rfl
  | yieldWork proof =>
      simp only [exec, yieldWork, Prod.map_snd, id_eq]
      split
      · rfl
      · split
        · rfl
        · exact releaseSessionLease_claims _ _ _
  | complete proof completion =>
      simp only [exec, complete, Prod.map_snd, id_eq]
      split
      · rfl
      · exact settle_claims ..
  | wait proof goalOutcome => exact settle_claims ..
  | requestCancel id => exact requestCancel_claims s id later
  | requestPreempt id =>
      simp only [exec, requestPreempt, Prod.map_snd, id_eq]
      split
      · rfl
      · split <;> rfl
  | addSteer id text randomUUID =>
      simp only [exec, addSteer, Prod.map_snd, id_eq]
      split
      · rfl
      · split
        · rfl
        · exact cancelChildren_claims _ _ _

/-- A recorded claim is new, and its record is the last one. -/
theorem exec_recorded {call : Call} (h : s.recorded call = some id) :
    ∃ record, (exec opts s now later call).2.claims.entries
      = Fifo.push maxClaims s.claims.entries (id, record) := by
  cases call with
  | claim request token =>
      simp only [recorded, Option.ite_none_right_eq_some, Option.isNone_iff_eq_none] at h
      obtain ⟨hprior, hid⟩ := h
      have hnew : s.claims.get? id = none := by
        rw [priorClaim, hid, Option.bind_some] at hprior
        exact hprior
      refine ⟨recordOf request (claimFresh opts s request token now).1, ?_⟩
      simp only [exec, claim, hprior, Prod.map_snd, id_eq]
      exact claimFresh_entries hid hnew
  | enqueue | heartbeat | getLeased | yieldWork | complete | wait | requestCancel | requestPreempt
    | addSteer => cases h

end

/-! ## Runs -/

section

variable {opts : WorkStoreOptions} {t₀ : Int} {s s' : Timed} {label : Label} {labels : List Label}

/-- The state a label leads to. -/
def afterLabel (opts : WorkStoreOptions) (s : Timed) : Label → Timed
  | .tick later => { s with clock := later }
  | .call now later c _ => ⟨(exec opts s.store now later c).2, later⟩

theorem step_label (h : (system opts t₀).step s label s') : s' = afterLabel opts s label := by
  cases h with
  | tick => rfl
  | call => rfl

theorem run_labels (h : (system opts t₀).Run s labels s') : s' = labels.foldl (afterLabel opts) s := by
  induction h with
  | refl => rfl
  | snoc _ hstep ih =>
      rw [List.foldl_append, ← ih]
      exact step_label hstep

def Label.recorded (store : WorkStore) : Label → Option String
  | .tick _ => none
  | .call _ _ c _ => store.recorded c

/-- The request ids that are recorded along some labels: each was new, or forgotten. -/
def recordings (opts : WorkStoreOptions) : Timed → List Label → List String
  | _, [] => []
  | s, label :: rest => (label.recorded s.store).toList ++ recordings opts (afterLabel opts s label) rest

theorem recordings_snoc (s : Timed) (labels : List Label) (label : Label) :
    recordings opts s (labels ++ [label]) = recordings opts s labels
      ++ (label.recorded (labels.foldl (afterLabel opts) s).store).toList := by
  induction labels generalizing s with
  | nil => simp [recordings]
  | cons first rest ih => simp [recordings, ih]

/-- A step remembers nothing new, or the id it records. -/
theorem afterLabel_claims (opts : WorkStoreOptions) (s : Timed) (label : Label) :
    label.recorded s.store = none ∧ (afterLabel opts s label).store.claims = s.store.claims ∨
      ∃ id record, label.recorded s.store = some id ∧
        (afterLabel opts s label).store.claims.entries
          = Fifo.push maxClaims s.store.claims.entries (id, record) := by
  cases label with
  | tick later => exact .inl ⟨rfl, rfl⟩
  | call now later call answer =>
      simp only [Label.recorded, afterLabel]
      cases hrecorded : s.store.recorded call with
      | none => exact .inl ⟨rfl, exec_claims hrecorded⟩
      | some id =>
          obtain ⟨record, hentries⟩ := exec_recorded hrecorded
          exact .inr ⟨id, record, rfl, hentries⟩

theorem claims_le (h : (system opts t₀).Reachable s) :
    s.store.claims.entries.length ≤ maxClaims := by
  refine h.invariant (I := fun s => s.store.claims.entries.length ≤ maxClaims) ?_ ?_
  · rintro s rfl
    exact Nat.zero_le _
  · intro s label s' hle hstep
    rw [step_label hstep]
    rcases afterLabel_claims opts s label with ⟨-, hsame⟩ | ⟨id, record, -, hentries⟩
    · rw [hsame]
      exact hle
    · rw [hentries]
      exact Fifo.length_push_le (by decide) hle

/-- A record stays while fewer than 10000 others are recorded. -/
theorem holds_run {entry : String × ClaimRecord} (hrun : (system opts t₀).Run s labels s')
    (hs : Fifo.Holds maxClaims 0 entry s.store.claims.entries)
    (hfew : (recordings opts s labels).length < maxClaims) :
    Fifo.Holds maxClaims (recordings opts s labels).length entry s'.store.claims.entries := by
  induction hrun with
  | refl => exact hs
  | @snoc t u labels label hrun hstep ih =>
      rw [recordings_snoc, ← run_labels hrun] at hfew ⊢
      rw [List.length_append] at hfew ⊢
      have hheld := ih (by omega)
      rw [step_label hstep]
      rcases afterLabel_claims opts t label with ⟨hnone, hsame⟩ | ⟨id, record, hid, hentries⟩
      · rw [hnone, hsame]
        exact hheld
      · rw [hid, Option.toList_some, List.length_singleton] at hfew ⊢
        rw [hentries]
        exact hheld.push hfew

/-- The same worker asks for the same. -/
structure ClaimRequest.Same (request request' : ClaimRequest) : Prop where
  workerId : request.workerId = request'.workerId
  kinds : request.kinds = request'.kinds
  lanes : request.sortedLanes = request'.sortedLanes
  executionClass : request.executionClass = request'.executionClass

theorem replayClaim_cases (request request' : ClaimRequest) (work : Option WorkItem) :
    ClaimRequest.Same request request' ∧ replayClaim (recordOf request work) request' = .ok work ∨
      ¬ ClaimRequest.Same request request' ∧
        ∃ message, replayClaim (recordOf request work) request' = .error message := by
  unfold replayClaim recordOf
  dsimp only
  split
  · rename_i hworker
    exact .inr ⟨fun hsame => hworker hsame.workerId, _, rfl⟩
  · rename_i hworker
    split
    · rename_i hkinds
      exact .inr ⟨fun hsame => hkinds hsame.kinds, _, rfl⟩
    · rename_i hkinds
      split
      · rename_i hlanes
        exact .inr ⟨fun hsame => hlanes hsame.lanes, _, rfl⟩
      · rename_i hlanes
        split
        · rename_i hclass
          exact .inr ⟨fun hsame => hclass hsame.executionClass, _, rfl⟩
        · rename_i hclass
          exact .inl ⟨⟨not_not.1 hworker, not_not.1 hkinds, not_not.1 hlanes, not_not.1 hclass⟩, rfl⟩

/-- A claim under an id that was recorded, with fewer than 10000 ids recorded since, gets the
    first answer again, or an error if it asks for something else; the store is as it was. -/
theorem retried_claim {s₀ s₁ : Timed} {request request' : ClaimRequest} {token token' id : String}
    {now later now' : Int} {answer : Answer} (hreach : (system opts t₀).Reachable s₀)
    (hid : request.identity = some id) (hid' : request'.identity = some id)
    (hfirst : s₀.store.priorClaim request = none)
    (hstep : (system opts t₀).step s₀ (.call now later (.claim request token) answer) s₁)
    (hrun : (system opts t₀).Run s₁ labels s)
    (hfew : (recordings opts s₁ labels).length < maxClaims) :
    ∃ first, answer = .claimed (.ok first) ∧
      (claim opts s.store request' token' now').2 = s.store ∧
      (ClaimRequest.Same request request' →
        (claim opts s.store request' token' now').1 = .ok first) ∧
      (¬ ClaimRequest.Same request request' →
        ∃ message, (claim opts s.store request' token' now').1 = .error message) := by
  refine ⟨(claimFresh opts s₀.store request token now).1, ?_, ?_⟩
  · cases hstep with
    | call => simp only [exec, claim, hfirst, Prod.map_fst]
  · have hnew : s₀.store.claims.get? id = none := by
      rw [priorClaim, hid, Option.bind_some] at hfirst
      exact hfirst
    have hentries : s₁.store.claims.entries = Fifo.push maxClaims s₀.store.claims.entries
        (id, recordOf request (claimFresh opts s₀.store request token now).1) := by
      rw [step_label hstep]
      simp only [afterLabel, exec, claim, hfirst, Prod.map_snd, id_eq]
      exact claimFresh_entries hid hnew
    have hheld := holds_run hrun (hentries ▸ Fifo.holds_push (by decide) (claims_le hreach)) hfew
    have hprior : s.store.priorClaim request'
        = some (recordOf request (claimFresh opts s₀.store request token now).1) := by
      rw [priorClaim, hid', Option.bind_some]
      exact JsMap.get?_eq_some_iff.2 hheld.mem
    simp only [claim, hprior, true_and]
    rcases replayClaim_cases request request' (claimFresh opts s₀.store request token now).1 with
      ⟨hsame, hanswer⟩ | ⟨hother, herror⟩
    · exact ⟨fun _ => hanswer, fun hother => absurd hsame hother⟩
    · exact ⟨fun hsame => absurd hsame hother, fun _ => herror⟩

end

/-! ## Forgotten ids -/

private def clientOptions : WorkStoreOptions := { hashToken := id }

/-- Request ids that repeat after 10001 of them. -/
private def requestIdAt (n : Nat) : String := String.ofList (List.replicate (n % 10001 + 1) 'a')

private def requestAt (n : Nat) : ClaimRequest := { workerId := "worker", requestId := requestIdAt n }

private def claimAt (n : Nat) : Label := .call 0 0 (.claim (requestAt n) "token") (.claimed (.ok none))

private def chore : EnqueueWorkInput where
  id := some "work"
  tenantId := "tenant"
  agentId := "agent"
  sessionId := "session"
  threadId := none
  kind := "turn"
  lane := .interactive
  triggerRef := "ref"
  principalId := none
  priority := none
  availableAt := none
  meta_ := none

private def enqueueChore : Label := .call 0 0 (.enqueue chore "uuid") (.enqueued (.ok ⟨"work", false⟩))

/-- The request id a call carries. -/
def Label.requestId : Label → Option String
  | .call _ _ (.claim request _) _ => request.identity
  | _ => none

private theorem requestIdAt_inj {m n : Nat} (h : requestIdAt m = requestIdAt n) :
    m % 10001 = n % 10001 := by
  have hlength := congrArg (fun s => s.toList.length) h
  simp only [requestIdAt, String.toList_ofList, List.length_replicate] at hlength
  omega

private theorem identity_requestAt (n : Nat) : (requestAt n).identity = some (requestIdAt n) := by
  have hne : requestIdAt n ≠ "" := by
    intro hempty
    have hlength := congrArg (fun s => s.toList.length) hempty
    simp [requestIdAt] at hlength
  simp [ClaimRequest.identity, requestAt, hne]

private theorem requestId_claimAt (n : Nat) : (claimAt n).requestId = some (requestIdAt n) :=
  identity_requestAt n

/-- A store without work and leases. -/
private structure Bare (s : WorkStore) : Prop where
  rows : s.rows = .empty
  routes : s.routes = .empty
  sessionLeases : s.sessionLeases = .empty

private theorem bare_evictClaim {s : WorkStore} (h : s.Bare) (request : ClaimRequest) :
    (s.evictClaim request).Bare := by
  unfold evictClaim
  split
  · split
    · exact ⟨h.rows, h.routes, h.sessionLeases⟩
    · exact h
  · exact h

private theorem bare_purge {s : WorkStore} (h : s.Bare) (workerId : String) (now : Int) :
    (s.purge workerId now).Bare :=
  ⟨h.rows, h.routes, by rw [purge, h.sessionLeases]; rfl⟩

private theorem bare_recordClaim {s : WorkStore} (h : s.Bare) (request : ClaimRequest)
    (work : Option WorkItem) : (s.recordClaim request work).Bare := by
  unfold recordClaim
  split
  · exact h
  · exact ⟨h.rows, h.routes, h.sessionLeases⟩

/-- Without work a claim answers nothing, and leaves no work. -/
private theorem bare_claimFresh {s : WorkStore} (h : s.Bare) (request : ClaimRequest)
    (token : String) (now : Int) : (claimFresh clientOptions s request token now).1 = none ∧
      (claimFresh clientOptions s request token now).2.Bare := by
  have hpurged := bare_purge (bare_evictClaim h request) request.workerId now
  have hnone : ((s.evictClaim request).purge request.workerId now).candidates request now = [] := by
    rw [candidates, hpurged.rows]
    rfl
  have hfresh : claimFresh clientOptions s request token now
      = (none, ((s.evictClaim request).purge request.workerId now).recordClaim request none) := by
    simp only [claimFresh, hnone]
  rw [hfresh]
  exact ⟨rfl, bare_recordClaim hpurged request none⟩

private theorem evictClaim_tables (s : WorkStore) (request : ClaimRequest) :
    (s.evictClaim request).rows = s.rows ∧
      (s.evictClaim request).sessionLeases = s.sessionLeases := by
  unfold evictClaim
  split
  · split <;> exact ⟨rfl, rfl⟩
  · exact ⟨rfl, rfl⟩

/-- What has just been enqueued is leased. -/
private theorem claimFresh_leases {s : WorkStore} (request : ClaimRequest) (h : s.Bare)
    (hall : request.workKinds = none ∧ request.lanes = none ∧ request.executionClass = none) :
    (claimFresh clientOptions { s with rows := s.rows.set "work" (newRow chore "work" 0) } request
      "token" 0).1 ≠ none := by
  have htables := evictClaim_tables
    { s with rows := s.rows.set "work" (newRow chore "work" 0) } request
  generalize hstore : ({ s with rows := s.rows.set "work" (newRow chore "work" 0) } :
    WorkStore).evictClaim request = evicted at htables
  have hvalues : (evicted.purge request.workerId 0).rows.values = [newRow chore "work" 0] := by
    simp only [purge, htables.1, h.rows]
    rfl
  have hcandidate : (evicted.purge request.workerId 0).candidate request 0 (newRow chore "work" 0)
      = true := by
    have hfree : (evicted.purge request.workerId 0).sessionLeases = .empty := by
      simp only [purge, htables.2, h.sessionLeases]
      rfl
    simp only [candidate, ClaimRequest.kinds, ClaimRequest.sortedLanes, hall, hfree,
      dependenciesOpen]
    rfl
  have hfound : (evicted.purge request.workerId 0).candidates request 0
      = [newRow chore "work" 0] := by
    simp only [candidates, hvalues, List.filter_cons, hcandidate, if_true]
    rfl
  simp only [claimFresh, hstore, hfound]
  exact Option.some_ne_none _

/-- A store without work, after a number of claims. -/
private structure IdleAfter (n : Nat) (s : Timed) : Prop where
  bare : s.store.Bare
  clock : s.clock = 0
  claims : s.store.claims.entries.map Prod.fst = (Fifo.window maxClaims n).map requestIdAt

private theorem idle_init : IdleAfter 0 ⟨init, 0⟩ := ⟨⟨rfl, rfl, rfl⟩, rfl, rfl⟩

private theorem claims_get?_idle {n : Nat} {s : Timed} (h : IdleAfter n s) :
    s.store.claims.get? (requestIdAt n) = none := by
  rw [JsMap.get?_eq_none_iff, h.claims, List.mem_map]
  rintro ⟨k, hk, hsame⟩
  have hwindow := Fifo.mem_window.1 hk
  have hmod := requestIdAt_inj hsame
  rw [maxClaims] at hwindow
  omega

private theorem priorClaim_idle {n : Nat} {s : Timed} (h : IdleAfter n s) :
    s.store.priorClaim (requestAt n) = none := by
  rw [priorClaim, identity_requestAt, Option.bind_some]
  exact claims_get?_idle h

private theorem idle_step {n : Nat} {s : Timed} (h : IdleAfter n s) :
    ∃ s', (system clientOptions 0).step s (claimAt n) s' ∧ IdleAfter (n + 1) s' := by
  obtain ⟨hnone, hbare⟩ := bare_claimFresh h.bare (requestAt n) "token" 0
  have hentries : (claimFresh clientOptions s.store (requestAt n) "token" 0).2.claims.entries
      = Fifo.push maxClaims s.store.claims.entries (requestIdAt n, recordOf (requestAt n)
        (claimFresh clientOptions s.store (requestAt n) "token" 0).1) :=
    claimFresh_entries (identity_requestAt n) (claims_get?_idle h)
  have hexec : exec clientOptions s.store 0 0 (.claim (requestAt n) "token")
      = (.claimed (.ok none), (claimFresh clientOptions s.store (requestAt n) "token" 0).2) := by
    simp only [exec, claim, priorClaim_idle h, hnone, Prod.map_apply, id_eq]
  refine ⟨⟨(claimFresh clientOptions s.store (requestAt n) "token" 0).2, 0⟩, ?_, hbare, rfl, ?_⟩
  · have hstep := @Step.call clientOptions s 0 0 (.claim (requestAt n) "token")
      (Int.le_of_eq h.clock) (Int.le_refl 0)
    rw [hexec] at hstep
    exact hstep
  · have hkeys := congrArg (List.map Prod.fst) hentries
    rw [← Fifo.push_window (by decide) requestIdAt, ← h.claims]
    simp only [Fifo.push, List.map_append, List.map_cons, List.map_nil, List.length_map] at hkeys ⊢
    rw [hkeys]
    split
    · rw [List.map_tail]
    · rfl

private theorem idle_run {n : Nat} {s : Timed} (h : IdleAfter n s) (k : Nat) :
    ∃ s', (system clientOptions 0).Run s ((List.range' n k).map claimAt) s' ∧
      IdleAfter (n + k) s' := by
  induction k with
  | zero => exact ⟨s, .refl s, h⟩
  | succ k ih =>
      obtain ⟨t, hrun, hidle⟩ := ih
      obtain ⟨s', hstep, hidle'⟩ := idle_step hidle
      refine ⟨s', ?_, hidle'⟩
      rw [List.range'_1_concat, List.map_append]
      exact hrun.snoc hstep

private theorem forgotten_after {k : Nat} (hk : k = 10000) : ∃ s₀ s₁ s,
    (system clientOptions 0).Run ⟨init, 0⟩ ((List.range' 0 k).map claimAt) s₀ ∧
    (system clientOptions 0).step s₀ (claimAt k) s₁ ∧
    (system clientOptions 0).Run s₁ ((List.range' (k + 1) k).map claimAt ++ [enqueueChore]) s ∧
    (∀ label ∈ (List.range' (k + 1) k).map claimAt ++ [enqueueChore], ∀ id,
      label.requestId = some id → id ∈ ((List.range' 0 k).map claimAt).filterMap Label.requestId) ∧
    (claim clientOptions s.store (requestAt k) "token" 0).1 ≠ .ok none := by
  obtain ⟨s₀, hearlier, hidle⟩ := idle_run idle_init k
  rw [Nat.zero_add] at hidle
  obtain ⟨s₁, hfirst, hidle₁⟩ := idle_step hidle
  obtain ⟨t, hbetween, hidle₂⟩ := idle_run hidle₁ k
  have henqueue : exec clientOptions t.store 0 0 (.enqueue chore "uuid")
      = (.enqueued (.ok ⟨"work", false⟩),
        { t.store with rows := t.store.rows.set "work" (newRow chore "work" 0) }) := by
    simp only [exec, enqueue, hidle₂.bare.rows]
    rfl
  have hstep := @Step.call clientOptions t 0 0 (.enqueue chore "uuid")
    (Int.le_of_eq hidle₂.clock) (Int.le_refl 0)
  rw [henqueue] at hstep
  refine ⟨s₀, s₁, _, hearlier, ?_, hbetween.snoc hstep, ?_, ?_⟩
  · exact hfirst
  · intro label hlabel id hid
    rcases List.mem_append.1 hlabel with hclaim | hlast
    · obtain ⟨n, hn, rfl⟩ := List.mem_map.1 hclaim
      rw [List.mem_range'_1] at hn
      have hsame : requestIdAt (n - (k + 1)) = requestIdAt n := by
        have hmod : (n - (k + 1)) % 10001 = n % 10001 := by omega
        rw [requestIdAt, requestIdAt, hmod]
      have hrequest : (claimAt (n - (k + 1))).requestId = some id := by
        rw [requestId_claimAt] at hid ⊢
        rw [hsame, hid]
      refine List.mem_filterMap.2 ⟨claimAt (n - (k + 1)), List.mem_map_of_mem ?_, hrequest⟩
      rw [List.mem_range'_1]
      omega
    · obtain rfl := List.mem_singleton.1 hlast
      cases hid
  · have hforgotten : t.store.priorClaim (requestAt k) = none := by
      have hnone := priorClaim_idle hidle₂
      have hmod : (k + 1 + k) % 10001 = k % 10001 := by omega
      have hsame : requestIdAt (k + 1 + k) = requestIdAt k := by
        rw [requestIdAt, requestIdAt, hmod]
      rw [priorClaim, identity_requestAt, Option.bind_some] at hnone ⊢
      rw [← hsame]
      exact hnone
    simp only [claim]
    rw [show ({ t.store with rows := t.store.rows.set "work" (newRow chore "work" 0) } :
      WorkStore).priorClaim (requestAt k) = none from hforgotten]
    intro hanswer
    exact claimFresh_leases _ hidle₂.bare ⟨rfl, rfl, rfl⟩ (Except.ok.inj hanswer)

/-- After as many claims under ids that have all been used before, an id is forgotten: the
    claim that is sent again leases what came in between. -/
theorem forgotten_claim_leases : ∃ s₀ s₁ s,
    (system clientOptions 0).Run ⟨init, 0⟩ ((List.range' 0 10000).map claimAt) s₀ ∧
    (system clientOptions 0).step s₀ (claimAt 10000) s₁ ∧
    (system clientOptions 0).Run s₁ ((List.range' (10000 + 1) 10000).map claimAt
      ++ [enqueueChore]) s ∧
    (∀ label ∈ (List.range' (10000 + 1) 10000).map claimAt ++ [enqueueChore], ∀ id,
      label.requestId = some id →
        id ∈ ((List.range' 0 10000).map claimAt).filterMap Label.requestId) ∧
    (claim clientOptions s.store (requestAt 10000) "token" 0).1 ≠ .ok none :=
  forgotten_after rfl

/-- Work that comes in after a claim without an answer is not leased by the same claim. -/
theorem retried_claim_unanswered :
    let s := afterLabel clientOptions (afterLabel clientOptions ⟨init, 0⟩ (claimAt 0)) enqueueChore
    (claim clientOptions s.store (requestAt 0) "other" 0).2 = s.store ∧
      (claim clientOptions s.store (requestAt 0) "other" 0).1 = .ok none := by
  obtain ⟨s₁, hfirst, -⟩ := idle_step idle_init
  obtain rfl := step_label hfirst
  have henqueue : exec clientOptions (afterLabel clientOptions ⟨init, 0⟩ (claimAt 0)).store 0 0
      (.enqueue chore "uuid") = (.enqueued (.ok ⟨"work", false⟩),
        (afterLabel clientOptions (afterLabel clientOptions ⟨init, 0⟩ (claimAt 0)) enqueueChore).store) := rfl
  have hstep := @Step.call clientOptions (afterLabel clientOptions ⟨init, 0⟩ (claimAt 0)) 0 0
    (.enqueue chore "uuid") (Int.le_refl 0) (Int.le_refl 0)
  rw [henqueue] at hstep
  have hrecorded : recordings clientOptions (afterLabel clientOptions ⟨init, 0⟩ (claimAt 0))
      [enqueueChore] = [] := rfl
  have hfew : (recordings clientOptions (afterLabel clientOptions ⟨init, 0⟩ (claimAt 0))
      [enqueueChore]).length < maxClaims := by
    rw [hrecorded]
    decide
  obtain ⟨first, hanswer, hsame, hreplayed, -⟩ := @retried_claim clientOptions 0 _ _ _ _
    (requestAt 0) (requestAt 0) "token" "other" _ 0 0 0 _ (.of_start rfl) (identity_requestAt 0)
    (identity_requestAt 0) (priorClaim_idle idle_init) hfirst (.single hstep) hfew
  cases hanswer
  exact ⟨hsame, hreplayed ⟨rfl, rfl, rfl, rfl⟩⟩

end LingxiOS.WorkStore
