-- SUMMARY: What one call of the work store does to one row.
import LingxiOS.WorkStore.System

/-! # Rows

Everything a call may do to the row under one id is listed once, in
`RowChange`. Later modules read their invariants off this list and never unfold
a call. -/

namespace LingxiOS.WorkStore

/-! ## Steps -/

/-- A call step fixes the answer and the state it leads to. -/
theorem step_call_iff {opts : WorkStoreOptions} {s s' : Timed} {now later : Int} {call : Call}
    {answer : Answer} : Step opts s (.call now later call answer) s' ↔
      s.clock ≤ now ∧ now ≤ later ∧ answer = (exec opts s.store now later call).1 ∧
        s' = ⟨(exec opts s.store now later call).2, later⟩ := by
  constructor
  · intro h
    cases h with
    | call hnow hlater => exact ⟨hnow, hlater, rfl, rfl⟩
  · rintro ⟨hnow, hlater, rfl, rfl⟩
    exact .call hnow hlater

/-- A label leads to one state only. -/
theorem Step.functional {opts : WorkStoreOptions} {s t t' : Timed} {e : Label}
    (h : Step opts s e t) (h' : Step opts s e t') : t = t' := by
  cases h with
  | tick hlater =>
      cases h' with
      | tick hlater' => rfl
  | call hnow hlater =>
      obtain ⟨-, -, -, rfl⟩ := step_call_iff.1 h'
      rfl

/-- A run of calls, each at its own instant, computed from a state. -/
def Timed.play (opts : WorkStoreOptions) (s : Timed) : List (Int × Call) → Timed
  | [] => s
  | (now, call) :: calls => Timed.play opts ⟨(exec opts s.store now now call).2, now⟩ calls

/-- The labels of a computed run. -/
def Timed.trace (opts : WorkStoreOptions) (s : Timed) : List (Int × Call) → List Label
  | [] => []
  | (now, call) :: calls =>
      .call now now call (exec opts s.store now now call).1
        :: Timed.trace opts ⟨(exec opts s.store now now call).2, now⟩ calls

/-- Calls whose instants never go back. -/
def InOrder (clock : Int) : List (Int × Call) → Prop
  | [] => True
  | (now, _) :: calls => clock ≤ now ∧ InOrder now calls

theorem run_play (opts : WorkStoreOptions) (t₀ : Int) {s : Timed} {calls : List (Int × Call)}
    (h : InOrder s.clock calls) :
    (system opts t₀).Run s (s.trace opts calls) (s.play opts calls) := by
  induction calls generalizing s with
  | nil => exact .refl s
  | cons c calls ih =>
      obtain ⟨hnow, hrest⟩ := h
      exact .cons (Step.call hnow le_rfl) (ih hrest)

/-- Every call of a computed run meets a condition where it is made. -/
def Timed.Meets (opts : WorkStoreOptions) (ok : Timed → Label → Prop) (s : Timed) :
    List (Int × Call) → Prop
  | [] => True
  | (now, call) :: calls =>
      ok s (.call now now call (exec opts s.store now now call).1)
        ∧ Timed.Meets opts ok ⟨(exec opts s.store now now call).2, now⟩ calls

theorem run_play_restrict {opts : WorkStoreOptions} {t₀ : Int} {ok : Timed → Label → Prop}
    {s : Timed} {calls : List (Int × Call)} (h : InOrder s.clock calls)
    (hok : s.Meets opts ok calls) :
    ((system opts t₀).restrict ok).Run s (s.trace opts calls) (s.play opts calls) := by
  induction calls generalizing s with
  | nil => exact .refl s
  | cons c calls ih =>
      obtain ⟨hnow, hrest⟩ := h
      obtain ⟨hfirst, hmeets⟩ := hok
      have hstep : ((system opts t₀).restrict ok).step s _ _ := ⟨hfirst, Step.call hnow le_rfl⟩
      exact .cons hstep (ih hrest hmeets)

/-! ## Cancellation of many rows -/

/-- Asking twice at one instant is asking once. -/
theorem cancelRow_idem (now : Int) (row : WorkRow) :
    cancelRow now (cancelRow now row) = cancelRow now row := by
  cases hstatus : row.status with
  | leased => simp [cancelRow, hstatus, WorkStatus.isOpen]
  | queued | waiting => simp [cancelRow, hstatus, WorkStatus.isOpen]
  | succeeded | partial_ | blocked | failed | cancelled =>
      simp [cancelRow, hstatus, WorkStatus.isOpen]

theorem get?_cancelRows (rows : JsMap String WorkRow) (ids : List String) (now : Int)
    (id : String) : (cancelRows rows ids now).get? id
      = if id ∈ ids then (rows.get? id).map (cancelRow now) else rows.get? id := by
  induction ids generalizing rows with
  | nil => simp [cancelRows]
  | cons id' ids ih =>
      have hcons : cancelRows rows (id' :: ids) now
          = cancelRows (rows.modify id' (cancelRow now)) ids now := rfl
      rw [hcons, ih, JsMap.get?_modify]
      by_cases hid : id = id'
      · subst hid
        cases hrow : rows.get? id with
        | none => simp
        | some row => simp [cancelRow_idem]
      · simp [hid]

/-- The ids a search starts from are among those it finds. -/
theorem subset_descendantsFrom (row : WorkRow) (rows : List WorkRow) (depth : Nat)
    (found : List String) : found ⊆ descendantsFrom row rows depth found := by
  have hpass : ∀ found, found ⊆ descendantPass row rows found := by
    intro found
    unfold descendantPass
    induction rows generalizing found with
    | nil => exact fun _ h => h
    | cons child rows ih =>
        rw [List.foldl_cons]
        intro id hid
        apply ih
        split
        · exact List.mem_append_left _ hid
        · exact hid
  induction depth generalizing found with
  | zero => exact fun _ h => h
  | succ depth ih =>
      unfold descendantsFrom
      dsimp only
      split
      · exact fun _ h => h
      · exact fun _ h => ih _ (hpass found h)

/-- The row is left alone or cancelled at the given instant. -/
def Cancels (now : Int) (row row' : WorkRow) : Prop := row' = row ∨ row' = cancelRow now row

theorem Cancels.refl {now : Int} (row : WorkRow) : Cancels now row row := .inl rfl

theorem Cancels.trans {now : Int} {row row' row'' : WorkRow} (h : Cancels now row row')
    (h' : Cancels now row' row'') : Cancels now row row'' := by
  rcases h with rfl | rfl
  · exact h'
  · rcases h' with rfl | rfl
    · exact .inr rfl
    · exact .inr (cancelRow_idem now row)

/-- A row that is settled for good is never cancelled. -/
theorem Cancels.eq_of_settled {now : Int} {row row' : WorkRow} (h : Cancels now row row')
    (hopen : row.status.isOpen = false) : row' = row := by
  rcases h with rfl | rfl
  · rfl
  · simp [cancelRow, hopen]

section

variable {s : WorkStore} {id : String} {row : WorkRow}

theorem requestCancel_row (hrow : s.rows.get? id = some row) (target : String) (now : Int) :
    ∃ row', (s.requestCancel target now).2.rows.get? id = some row' ∧ Cancels now row row' := by
  unfold requestCancel
  split
  · exact ⟨row, hrow, .refl row⟩
  · split
    · exact ⟨row, hrow, .refl row⟩
    · dsimp only
      rw [get?_cancelRows, hrow]
      split
      · exact ⟨_, rfl, .inr rfl⟩
      · exact ⟨row, rfl, .refl row⟩

theorem requestCancel_absent (hrow : s.rows.get? id = none) (target : String) (now : Int) :
    (s.requestCancel target now).2.rows.get? id = none := by
  unfold requestCancel
  split
  · exact hrow
  · split
    · exact hrow
    · simp [get?_cancelRows, hrow]

/-- A row that is still open is cancelled by a request for it. -/
theorem requestCancel_self (hrow : s.rows.get? id = some row) (hopen : row.status.isOpen = true)
    (now : Int) : (s.requestCancel id now).2.rows.get? id = some (cancelRow now row) := by
  have hmem : id ∈ descendantsFrom row s.rows.values 64 [id] :=
    subset_descendantsFrom _ _ _ _ (List.mem_singleton.2 rfl)
  simp [requestCancel, hrow, hopen, get?_cancelRows, hmem]

theorem cancelChildren_row (hrow : s.rows.get? id = some row) (parent : WorkRow) (now : Int) :
    ∃ row', (s.cancelChildren parent now).rows.get? id = some row' ∧ Cancels now row row' := by
  unfold cancelChildren
  generalize s.rows.values.filter _ = children
  induction children generalizing s row with
  | nil => exact ⟨row, hrow, .refl row⟩
  | cons child children ih =>
      obtain ⟨row₁, hrow₁, hfirst⟩ := requestCancel_row hrow child.id now
      obtain ⟨row₂, hrow₂, hrest⟩ := ih hrow₁
      exact ⟨row₂, hrow₂, hfirst.trans hrest⟩

theorem cancelChildren_absent (hrow : s.rows.get? id = none) (parent : WorkRow) (now : Int) :
    (s.cancelChildren parent now).rows.get? id = none := by
  unfold cancelChildren
  generalize s.rows.values.filter _ = children
  induction children generalizing s with
  | nil => exact hrow
  | cons child children ih => exact ih (requestCancel_absent hrow child.id now)

end

/-! ## What a call does to a row -/

/-- The settlement a call asks for: its proof, the status it settles to, its
    outcome and its error. `complete` never settles to `waiting`. -/
def settlementOf : Call → Option (LeaseProof × WorkStatus × Option GoalOutcome × Option String)
  | .complete proof completion =>
      if workStatusOf completion = .waiting then none
      else some (proof, workStatusOf completion, completion.goalOutcome, completion.error)
  | .wait proof goalOutcome => some (proof, .waiting, some goalOutcome.1, none)
  | _ => none

/-- The row under one id before and after a call. -/
inductive RowChange (opts : WorkStoreOptions) (s : WorkStore) (now later : Int) (id : String) :
    Call → Option WorkRow → Option WorkRow → Prop
  | kept {call : Call} {stored : Option WorkRow} : RowChange opts s now later id call stored stored
  | created {input : EnqueueWorkInput} {randomUUID : String} :
      RowChange opts s now later id (.enqueue input randomUUID) none (some (newRow input id now))
  | cancelled {call : Call} {row : WorkRow} :
      RowChange opts s now later id call (some row) (some (cancelRow later row))
  | leased {request : ClaimRequest} {token : String} {row : WorkRow}
      (hclaimed : s.claimedRow request now = some row) :
      RowChange opts s now later id (.claim request token) (some row)
        (some (leasedRow opts row request.workerId token now))
  | extended {proof : LeaseProof} {row : WorkRow} (hid : proof.id = id)
      (hlease : s.validLease proof now = some row) :
      RowChange opts s now later id (.heartbeat proof) (some row)
        (some { row with leaseExpiresAt := some (later + opts.leaseTtlMs) })
  | yielded {proof : LeaseProof} {row : WorkRow} (hid : proof.id = id)
      (hlease : s.validLease proof now = some row) (hpreempt : row.preemptRequestedAt.isSome) :
      RowChange opts s now later id (.yieldWork proof) (some row) (some (yieldedRow row later))
  | settled {call : Call} {proof : LeaseProof} {status : WorkStatus}
      {goalOutcome : Option GoalOutcome} {error : Option String} {row : WorkRow}
      (hcall : settlementOf call = some (proof, status, goalOutcome, error)) (hid : proof.id = id)
      (hlease : s.validLease proof now = some row)
      (haccepted : settlementRefused row status goalOutcome = false) :
      RowChange opts s now later id call (some row)
        (some (settledRow row status goalOutcome error))
  | preempted {row : WorkRow} (hleased : row.status = .leased) :
      RowChange opts s now later id (.requestPreempt id) (some row)
        (some { row with preemptRequestedAt := some now })
  | steered {text randomUUID : String} {row row' : WorkRow} (hopen : row.status.isOpen = true)
      (hcancel : row.cancelRequestedAt = none)
      (hcancels : Cancels later
        (steeredRow row { id := randomUUID, text := text, createdAt := now }) row') :
      RowChange opts s now later id (.addSteer id text randomUUID) (some row) (some row')

/-- A completion that does not park its work ends it. -/
theorem workStatusOf_isOpen {completion : WorkCompletion}
    (hwaiting : workStatusOf completion ≠ .waiting) :
    (workStatusOf completion).isOpen = false := by
  unfold workStatusOf at hwaiting ⊢
  cases hstatus : completion.status with
  | failed => rfl
  | cancelled => rfl
  | completed =>
      simp only [hstatus] at hwaiting ⊢
      split <;> first | rfl | simp_all

/-- The status a call settles to is one no claim takes. -/
theorem settlementOf_status {call : Call} {proof : LeaseProof} {status : WorkStatus}
    {goalOutcome : Option GoalOutcome} {error : Option String}
    (h : settlementOf call = some (proof, status, goalOutcome, error)) :
    status = .waiting ∨ status.isOpen = false := by
  cases call with
  | complete proof' completion =>
      simp only [settlementOf] at h
      split at h
      · cases h
      · rename_i hwaiting
        obtain ⟨rfl, rfl, -, -⟩ := by simpa using h
        right
        exact workStatusOf_isOpen hwaiting
  | wait proof' outcome =>
      obtain ⟨-, rfl, -, -⟩ := by simpa [settlementOf] using h
      exact .inl rfl
  | enqueue | claim | heartbeat | getLeased | yieldWork | requestCancel | requestPreempt
  | addSteer => simp [settlementOf] at h

section

variable {opts : WorkStoreOptions} {s : WorkStore} {now later : Int} {id : String}

/-- Replacing one row is a change of that row only. -/
private theorem RowChange.set {call : Call} {target : String} {row : WorkRow}
    (hchange : RowChange opts s now later target call (s.rows.get? target) (some row)) :
    RowChange opts s now later id call (s.rows.get? id) ((s.rows.set target row).get? id) := by
  rw [JsMap.get?_set]
  split
  · rename_i hid
    subst hid
    exact hchange
  · exact .kept

/-! ### Claims -/

@[simp] theorem evictClaim_rows (s : WorkStore) (request : ClaimRequest) :
    (s.evictClaim request).rows = s.rows := by
  unfold evictClaim
  split
  · split
    · rfl
    · rfl
  · rfl

@[simp] theorem recordClaim_rows (s : WorkStore) (request : ClaimRequest)
    (work : Option WorkItem) : (s.recordClaim request work).rows = s.rows := by
  unfold recordClaim
  split
  · rfl
  · rfl

@[simp] theorem purge_rows (s : WorkStore) (workerId : String) (now : Int) :
    (s.purge workerId now).rows = s.rows := rfl

/-- A claim replaces the row it leases and leaves every other row alone. -/
theorem claim_rows (opts : WorkStoreOptions) (s : WorkStore) (request : ClaimRequest)
    (token : String) (now : Int) :
    (claim opts s request token now).2.rows = match s.claimedRow request now with
      | none => s.rows
      | some row => s.rows.set row.id (leasedRow opts row request.workerId token now) := by
  cases hprior : s.priorClaim request with
  | some prior => simp [claim, claimedRow, hprior]
  | none =>
      have hrows : ((s.evictClaim request).purge request.workerId now).rows = s.rows := by simp
      simp only [claim, claimedRow, hprior, claimFresh]
      generalize (s.evictClaim request).purge request.workerId now = purged at hrows
      cases purged.candidates request now with
      | nil => simp [hrows]
      | cons row rest => simp [leaseRow, hrows]

/-! ### The other calls -/

/-- Cancelling some rows of a store that still holds this one. -/
private theorem RowChange.cancelChildren {t : WorkStore} {call : Call}
    (hstored : t.rows.get? id = s.rows.get? id) (parent : WorkRow) :
    RowChange opts s now later id call (s.rows.get? id)
      ((t.cancelChildren parent later).rows.get? id) := by
  cases hrow : t.rows.get? id with
  | none =>
      rw [cancelChildren_absent hrow, ← hstored, hrow]
      exact .kept
  | some row =>
      obtain ⟨row', hrow', hcancels⟩ := cancelChildren_row hrow parent later
      rw [hrow', ← hstored, hrow]
      rcases hcancels with rfl | rfl
      · exact .kept
      · exact .cancelled

/-- A settlement that is not refused stores the settled row. -/
theorem settle_self {call : Call} {proof : LeaseProof} {status : WorkStatus}
    {goalOutcome : Option GoalOutcome} {error : Option String} {row : WorkRow}
    (hcall : settlementOf call = some (proof, status, goalOutcome, error))
    (hlease : s.validLease proof now = some row)
    (haccepted : settlementRefused row status goalOutcome = false) :
    (s.settle proof status goalOutcome error now later).2.rows.get? proof.id
      = some (settledRow row status goalOutcome error) := by
  simp only [settle, hlease, haccepted, Bool.false_eq_true, if_false]
  split
  · simp
  · rename_i hwaiting
    -- Children are cancelled; the settled row itself no longer can be.
    have hended : (settledRow row status goalOutcome error).status.isOpen = false :=
      (settlementOf_status hcall).resolve_left hwaiting
    let settled := settledRow row status goalOutcome error
    have hself : (({ s with rows := s.rows.set proof.id settled } :
        WorkStore).releaseSessionLease settled proof.fence).rows.get? proof.id = some settled := by
      simp
    obtain ⟨row', hrow', hcancels⟩ := cancelChildren_row hself settled later
    rw [hrow', hcancels.eq_of_settled hended]

theorem settle_row {call : Call} {proof : LeaseProof} {status : WorkStatus}
    {goalOutcome : Option GoalOutcome} {error : Option String}
    (hcall : settlementOf call = some (proof, status, goalOutcome, error)) :
    RowChange opts s now later id call (s.rows.get? id)
      ((s.settle proof status goalOutcome error now later).2.rows.get? id) := by
  cases hlease : s.validLease proof now with
  | none =>
      simp only [settle, hlease]
      exact .kept
  | some row =>
      cases haccepted : settlementRefused row status goalOutcome with
      | true =>
          simp only [settle, hlease, haccepted, if_true]
          exact .kept
      | false =>
          by_cases hid : id = proof.id
          · subst hid
            rw [settle_self hcall hlease haccepted, (validLease_eq_some_iff.1 hlease).1]
            exact .settled hcall rfl hlease haccepted
          · simp only [settle, hlease, haccepted, Bool.false_eq_true, if_false]
            split
            · simp only [releaseSessionLease_rows, JsMap.get?_set_of_ne _ hid]
              exact .kept
            · apply RowChange.cancelChildren
              simp [JsMap.get?_set_of_ne _ hid]

theorem addSteer_row (target text randomUUID : String) :
    RowChange opts s now later id (.addSteer target text randomUUID) (s.rows.get? id)
      ((s.addSteer target text randomUUID now later).2.rows.get? id) := by
  unfold addSteer
  cases hstored : s.rows.get? target with
  | none => exact .kept
  | some row =>
      dsimp only
      split
      · exact .kept
      · rename_i hguard
        obtain ⟨hopen, hcancel⟩ : row.status.isOpen = true ∧ row.cancelRequestedAt = none := by
          simpa using hguard
        by_cases hid : id = target
        · subst hid
          -- A row that names itself as its parent cancels itself.
          let input : SteerInput := { id := randomUUID, text := text, createdAt := now }
          have hself : ({ s with rows := s.rows.set id (steeredRow row input) } :
              WorkStore).rows.get? id = some (steeredRow row input) := by simp
          obtain ⟨row', hrow', hcancels⟩ := cancelChildren_row hself (steeredRow row input) later
          have hsteered : RowChange opts s now later id (.addSteer id text randomUUID) (some row)
              (some row') := .steered hopen hcancel hcancels
          rw [hstored]
          rw [← hrow'] at hsteered
          exact hsteered
        · apply RowChange.cancelChildren
          simp [JsMap.get?_set_of_ne _ hid]

/-- Every call does to every row one of the things listed. -/
theorem exec_row (opts : WorkStoreOptions) (now later : Int) (id : String) (hids : s.IdsMatch)
    (call : Call) : RowChange opts s now later id call (s.rows.get? id)
      ((exec opts s now later call).2.rows.get? id) := by
  cases call with
  | enqueue input randomUUID =>
      simp only [exec, Prod.map_snd, id_eq, enqueue]
      cases hstored : s.rows.get? (input.id.getD randomUUID) with
      | some existing =>
          dsimp only
          split
          · exact .kept
          · exact .kept
      | none =>
          apply RowChange.set
          rw [hstored]
          exact .created
  | claim request token =>
      simp only [exec, Prod.map_snd, id_eq, claim_rows]
      cases hclaimed : s.claimedRow request now with
      | none => exact .kept
      | some row =>
          apply RowChange.set
          rw [(claimedRow_spec 0 hids hclaimed).1]
          exact .leased hclaimed
  | heartbeat proof =>
      simp only [exec, Prod.map_snd, id_eq, heartbeat]
      cases hlease : s.validLease proof now with
      | none => exact .kept
      | some row =>
          apply RowChange.set
          rw [(validLease_eq_some_iff.1 hlease).1]
          exact .extended rfl hlease
  | getLeased proof => exact .kept
  | yieldWork proof =>
      simp only [exec, Prod.map_snd, id_eq, yieldWork]
      cases hlease : s.validLease proof now with
      | none => exact .kept
      | some row =>
          dsimp only
          split
          · exact .kept
          · rename_i hpreempt
            rw [releaseSessionLease_rows]
            apply RowChange.set
            rw [(validLease_eq_some_iff.1 hlease).1]
            exact .yielded rfl hlease (by simpa [Option.isSome_iff_ne_none] using hpreempt)
  | complete proof completion =>
      simp only [exec, Prod.map_snd, id_eq, complete]
      split
      · exact .kept
      · rename_i hwaiting
        exact settle_row (by simp [settlementOf, hwaiting])
  | wait proof goalOutcome => exact settle_row rfl
  | requestCancel target =>
      simp only [exec, Prod.map_snd, id_eq]
      cases hrow : s.rows.get? id with
      | none =>
          rw [requestCancel_absent hrow]
          exact .kept
      | some row =>
          obtain ⟨row', hrow', hcancels⟩ := requestCancel_row hrow target later
          rw [hrow']
          rcases hcancels with rfl | rfl
          · exact .kept
          · exact .cancelled
  | requestPreempt target =>
      simp only [exec, Prod.map_snd, id_eq, requestPreempt]
      cases hstored : s.rows.get? target with
      | none => exact .kept
      | some row =>
          dsimp only
          split
          · exact .kept
          · rename_i hleased
            rw [JsMap.get?_set]
            split
            · rename_i hid
              subst hid
              rw [hstored]
              exact .preempted (by simpa using hleased)
            · exact .kept
  | addSteer target text randomUUID => exact addSteer_row target text randomUUID

end

end LingxiOS.WorkStore
