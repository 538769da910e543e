-- SUMMARY: What executeAction awaits, for any monitor.
import LingxiOS.ControlPlane.ExecuteAction

/-! # Admission

The checks of `executeAction` read the stores and ask the product; the only thing
they may write is the refusal of a receipt that waits for an approval. A monitor
that allows the reads and keeps a property under them, and that a refusal obeys,
is obeyed by the whole admission. What follows at the ledger obeys it too where a
reservation and the execution of the action do. -/

universe w

namespace LingxiOS

open Program

/-- The operations the checks of an action await, refusals aside. -/
def ServiceOp.isCheck : ServiceOp → Bool
  | .getLeased _ | .heartbeat _ | .authorizeWork _ | .authorizeRequest _ _ | .resolveGrants _
  | .getSession _ _ | .findIntent _ | .prepare _ _ _ => true
  | _ => false

/-- The operations that only look at the ledger or at the product. -/
def ServiceOp.isLookup : ServiceOp → Bool
  | .find _ | .unsettled _ | .reconcile _ _ _ => true
  | _ => false

/-- A lease that the work store answers with is one of a kind. -/
def ServiceEvent.Leases (Q : LeasedWork → Prop) : ServiceEvent → Prop
  | ⟨.getLeased _, .ok (some leased)⟩ => Q leased
  | _ => True

namespace Service

section Admission

variable {μ : Type w} {M : Monitor ServiceOp ServiceOp.Value Failure μ} {I : μ → Prop} {m : μ}

/-- The monitor allows every check, and no answer to one breaks the property. -/
def AllowsChecks (M : Monitor ServiceOp ServiceOp.Value Failure μ) (I : μ → Prop) : Prop :=
  ∀ m op answer, I m → op.isCheck = true → M.allows m op ∧ I (M.next m ⟨op, answer⟩)

/-- A refusal obeys the monitor and keeps the property. -/
def AllowsRefusals (M : Monitor ServiceOp ServiceOp.Value Failure μ) (I : μ → Prop)
    (action : HostAction) : Prop :=
  ∀ m code error, I m → (reject action code error).Obeys M (fun m outcome => I m ∧
    ∀ answer, outcome = .ok answer → ∃ result, answer = .refused result) m

/-- A check, and what follows it. -/
theorem check_obeys {β : Type} (hchecks : AllowsChecks M I) {op : ServiceOp}
    (hop : op.isCheck = true) (hm : I m) {f : op.Value → Service β}
    {post : μ → Except Failure β → Prop} (herror : ∀ {m e}, I m → post m (.error e))
    (hok : ∀ {m} a, I m → (f a).Obeys M post m) : (await op >>= f).Obeys M post m := by
  apply Obeys.perform_bind
  · exact (hchecks m op (.error (.error "")) hm hop).1
  · intro e _
    exact herror (hchecks m op (.error e) hm hop).2
  · intro a _
    exact hok a (hchecks m op (.ok a) hm hop).2

/-- A lease is one that the store has answered with. -/
theorem requireLease_obeys_of {Q : LeasedWork → Prop} (hchecks : AllowsChecks M I) (hm : I m)
    {proof : LeaseProof} {rejectCancelled : Bool}
    (hlease : ∀ m leased, M.trusts m ⟨.getLeased proof, .ok (some leased)⟩ → Q leased) :
    (requireLease proof rejectCancelled).Obeys M
      (fun m outcome => I m ∧ ∀ leased, outcome = .ok leased → Q leased) m := by
  unfold requireLease
  split
  · exact ⟨hm, fun leased h => by cases h⟩
  · apply Obeys.perform_bind
    · exact (hchecks m _ (.error (.error "")) hm rfl).1
    · intro e _
      exact ⟨(hchecks m _ (.error e) hm rfl).2, fun leased h => by cases h⟩
    · intro leased htrust
      have hm := (hchecks m _ (.ok leased) hm rfl).2
      cases leased with
      | none => exact ⟨hm, fun leased h => by cases h⟩
      | some leased =>
          have hleased := hlease m leased htrust
          dsimp only
          split
          · exact ⟨hm, fun leased h => by cases h⟩
          · refine ⟨hm, fun leased' h => ?_⟩
            cases h
            exact hleased

theorem requireLease_obeys (hchecks : AllowsChecks M I) (hm : I m) {proof : LeaseProof}
    {rejectCancelled : Bool} : (requireLease proof rejectCancelled).Obeys M (fun m _ => I m) m :=
  Obeys.mono (requireLease_obeys_of (Q := fun _ => True) hchecks hm fun _ _ _ => trivial)
    fun h => h.1

theorem getSession_obeys (hchecks : AllowsChecks M I) (hm : I m) {proof : LeaseProof}
    {key : SessionKey} : (getSession proof key).Obeys M (fun m _ => I m) m := by
  unfold getSession
  apply Obeys.bind
  apply Obeys.mono (requireLease_obeys hchecks hm)
  intro m leased hm
  cases leased with
  | error e => exact hm
  | ok leased =>
      apply check_obeys hchecks rfl hm id
      intro m _ hm
      split
      · exact hm
      · apply check_obeys hchecks rfl hm id
        intro m session hm
        cases session with
        | none => exact hm
        | some session =>
            dsimp only
            split
            · exact hm
            · cases session.request with
              | none => exact hm
              | some request =>
                  apply check_obeys hchecks rfl hm id
                  intro m _ hm
                  exact hm

/-- What the admission ends with: an error, a refusal, or the action with its tool. -/
def Admits (cfg : ServiceConfig) (action : HostAction) (I : μ → Prop) (m : μ) :
    Except Failure (ActionAnswer ⊕ Admitted) → Prop
  | .error _ => I m
  | .ok (.inl answer) => I m ∧ ∃ result, answer = .refused result
  | .ok (.inr admitted) =>
      I m ∧ admitted.tool = cfg.tools.find? (fun tool => tool.action == action.action)

/-- The admission of an action of one work, in its namespace. -/
def AdmitsOf (cfg : ServiceConfig) (action : HostAction) (I : μ → Prop) (work : TurnWork)
    (namespace_ : String) (m : μ) (outcome : Except Failure (ActionAnswer ⊕ Admitted)) : Prop :=
  Admits cfg action I m outcome ∧ ∀ admitted, outcome = .ok (.inr admitted) →
    admitted.work = work ∧ admitted.namespace_ = namespace_

variable {cfg : ServiceConfig} {action : HostAction} {work : TurnWork} {namespace_ : String}

theorem AdmitsOf.of_error (hm : I m) (e : Failure) :
    AdmitsOf cfg action I work namespace_ m (.error e) :=
  ⟨hm, fun admitted h => by cases h⟩

theorem AdmitsOf.of_refused (hm : I m) (result : HostActionResult) :
    AdmitsOf cfg action I work namespace_ m (.ok (.inl (.refused result))) :=
  ⟨⟨hm, result, rfl⟩, fun admitted h => by cases h⟩

/-- A refusal at the end of a check. -/
theorem reject_obeys (hreject : AllowsRefusals M I action) (hm : I m) {code error : String} :
    (reject action code error >>= fun answer => pure (Sum.inl answer)).Obeys M
      (AdmitsOf cfg action I work namespace_) m := by
  apply Obeys.bind
  apply Obeys.mono (hreject m code error hm)
  intro m outcome hpost
  cases outcome with
  | error e => exact .of_error hpost.1 e
  | ok answer =>
      obtain ⟨result, rfl⟩ := hpost.2 answer rfl
      exact .of_refused hpost.1 result

theorem checkArguments_obeys (hchecks : AllowsChecks M I) (hreject : AllowsRefusals M I action)
    (hm : I m) {admitted : Admitted}
    (htool : admitted.tool = cfg.tools.find? (fun tool => tool.action == action.action))
    (hwork : admitted.work = work) (hnamespace : admitted.namespace_ = namespace_) :
    (checkArguments cfg admitted action).Obeys M (AdmitsOf cfg action I work namespace_) m := by
  have hadmitted : ∀ {m}, I m →
      AdmitsOf cfg action I work namespace_ m (.ok (.inr admitted)) := by
    intro m hm
    refine ⟨⟨hm, htool⟩, fun admitted' h => ?_⟩
    cases h
    exact ⟨hwork, hnamespace⟩
  unfold checkArguments
  split
  · exact .of_refused hm _
  · split
    · split
      · exact reject_obeys hreject hm
      · exact hadmitted hm
    · apply Obeys.attempt_bind
      · exact (hchecks m _ (.error (.error "")) hm rfl).1
      · intro answer _
        have hm := (hchecks m (.prepare admitted.work action admitted.requestVersion) answer hm rfl).2
        split
        · exact reject_obeys hreject hm
        · exact reject_obeys hreject hm
        · exact hadmitted hm

theorem checkIdentity_obeys (hchecks : AllowsChecks M I) (hreject : AllowsRefusals M I action)
    (hm : I m) {requestVersion : Nat} :
    (checkIdentity cfg work namespace_ requestVersion action).Obeys M
      (AdmitsOf cfg action I work namespace_) m := by
  unfold checkIdentity
  apply check_obeys hchecks rfl hm fun hm => .of_error hm _
  intro m existing hm
  split
  · exact .of_error hm _
  · split
    · exact .of_error hm _
    · split
      · exact reject_obeys hreject hm
      · exact checkArguments_obeys hchecks hreject hm rfl rfl rfl

theorem checkCurrent_obeys (hchecks : AllowsChecks M I) (hreject : AllowsRefusals M I action)
    (hm : I m) {proof : LeaseProof} :
    (checkCurrent cfg proof work namespace_ action).Obeys M
      (AdmitsOf cfg action I work namespace_) m := by
  unfold checkCurrent
  apply check_obeys hchecks rfl hm fun hm => .of_error hm _
  intro m current hm
  cases current with
  | none => exact .of_error hm _
  | some current =>
      dsimp only
      split
      · exact .of_error hm _
      · apply Obeys.bind
        have hversion : (currentVersion proof work current.steer).Obeys M (fun m _ => I m) m := by
          unfold currentVersion
          split
          · exact hm
          · apply Obeys.bind
            apply Obeys.mono (getSession_obeys hchecks hm)
            intro m session hm
            cases session with
            | error e => exact hm
            | ok session =>
                dsimp only
                split
                · exact hm
                · split
                  · exact hm
                  · exact hm
        apply Obeys.mono hversion
        intro m version hm
        cases version with
        | error e => exact .of_error hm e
        | ok version =>
            cases version with
            | none => exact .of_refused hm _
            | some version => exact checkIdentity_obeys hchecks hreject hm

theorem checkGrants_obeys (hchecks : AllowsChecks M I) (hreject : AllowsRefusals M I action)
    (hm : I m) {proof : LeaseProof} {method : String} :
    (checkGrants cfg proof work namespace_ method action).Obeys M
      (AdmitsOf cfg action I work namespace_) m := by
  unfold checkGrants
  apply check_obeys hchecks rfl hm fun hm => .of_error hm _
  intro m grants hm
  split
  · exact reject_obeys hreject hm
  · split
    · exact .of_refused hm _
    · exact checkCurrent_obeys hchecks hreject hm

/-- What is admitted passes the envelope check against a work that a lease was answered with. -/
theorem checkAction_obeys_of {Q : LeasedWork → Prop} (hchecks : AllowsChecks M I)
    (hreject : AllowsRefusals M I action) (hm : I m) {proof : LeaseProof}
    (hlease : ∀ m leased, M.trusts m ⟨.getLeased proof, .ok (some leased)⟩ → Q leased) :
    (checkAction cfg proof action).Obeys M (fun m outcome => Admits cfg action I m outcome ∧
      ∀ admitted, outcome = .ok (.inr admitted) →
        ∃ leased method, Q leased ∧ admitted.work = leased.work
          ∧ action.validEnvelope leased.work = true
          ∧ splitAction action.action = some (admitted.namespace_, method)) m := by
  unfold checkAction
  apply Obeys.bind
  apply Obeys.mono (requireLease_obeys_of hchecks hm hlease)
  intro m leased hpost
  cases leased with
  | error e => exact ⟨hpost.1, fun admitted h => by cases h⟩
  | ok leased =>
      dsimp only
      split
      · exact ⟨hpost.1, fun admitted h => by cases h⟩
      · rename_i hvalid
        split
        · exact ⟨hpost.1, fun admitted h => by cases h⟩
        · rename_i namespace_ method hsplit
          apply Obeys.mono (checkGrants_obeys hchecks hreject hpost.1)
          intro m outcome hadmits
          refine ⟨hadmits.1, ?_⟩
          intro admitted h
          obtain ⟨hwork, hnamespace⟩ := hadmits.2 admitted h
          have hvalid' : action.validEnvelope leased.work = true := by simpa using hvalid
          exact ⟨leased, method, hpost.2 leased rfl, hwork, hvalid', by rw [hsplit, hnamespace]⟩

/-- The admission obeys every monitor that allows its checks and its refusals. -/
theorem checkAction_obeys (hchecks : AllowsChecks M I) (hreject : AllowsRefusals M I action)
    (hm : I m) {proof : LeaseProof} :
    (checkAction cfg proof action).Obeys M (Admits cfg action I) m :=
  Obeys.mono (checkAction_obeys_of (Q := fun _ => True) hchecks hreject hm fun _ _ _ => trivial)
    fun h => h.1

/-- A refusal is a look at the receipt, and perhaps a record of it. -/
theorem refusals_of_record (hfind : ∀ m answer, I m →
      M.allows m (.find action.idempotencyKey) ∧ I (M.next m ⟨.find action.idempotencyKey, answer⟩))
    (hrecord : ∀ m result answer, I m → result.ok = false →
      M.allows m (.record action.idempotencyKey result)
        ∧ I (M.next m ⟨.record action.idempotencyKey result, answer⟩)) :
    AllowsRefusals M I action := by
  intro m code error hm
  unfold reject
  apply Obeys.perform_bind
  · exact (hfind m (.error (.error "")) hm).1
  · intro e _
    exact ⟨(hfind m (.error e) hm).2, fun answer h => by cases h⟩
  · intro prior _
    have hm := (hfind m (.ok prior) hm).2
    split
    · apply Obeys.perform_bind
      · exact (hrecord _ _ (.error (.error "")) hm rfl).1
      · intro e _
        exact ⟨(hrecord _ _ (.error e) hm rfl).2, fun answer h => by cases h⟩
      · intro recorded _
        refine ⟨(hrecord _ _ (.ok recorded) hm rfl).2, fun answer h => ?_⟩
        cases h
        exact ⟨_, rfl⟩
    · refine ⟨hm, fun answer h => ?_⟩
      cases h
      exact ⟨_, rfl⟩

/-- The monitor that allows everything, and only trusts leases to be what they are. -/
def leases (Q : LeasedWork → Prop) : Monitor ServiceOp ServiceOp.Value Failure Unit where
  allows _ _ := True
  trusts _ event := ServiceEvent.Leases Q event
  next m _ := m

theorem requireLease_leases {Q : LeasedWork → Prop} {proof : LeaseProof} {rejectCancelled : Bool} :
    (requireLease proof rejectCancelled).Obeys (leases Q)
      (fun _ outcome => ∀ leased, outcome = .ok leased → Q leased) () := by
  have hchecks : AllowsChecks (leases Q) (fun _ => True) := fun _ _ _ _ _ => ⟨trivial, trivial⟩
  exact Obeys.mono (requireLease_obeys_of hchecks trivial (fun _ _ htrust => htrust)) fun h => h.2

end Admission

/-! ## The ledger -/

section Ledger

variable {μ : Type w} {M : Monitor ServiceOp ServiceOp.Value Failure μ} {I : μ → Prop} {m : μ}
  {cfg : ServiceConfig} {action : HostAction} {admitted : Admitted}

/-- The monitor allows every lookup and every resolution, and no answer breaks the property. -/
structure AllowsReads (M : Monitor ServiceOp ServiceOp.Value Failure μ) (I : μ → Prop) : Prop where
  lookup : ∀ m op answer, I m → op.isLookup = true → M.allows m op ∧ I (M.next m ⟨op, answer⟩)
  resolution : ∀ m resolution answer, I m → M.allows m (.recordResolution resolution)
    ∧ I (M.next m ⟨.recordResolution resolution, answer⟩)

theorem reconcileNative_obeys (hreads : AllowsReads M I) (hm : I m) {work : TurnWork}
    {requestVersion : Nat} :
    (reconcileNative cfg work action requestVersion).Obeys M (fun m _ => I m) m := by
  unfold reconcileNative
  apply Obeys.attempt_bind
  · exact (hreads.lookup m _ (.error (.error "")) hm rfl).1
  · intro read _
    have hm := (hreads.lookup m _ read hm rfl).2
    split
    · exact hm
    · split
      · exact hm
      · apply Obeys.perform_bind
        · exact (hreads.resolution _ _ (.error (.error "")) hm).1
        · intro e _
          exact (hreads.resolution _ _ (.error e) hm).2
        · intro answer _
          exact (hreads.resolution _ _ (.ok answer) hm).2

/-- A lookup, and what follows it. -/
theorem lookup_obeys {β : Type} {op : ServiceOp} {f : op.Value → Service β}
    (hlookup : ∀ m op answer, I m → op.isLookup = true →
      M.allows m op ∧ I (M.next m ⟨op, answer⟩))
    (hm : I m) (hop : op.isLookup = true)
    (hok : ∀ m a, I m → (f a).Obeys M (fun m _ => I m) m) :
    (await op >>= f).Obeys M (fun m _ => I m) m := by
  apply Obeys.perform_bind
  · exact (hlookup m op (.error (.error "")) hm hop).1
  · intro e _
    exact (hlookup m op (.error e) hm hop).2
  · intro a _
    exact hok _ a (hlookup m op (.ok a) hm hop).2

theorem changedContract_obeys
    (hlookup : ∀ m op answer, I m → op.isLookup = true →
      M.allows m op ∧ I (M.next m ⟨op, answer⟩))
    (hreject : AllowsRefusals M I action) (hm : I m) :
    (changedContract action).Obeys M (fun m _ => I m) m := by
  unfold changedContract
  apply lookup_obeys hlookup hm rfl
  intro m prior hm
  split
  · exact hm
  · split
    · exact hm
    · split
      · exact Obeys.mono (hreject m _ _ hm) (fun h => h.1)
      · exact hm

/-- The reservation and what follows it, where it may run the action whatever was reserved. -/
theorem reserveAndRun_obeys
    (hlookup : ∀ m op answer, I m → op.isLookup = true →
      M.allows m op ∧ I (M.next m ⟨op, answer⟩))
    (hnative : ∀ m, I m → (reconcileNative cfg admitted.work action
      admitted.requestVersion).Obeys M (fun m _ => I m) m)
    (hreserve : ∀ m key fingerprint answer, I m →
      M.allows m (.reserve key fingerprint (newIntent cfg admitted action))
        ∧ I (M.next m ⟨.reserve key fingerprint (newIntent cfg admitted action), answer⟩))
    (hrun : ∀ m, I m → (runAction admitted action).Obeys M (fun m _ => I m) m) (hm : I m) :
    (reserveAndRun cfg admitted action).Obeys M (fun m _ => I m) m := by
  have hread : ∀ {m : μ} {answer : Option HostActionResult → ActionAnswer}, I m →
      (reconcileNative cfg admitted.work action admitted.requestVersion >>= fun read =>
        pure (answer read)).Obeys M (fun m _ => I m) m := by
    intro m answer hm
    apply Obeys.bind
    apply Obeys.mono (hnative m hm)
    intro m outcome hm
    cases outcome with
    | error e => exact hm
    | ok read => exact hm
  unfold reserveAndRun
  apply Obeys.perform_bind
  · exact (hreserve m _ _ (.error (.error "")) hm).1
  · intro e _
    exact (hreserve m _ _ (.error e) hm).2
  · intro reservation _
    have hm := (hreserve m _ _ (.ok reservation) hm).2
    unfold replayOrRun
    apply lookup_obeys hlookup hm rfl
    intro m replayed hm
    split
    · split
      · exact hread hm
      · exact hm
    · split
      · exact hread hm
      · exact hrun m hm

/-- What follows the admission, where it may run the action whatever was reserved. -/
theorem settleAdmitted_obeys (hreads : AllowsReads M I) (hreject : AllowsRefusals M I action)
    (hreserve : ∀ m key fingerprint answer, I m →
      M.allows m (.reserve key fingerprint (newIntent cfg admitted action))
        ∧ I (M.next m ⟨.reserve key fingerprint (newIntent cfg admitted action), answer⟩))
    (hrun : ∀ m, I m → (runAction admitted action).Obeys M (fun m _ => I m) m) (hm : I m) :
    (settleAdmitted cfg admitted action).Obeys M (fun m _ => I m) m := by
  have hreserved : ∀ m, I m → (reserveAndRun cfg admitted action).Obeys M (fun m _ => I m) m :=
    fun m hm => reserveAndRun_obeys hreads.lookup (fun m hm => reconcileNative_obeys hreads hm)
      hreserve hrun hm
  unfold settleAdmitted
  split
  · exact changedContract_obeys hreads.lookup hreject hm
  · unfold gate
    split
    · apply lookup_obeys hreads.lookup hm rfl
      intro m pending hm
      split
      · exact hm
      · exact hreserved m hm
    · exact hreserved m hm

end Ledger

end Service

end LingxiOS
