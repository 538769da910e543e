-- SUMMARY: The byte budget: what is counted, in total and per tenant.
import LingxiOS.Base.Double
import LingxiOS.Base.JsMap
import LingxiOS.Base.Transition

/-! # Byte Budget

A translation of `ByteBudget`. The function `acquire` returns is named by its place among those
returned so far, and may be called any number of times. Tenants are only compared. -/

namespace LingxiOS

/-- What a budget is constructed with. Every total in the source is far below 2⁵³. -/
structure ByteLimits where
  total : ℕ := 64 * 1024 * 1024
  perTenant : ℕ := 32 * 1024 * 1024
  total_safe : total < 2 ^ 53 := by decide

/-- What a release closes over. -/
structure Acquisition (κ : Type) where
  tenant : κ
  bytes : ℕ
  released : Bool := false
  deriving DecidableEq

structure ByteBudget (κ : Type) where
  active : Double := .ofInt 0
  tenants : JsMap κ Double := .empty
  /-- One for every release that was returned, in order. -/
  acquisitions : List (Acquisition κ) := []

namespace ByteBudget

variable {κ : Type} [DecidableEq κ]

/-! ## The source -/

/-- `this.tenants.get(tenant) ?? 0`. -/
def used (budget : ByteBudget κ) (tenant : κ) : Double :=
  (budget.tenants.get? tenant).getD (.ofInt 0)

/-- `acquire`, with the release it returns or what it throws. No number is `none`. -/
def acquire (limits : ByteLimits) (budget : ByteBudget κ) (tenant : κ) (bytes : Option Double) :
    Except String ℕ × ByteBudget κ :=
  match bytes.bind Double.safeInteger? with
  | none => (.error "in-flight byte budget exceeded", budget)
  | some n =>
      if n < 0 ∨ .ofInt limits.total < budget.active.plus n
          ∨ .ofInt limits.perTenant < (budget.used tenant).plus n then
        (.error "in-flight byte budget exceeded", budget)
      else
        (.ok budget.acquisitions.length,
          { active := budget.active.plus n
            tenants := budget.tenants.set tenant ((budget.used tenant).plus n)
            acquisitions := budget.acquisitions ++ [{ tenant := tenant, bytes := n.toNat }] })

/-- What is left of an entry; without one the difference is no number, and none is stored. -/
def settle (tenants : JsMap κ Double) (tenant : κ) (bytes : ℕ) : JsMap κ Double :=
  match (tenants.get? tenant).map fun used => used.plus (-bytes) with
  | some remaining =>
      if remaining ≠ .ofInt 0 then tenants.set tenant remaining else tenants.delete tenant
  | none => tenants.delete tenant

/-- A call of a release. -/
def release (budget : ByteBudget κ) (index : ℕ) : ByteBudget κ :=
  match budget.acquisitions[index]? with
  | none => budget
  | some acquisition =>
      if acquisition.released then budget
      else
        { active := budget.active.plus (-acquisition.bytes)
          tenants := settle budget.tenants acquisition.tenant acquisition.bytes
          acquisitions := budget.acquisitions.set index { acquisition with released := true } }

inductive Event (κ : Type) where
  | acquire (tenant : κ) (bytes : Option Double)
  | release (index : ℕ)

inductive Step (limits : ByteLimits) (budget : ByteBudget κ) : Event κ → ByteBudget κ → Prop
  | acquire (tenant : κ) (bytes : Option Double) :
      Step limits budget (.acquire tenant bytes) (budget.acquire limits tenant bytes).2
  /-- Only a release that was returned can be called. -/
  | release {index : ℕ} (h : index < budget.acquisitions.length) :
      Step limits budget (.release index) (budget.release index)

/-- Every order of calls on a new budget. -/
def transitions (limits : ByteLimits) : TransitionSystem (ByteBudget κ) (Event κ) where
  start budget := budget = {}
  step := Step limits

/-! ## What is held -/

/-- The bytes of some acquisitions that were not released. -/
def heldBy (kind : Acquisition κ → Bool) (acquisitions : List (Acquisition κ)) : ℕ :=
  ((acquisitions.filter fun acquisition => !acquisition.released && kind acquisition).map
    Acquisition.bytes).sum

/-- The bytes acquired and not yet released. -/
def outstanding (budget : ByteBudget κ) : ℕ := heldBy (fun _ => true) budget.acquisitions

/-- Those of a tenant. -/
def share (budget : ByteBudget κ) (tenant : κ) : ℕ :=
  heldBy (fun acquisition => acquisition.tenant = tenant) budget.acquisitions

/-- The sum of the entries, which are integers. -/
def entryTotal (tenants : JsMap κ Double) : ℤ :=
  tenants.total fun _ used => used.integer?.getD 0

/-- Both counts are the bytes that are held, and these are within the limits. -/
structure Accounted (limits : ByteLimits) (budget : ByteBudget κ) : Prop where
  active : budget.active = .ofInt budget.outstanding
  entry : ∀ tenant, budget.used tenant = .ofInt (budget.share tenant)
  entries : entryTotal budget.tenants = budget.outstanding
  total : budget.outstanding ≤ limits.total
  perTenant : ∀ tenant, budget.share tenant ≤ limits.perTenant

section

omit [DecidableEq κ]

theorem heldBy_push (kind : Acquisition κ → Bool) (acquisitions : List (Acquisition κ))
    (acquisition : Acquisition κ) (hopen : acquisition.released = false) :
    heldBy kind (acquisitions ++ [acquisition])
      = heldBy kind acquisitions + if kind acquisition then acquisition.bytes else 0 := by
  rw [heldBy, heldBy, List.filter_append, List.map_append, List.sum_append]
  cases hkind : kind acquisition <;> simp [hopen, hkind]

/-- A release takes away what its acquisition held. -/
theorem heldBy_set (kind : Acquisition κ → Bool) {acquisitions : List (Acquisition κ)} {index : ℕ}
    {acquisition : Acquisition κ} (h : acquisitions[index]? = some acquisition)
    (hopen : acquisition.released = false) :
    heldBy kind acquisitions
      = (if kind acquisition then acquisition.bytes else 0)
        + heldBy kind (acquisitions.set index { acquisition with released := true }) := by
  obtain ⟨before, after, rfl, rfl⟩ : ∃ before after,
      acquisitions = before ++ acquisition :: after ∧ before.length = index := by
    obtain ⟨hindex, rfl⟩ := List.getElem?_eq_some_iff.1 h
    refine ⟨acquisitions.take index, acquisitions.drop (index + 1), ?_, ?_⟩
    · rw [List.getElem_cons_drop, List.take_append_drop]
    · exact List.length_take_of_le hindex.le
  rw [List.set_append_right _ _ (Nat.le_refl _), Nat.sub_self, List.set_cons_zero]
  simp only [heldBy, List.filter_append, List.map_append, List.sum_append]
  cases hkind : kind acquisition
  · simp [hopen, hkind]
  · simp [hopen, hkind]
    omega

theorem heldBy_le (kind : Acquisition κ → Bool) (acquisitions : List (Acquisition κ)) :
    heldBy kind acquisitions ≤ heldBy (fun _ => true) acquisitions := by
  induction acquisitions with
  | nil => exact Nat.le_refl 0
  | cons acquisition acquisitions ih =>
      unfold heldBy at ih ⊢
      cases hopen : acquisition.released <;> cases hkind : kind acquisition <;>
        simp [hopen, hkind] at ih ⊢ <;> omega

end

/-! ## Entries -/

theorem ofInt_inj {m n : ℤ} : Double.ofInt m = .ofInt n ↔ m = n := by
  simp [Double.ofInt]

section

variable {tenants : JsMap κ Double} {tenant : κ} {bytes rest : ℕ}

theorem entryTotal_set {before after : ℤ}
    (h : (tenants.get? tenant).getD (.ofInt 0) = .ofInt before) :
    entryTotal (tenants.set tenant (.ofInt after)) = entryTotal tenants + (after - before) := by
  cases hget : tenants.get? tenant with
  | none =>
      rw [hget, Option.getD_none, ofInt_inj] at h
      rw [entryTotal, JsMap.total_set_of_none _ hget, Double.integer?_ofInt, Option.getD_some,
        ← h, sub_zero, entryTotal]
  | some entry =>
      rw [hget, Option.getD_some] at h
      rw [entryTotal, JsMap.total_set_of_some _ hget, h, Double.integer?_ofInt,
        Double.integer?_ofInt, Option.getD_some, Option.getD_some, entryTotal]

theorem entryTotal_delete (h : (tenants.get? tenant).getD (.ofInt 0) = .ofInt bytes) :
    entryTotal (tenants.delete tenant) = entryTotal tenants - bytes := by
  cases hget : tenants.get? tenant with
  | none =>
      rw [hget, Option.getD_none, ofInt_inj] at h
      rw [entryTotal, JsMap.total_delete_of_none hget, ← h, sub_zero, entryTotal]
  | some entry =>
      rw [hget, Option.getD_some] at h
      rw [entryTotal, JsMap.total_delete_of_some hget, h, Double.integer?_ofInt, Option.getD_some,
        entryTotal]

/-- What `settle` does to an entry that is above what is given back by the rest of it. -/
theorem settle_cases (h : (tenants.get? tenant).getD (.ofInt 0) = .ofInt (bytes + rest))
    (hsafe : rest < 2 ^ 53) :
    (rest = 0 ∧ settle tenants tenant bytes = tenants.delete tenant)
      ∨ settle tenants tenant bytes = tenants.set tenant (.ofInt rest) := by
  cases hget : tenants.get? tenant with
  | none =>
      -- Only acquisitions of no bytes are open where the entry is gone.
      rw [hget, Option.getD_none, ofInt_inj] at h
      exact .inl ⟨by omega, by rw [settle, hget, Option.map_none]⟩
  | some entry =>
      rw [hget, Option.getD_some] at h
      have hminus : entry.plus (-bytes) = .ofInt rest := by
        have hplus := Double.plus_ofInt (m := bytes + rest) (n := -bytes)
          (by rw [abs_of_nonneg (by omega)]; omega)
        rw [h]
        rw [Int.cast_neg, Int.cast_natCast] at hplus
        rw [hplus, ofInt_inj]
        omega
      by_cases hrest : rest = 0
      case pos =>
        refine .inl ⟨hrest, ?_⟩
        rw [settle, hget, Option.map_some, hminus, hrest]
        exact if_neg fun hne => hne rfl
      case neg =>
        refine .inr ?_
        rw [settle, hget, Option.map_some, hminus]
        exact if_pos fun heq => hrest (Int.ofNat.inj (ofInt_inj.1 heq))

/-- Only the entry of the tenant changes, by what is given back. -/
theorem settle_spec (h : (tenants.get? tenant).getD (.ofInt 0) = .ofInt (bytes + rest))
    (hsafe : rest < 2 ^ 53) :
    ((settle tenants tenant bytes).get? tenant).getD (.ofInt 0) = .ofInt rest
      ∧ (∀ other ≠ tenant, (settle tenants tenant bytes).get? other = tenants.get? other)
      ∧ entryTotal (settle tenants tenant bytes) = entryTotal tenants - bytes := by
  rcases settle_cases h hsafe with ⟨hrest, heq⟩ | heq
  · rw [heq]
    refine ⟨?_, fun other hother => ?_, ?_⟩
    · rw [JsMap.get?_delete, if_pos rfl, hrest]
      rfl
    · rw [JsMap.get?_delete, if_neg hother]
    · rw [hrest, Nat.cast_zero, add_zero] at h
      exact entryTotal_delete h
  · rw [heq]
    refine ⟨?_, fun other hother => JsMap.get?_set_of_ne _ hother, ?_⟩
    · rw [JsMap.get?_set_self, Option.getD_some]
    · rw [entryTotal_set h]
      omega

end

/-! ## Calls -/

section

variable {limits : ByteLimits} {budget budget' : ByteBudget κ} {tenant : κ}
  {bytes : Option Double} {index : ℕ}

theorem share_le (budget : ByteBudget κ) (tenant : κ) : budget.share tenant ≤ budget.outstanding :=
  heldBy_le _ _

/-- Sums below the total are exact. -/
theorem Accounted.plus_exact (h : Accounted limits budget) (tenant : κ) {n : ℕ}
    (hroom : budget.outstanding + n ≤ limits.total) :
    budget.active.plus (n : ℤ) = .ofInt (budget.outstanding + n)
      ∧ (budget.used tenant).plus (n : ℤ) = .ofInt (budget.share tenant + n) := by
  have hsafe := limits.total_safe
  have hshare := budget.share_le tenant
  rw [h.active, h.entry tenant]
  exact ⟨Double.plus_ofInt (by rw [abs_of_nonneg (by omega)]; omega),
    Double.plus_ofInt (by rw [abs_of_nonneg (by omega)]; omega)⟩

/-- The check of `acquire` refuses what there is no room for, and nothing else. -/
theorem Accounted.room_iff (h : Accounted limits budget) (tenant : κ) (n : ℤ) :
    ¬ (n < 0 ∨ .ofInt limits.total < budget.active.plus n
        ∨ .ofInt limits.perTenant < (budget.used tenant).plus n)
      ↔ ∃ m : ℕ, n = m ∧ budget.outstanding + m ≤ limits.total
        ∧ budget.share tenant + m ≤ limits.perTenant := by
  have hsafe := limits.total_safe
  have hlimit : ∀ a b : ℕ, ¬ Double.ofInt a < .ofInt b ↔ b ≤ a := by
    intro a b
    rw [not_lt, Double.ofInt, Double.ofInt, Double.finite_le_finite, Int.cast_le, Nat.cast_le]
  constructor
  · intro hroom
    simp only [not_or] at hroom
    obtain ⟨hpos, htotal, htenant⟩ := hroom
    obtain ⟨m, rfl⟩ := Int.eq_ofNat_of_zero_le (not_lt.1 hpos)
    -- A sum is rounded, but never down below a total that is a safe integer.
    have hfits : budget.outstanding + m ≤ limits.total := by
      rw [h.active, not_lt] at htotal
      have hle := (Double.plus_le_ofInt (by omega) (by omega) htotal).2
      omega
    rw [(h.plus_exact tenant hfits).2, ← Nat.cast_add, hlimit] at htenant
    exact ⟨m, rfl, hfits, htenant⟩
  · rintro ⟨m, rfl, hfits, htenant⟩
    obtain ⟨hactive, hused⟩ := h.plus_exact tenant hfits
    simp only [not_or]
    refine ⟨by omega, ?_, ?_⟩
    · rw [hactive, ← Nat.cast_add, hlimit]
      exact hfits
    · rw [hused, ← Nat.cast_add, hlimit]
      exact htenant

/-- `acquire` throws and changes nothing, or counts some bytes there is room for. -/
theorem acquire_cases (h : Accounted limits budget) (tenant : κ) (bytes : Option Double) :
    budget.acquire limits tenant bytes = (.error "in-flight byte budget exceeded", budget)
      ∨ ∃ n : ℕ, budget.outstanding + n ≤ limits.total
        ∧ budget.share tenant + n ≤ limits.perTenant
        ∧ budget.acquire limits tenant bytes = (.ok budget.acquisitions.length,
          { active := .ofInt (budget.outstanding + n)
            tenants := budget.tenants.set tenant (.ofInt (budget.share tenant + n))
            acquisitions := budget.acquisitions ++ [{ tenant := tenant, bytes := n }] }) := by
  unfold ByteBudget.acquire
  split
  case h_1 => exact .inl rfl
  case h_2 n _ =>
    split
    case isTrue => exact .inl rfl
    case isFalse hroom =>
      obtain ⟨m, rfl, hfits, htenant⟩ := (h.room_iff tenant n).1 hroom
      obtain ⟨hactive, hused⟩ := h.plus_exact tenant hfits
      exact .inr ⟨m, hfits, htenant, by rw [hactive, hused, Int.toNat_natCast]⟩

theorem Accounted.acquire (h : Accounted limits budget) (tenant : κ) (bytes : Option Double) :
    Accounted limits (budget.acquire limits tenant bytes).2 := by
  rcases acquire_cases h tenant bytes with heq | ⟨n, htotal, hshare, heq⟩
  · rw [heq]
    exact h
  · rw [heq]
    have houtstanding : ∀ active tenants, outstanding ⟨active, tenants,
        budget.acquisitions ++ [{ tenant := tenant, bytes := n }]⟩ = budget.outstanding + n := by
      intro active tenants
      exact heldBy_push _ _ _ rfl
    have hshares : ∀ active tenants other, share ⟨active, tenants,
        budget.acquisitions ++ [{ tenant := tenant, bytes := n }]⟩ other
          = budget.share other + if tenant = other then n else 0 := by
      intro active tenants other
      rw [share, heldBy_push _ _ _ rfl, share]
      simp only [decide_eq_true_eq]
    refine ⟨?_, fun other => ?_, ?_, ?_, fun other => ?_⟩
    · rw [houtstanding, Nat.cast_add]
    · rw [hshares, used, JsMap.get?_set]
      by_cases hother : other = tenant
      case pos => rw [if_pos hother, if_pos hother.symm, hother, Option.getD_some, Nat.cast_add]
      case neg =>
        rw [if_neg hother, if_neg (Ne.symm hother), Nat.add_zero]
        exact h.entry other
    · rw [houtstanding, entryTotal_set (h.entry tenant), h.entries]
      omega
    · rw [houtstanding]
      exact htotal
    · rw [hshares]
      by_cases hother : tenant = other
      case pos =>
        rw [if_pos hother, ← hother]
        exact hshare
      case neg =>
        rw [if_neg hother]
        exact h.perTenant other

theorem Accounted.release (h : Accounted limits budget) (index : ℕ) :
    Accounted limits (budget.release index) := by
  unfold ByteBudget.release
  split
  case h_1 => exact h
  case h_2 acquisition hindex =>
    split
    case isTrue => exact h
    case isFalse hopen =>
      rw [Bool.not_eq_true] at hopen
      have hsafe := limits.total_safe
      have htotal := h.total
      set released := budget.acquisitions.set index { acquisition with released := true }
      have houtstanding : budget.outstanding
          = acquisition.bytes + heldBy (fun _ => true) released := by
        rw [outstanding, heldBy_set _ hindex hopen, if_pos rfl]
      have hshares : ∀ other, budget.share other
          = (if acquisition.tenant = other then acquisition.bytes else 0)
            + heldBy (fun acquisition => acquisition.tenant = other) released := by
        intro other
        rw [share, heldBy_set _ hindex hopen]
        simp only [decide_eq_true_eq]
        rfl
      -- The entry is what this acquisition holds and what the tenant's others hold.
      have hshare := hshares acquisition.tenant
      rw [if_pos rfl] at hshare
      have hle := budget.share_le acquisition.tenant
      have hentry := h.entry acquisition.tenant
      rw [hshare, Nat.cast_add] at hentry
      obtain ⟨hself, hothers, hentries⟩ := settle_spec hentry (by omega)
      refine ⟨?_, fun other => ?_, ?_, ?_, fun other => ?_⟩
      · have hplus := Double.plus_ofInt (m := budget.outstanding) (n := -acquisition.bytes)
          (by rw [abs_of_nonneg (by omega)]; omega)
        rw [Int.cast_neg, Int.cast_natCast, ← h.active, houtstanding, Nat.cast_add,
          add_neg_cancel_comm] at hplus
        exact hplus
      · by_cases hother : other = acquisition.tenant
        case pos =>
          rw [hother]
          exact hself
        case neg =>
          have hsame := hshares other
          rw [if_neg (Ne.symm hother), Nat.zero_add] at hsame
          rw [used, hothers other hother, share, ← hsame]
          exact h.entry other
      · change entryTotal (settle _ _ _) = (heldBy (fun _ => true) released : ℤ)
        rw [hentries, h.entries]
        omega
      · change heldBy (fun _ => true) released ≤ limits.total
        omega
      · change heldBy (fun acquisition => acquisition.tenant = other) released ≤ limits.perTenant
        have hperTenant := h.perTenant other
        have hsame := hshares other
        omega

theorem accounted_empty (limits : ByteLimits) : Accounted limits ({} : ByteBudget κ) :=
  ⟨rfl, fun _ => rfl, rfl, Nat.zero_le _, fun _ => Nat.zero_le _⟩

theorem Accounted.step {event : Event κ} (h : Accounted limits budget)
    (hstep : Step limits budget event budget') : Accounted limits budget' := by
  cases hstep with
  | acquire tenant bytes => exact h.acquire tenant bytes
  | release _ => exact h.release _

/-! ## Released once -/

/-- Whether a release has been called. -/
def isReleased (budget : ByteBudget κ) (index : ℕ) : Bool :=
  budget.acquisitions[index]?.any Acquisition.released

omit [DecidableEq κ] in
theorem isReleased_eq (hindex : index < budget.acquisitions.length) :
    budget.isReleased index = budget.acquisitions[index].released := by
  rw [isReleased, List.getElem?_eq_getElem hindex, Option.any_some]

/-- A second call changes nothing. -/
theorem release_of_released (h : budget.isReleased index = true) : budget.release index = budget := by
  unfold isReleased at h
  unfold release
  split
  case h_1 => rfl
  case h_2 acquisition hindex =>
    rw [hindex, Option.any_some] at h
    exact if_pos h

theorem isReleased_release (hindex : index < budget.acquisitions.length) :
    (budget.release index).isReleased index = true := by
  cases hreleased : budget.isReleased index with
  | true => rwa [release_of_released hreleased]
  | false =>
      rw [isReleased_eq hindex] at hreleased
      simp [release, hindex, hreleased, isReleased]

theorem isReleased_step {event : Event κ} (h : budget.isReleased index = true)
    (hstep : Step limits budget event budget') : budget'.isReleased index = true := by
  -- Acquisitions are only ever added, so the place stays the same.
  have hindex : index < budget.acquisitions.length := by
    by_contra hmore
    rw [isReleased, List.getElem?_eq_none (not_lt.1 hmore)] at h
    cases h
  cases hstep with
  | acquire tenant bytes =>
      unfold acquire
      split
      case h_1 => exact h
      case h_2 =>
        split
        case isTrue => exact h
        case isFalse => rwa [isReleased, List.getElem?_append_left hindex]
  | @release other hother =>
      by_cases hsame : other = index
      case pos =>
        rw [hsame]
        exact isReleased_release hindex
      case neg =>
        unfold release
        split
        case h_1 => exact h
        case h_2 =>
          split
          case isTrue => exact h
          case isFalse => rwa [isReleased, List.getElem?_set_ne hsame]

/-- After a release was called, every further call changes nothing. -/
theorem release_of_run {events : List (Event κ)} (hrun : (transitions limits).Run budget events budget')
    (h : .release index ∈ events) : budget'.release index = budget' := by
  obtain ⟨before, after, _, later, -, hstep, hrest⟩ := hrun.exists_step h
  cases hstep with
  | release hindex =>
      exact release_of_released (hrest.preserves (I := fun budget => budget.isReleased index = true)
        isReleased_step (isReleased_release hindex))

/-! ## The guarantees -/

theorem accounted_of_reachable (h : (transitions limits).Reachable budget) :
    Accounted limits budget := by
  refine h.invariant ?_ fun haccounted hstep => haccounted.step hstep
  rintro _ rfl
  exact accounted_empty limits

/-- In every order of calls what is counted is what is held, within the total and every share; a
    call of `acquire` that throws changes nothing, and nor does a release that was called before. -/
theorem budget_accounted (h : (transitions limits).Reachable budget) :
    Accounted limits budget
      ∧ (∀ tenant bytes message, (budget.acquire limits tenant bytes).1 = .error message →
          (budget.acquire limits tenant bytes).2 = budget)
      ∧ ∀ {events budget' index}, (transitions limits).Run budget events budget' →
          .release index ∈ events → budget'.release index = budget' := by
  have haccounted := accounted_of_reachable h
  refine ⟨haccounted, fun tenant bytes message hthrown => ?_, fun hrun hreleased =>
    release_of_run hrun hreleased⟩
  rcases acquire_cases haccounted tenant bytes with heq | ⟨n, -, -, heq⟩
  · rw [heq]
  · rw [heq] at hthrown
    cases hthrown

/-- After any calls, bytes are granted exactly if they are a safe integer that fits beside what is
    held, of the total and of the tenant's share. -/
theorem granted_iff (h : (transitions limits).Reachable budget) (tenant : κ) (bytes : Option Double) :
    (∃ index, (budget.acquire limits tenant bytes).1 = .ok index)
      ↔ ∃ n : ℕ, bytes.bind Double.safeInteger? = some (n : ℤ)
        ∧ budget.outstanding + n ≤ limits.total
        ∧ budget.share tenant + n ≤ limits.perTenant := by
  unfold ByteBudget.acquire
  split
  case h_1 hnone =>
    refine iff_of_false (fun ⟨_, hok⟩ => by cases hok) fun ⟨_, hsome, _⟩ => ?_
    rw [hnone] at hsome
    cases hsome
  case h_2 n hsome =>
    simp only [hsome, Option.some.injEq]
    rw [← (accounted_of_reachable h).room_iff tenant n]
    split
    case isTrue hfull => exact iff_of_false (fun ⟨_, hok⟩ => by cases hok) fun hroom => hroom hfull
    case isFalse hroom => exact iff_of_true ⟨_, rfl⟩ hroom

end

private def smallLimits : ByteLimits := { total := 10, perTenant := 6 }

/-- Six bytes beside an acquisition of none. -/
private def filled : ByteBudget ℕ :=
  ((({} : ByteBudget ℕ).acquire smallLimits 7 (some (.ofInt 0))).2.acquire smallLimits 7
    (some (.ofInt 6))).2

private theorem filled_reachable : (transitions smallLimits).Reachable filled :=
  ((TransitionSystem.Reachable.of_start rfl).next (Step.acquire 7 _)).next (Step.acquire 7 _)

/-- Beside six of ten bytes there is room for four, but not of the same share. -/
theorem granted_iff_filled : ∃ n : ℕ, (n : ℤ) = 4 ∧ filled.outstanding + n ≤ smallLimits.total
    ∧ ¬ ∃ index, (filled.acquire smallLimits 7 (some (.ofInt 4))).1 = .ok index := by
  refine ⟨4, rfl, by decide +kernel, fun hgranted => ?_⟩
  obtain ⟨n, hn, -, hshare⟩ := (granted_iff filled_reachable 7 (some (.ofInt 4))).1 hgranted
  have hsafe : Double.safeInteger? (.ofInt 4) = some 4 := by decide +kernel
  have hfour : (4 : ℤ) = n := by simpa [hsafe] using hn
  obtain rfl : n = 4 := by omega
  have hroom : ¬ filled.share 7 + 4 ≤ smallLimits.perTenant := by decide +kernel
  exact hroom hshare

/-- A tenant's entry is deleted while an acquisition of no bytes is still open. -/
theorem budget_accounted_reopened :
    (filled.release 1).tenants.entries = []
      ∧ (filled.release 1).acquisitions.map Acquisition.released = [false, true]
      ∧ Accounted smallLimits (filled.release 1)
      ∧ (filled.release 1).release 1 = filled.release 1 := by
  have hstep : Step smallLimits filled (.release 1) (filled.release 1) := .release (by decide +kernel)
  obtain ⟨haccounted, -, -⟩ := budget_accounted (filled_reachable.next hstep)
  obtain ⟨-, -, hreleased⟩ := budget_accounted filled_reachable
  exact ⟨by decide +kernel, by decide +kernel, haccounted,
    hreleased (.single hstep) (List.mem_singleton.2 rfl)⟩

end ByteBudget

end LingxiOS
