-- SUMMARY: What a correction budget bounds over every sequence.
import LingxiOS.Runtime.Corrections

/-! # Correction Bounds

Each call is a step of the budget. Corrections are counted against the two counters, and the
observations are a bounded list of digests, so a value alike to a recent one is known. -/

namespace LingxiOS

open JsonText (Units Value Number)
open Stringify (Live literal)

/-- A budget that is restored goes on from its own snapshot. -/
inductive BudgetCall where
  | consume (category : CorrectionCategory) (failure : Option Units)
  | observe (value : Live)
  | has (category : CorrectionCategory)
  | restore

namespace CorrectionBudget

variable {env : Builtins} {budget : CorrectionBudget} {calls : List BudgetCall}

/-! ## Runs -/

def call (env : Builtins) (budget : CorrectionBudget) : BudgetCall → CorrectionBudget
  | .consume category failure => (budget.consume env category failure).2
  | .observe value => (budget.observe env value).2
  | .has _ => budget
  | .restore => restore budget.snapshot

def after (env : Builtins) (budget : CorrectionBudget) (calls : List BudgetCall) :
    CorrectionBudget :=
  calls.foldl (call env) budget

/-- The correction a call allows. -/
def grants (env : Builtins) (budget : CorrectionBudget) : BudgetCall → List CorrectionCategory
  | .consume category failure =>
      if (budget.consume env category failure).1 then [category] else []
  | _ => []

def granted (env : Builtins) (budget : CorrectionBudget) : List BudgetCall → List CorrectionCategory
  | [] => []
  | c :: rest => grants env budget c ++ granted env (call env budget c) rest

/-- A value whose digest is not in the set. -/
def isNew (env : Builtins) (budget : CorrectionBudget) (value : Live) : Bool :=
  (observationKey env value).any fun key => decide (key ∉ budget.observations)

/-- The observation a call adds. -/
def adds (env : Builtins) (budget : CorrectionBudget) : BudgetCall → List Live
  | .observe value => if budget.isNew env value then [value] else []
  | _ => []

def added (env : Builtins) (budget : CorrectionBudget) : List BudgetCall → List Live
  | [] => []
  | c :: rest => adds env budget c ++ added env (call env budget c) rest

/-- The calls that repair a protocol. -/
def repairing : BudgetCall → Bool
  | .consume category _ => category.isProtocol
  | _ => false

/-! ## One call -/

theorem foldl_put_of_nodup {before keys : List String} (h : (before ++ keys).Nodup) :
    keys.foldl put before = before ++ keys := by
  induction keys generalizing before with
  | nil => simp
  | cons key keys ih =>
      have hkey : before.contains key = false := by
        simpa using fun hmem => (List.nodup_append'.1 h).2.2 hmem List.mem_cons_self
      rw [List.foldl_cons, put, hkey, if_neg (by simp), ih (by simpa using h)]
      simp

@[simp] theorem restore_snapshot (budget : CorrectionBudget) : restore budget.snapshot = budget := by
  obtain ⟨last, count, repairs, observations, hdistinct⟩ := budget
  simp [restore, snapshot, setOf, @foldl_put_of_nodup [] _ hdistinct]

section Consume

variable {category : CorrectionCategory} {failure : Option Units}

/-- A protocol that was repaired twice is refused; anything else counts. -/
theorem consume_eq : budget.consume env category failure =
    if category.isProtocol = true ∧ 2 ≤ budget.protocolRepairs then
      (false, { budget with protocolRepairs := budget.protocolRepairs + 1 })
    else
      (decide (min 6 (budget.count + 1) < 3),
        { budget with
          protocolRepairs := budget.protocolRepairs + (if category.isProtocol then 1 else 0)
          count := min 6 (budget.count + 1)
          last := env.sha256 (category.text ++ literal ":" ++ failure.getD category.text) }) := by
  have hlt : 2 < budget.protocolRepairs + 1 ↔ 2 ≤ budget.protocolRepairs := Int.lt_add_one_iff
  unfold consume
  cases hprotocol : category.isProtocol with
  | false => simp
  | true => simp [hlt]

@[simp] theorem consume_observations :
    (budget.consume env category failure).2.observations = budget.observations := by
  rw [consume_eq]
  split
  · rfl
  · rfl

@[simp] theorem consume_repairs : (budget.consume env category failure).2.protocolRepairs
    = budget.protocolRepairs + (if category.isProtocol then 1 else 0) := by
  rw [consume_eq]
  split
  · rename_i hrefused
    rw [if_pos hrefused.1]
  · rfl

theorem consume_allowed : (budget.consume env category failure).1 = true
    ↔ budget.count < 2 ∧ (category.isProtocol = true → budget.protocolRepairs < 2) := by
  rw [consume_eq]
  split
  · rename_i hrefused
    simp only [hrefused.1, Bool.false_eq_true, false_iff, not_and, true_imp_iff]
    omega
  · rename_i hcounted
    rw [decide_eq_true_eq]
    constructor
    · intro hcount
      exact ⟨by omega, fun hprotocol => Int.not_le.1 fun hrepairs => hcounted ⟨hprotocol, hrepairs⟩⟩
    · intro hopen
      omega

/-- A correction counts up to 6, or not at all when a protocol is not repaired again. -/
theorem consume_count : (budget.consume env category failure).2.count = min 6 (budget.count + 1)
    ∨ (budget.consume env category failure).2.count = budget.count
      ∧ (budget.consume env category failure).1 = false := by
  rw [consume_eq]
  split
  · exact .inr ⟨rfl, rfl⟩
  · exact .inl rfl

theorem has_iff_consume :
    budget.has category = true ↔ (budget.consume env category failure).1 = true := by
  rw [consume_allowed, has, CorrectionCategory.endsWithProtocol_eq]
  cases hprotocol : category.isProtocol with
  | false => simp
  | true => simp

end Consume

/-- Adding a key is pushing it to a list of 2048. -/
theorem add_eq_push (set : List String) (key : String) : add set key = Fifo.push 2048 set key := by
  unfold add Fifo.push
  cases set with
  | nil => rfl
  | cons first rest =>
      simp only [List.length_append, List.length_singleton, Nat.lt_add_one_iff]
      split
      · rfl
      · rfl

/-- A call adds its observation, or it leaves the set. -/
theorem call_observe (env : Builtins) (budget : CorrectionBudget) (value : Live) :
    adds env budget (.observe value) = [] ∧ call env budget (.observe value) = budget
      ∨ ∃ key, observationKey env value = some key ∧ adds env budget (.observe value) = [value]
        ∧ (call env budget (.observe value)).protocolRepairs = budget.protocolRepairs
        ∧ (call env budget (.observe value)).count = 0
        ∧ (call env budget (.observe value)).observations
          = Fifo.push 2048 budget.observations key := by
  cases hkey : observationKey env value with
  | none => exact .inl ⟨by simp [adds, isNew, hkey], by simp [call, observe, hkey]⟩
  | some key =>
      by_cases hknown : key ∈ budget.observations
      · exact .inl ⟨by simp [adds, isNew, hkey, hknown], by simp [call, observe, hkey, hknown]⟩
      · exact .inr ⟨key, rfl, by simp [adds, isNew, hkey, hknown],
          by simp [call, observe, hkey, hknown], by simp [call, observe, hkey, hknown],
          by simp [call, observe, hkey, hknown, add_eq_push]⟩

theorem call_restore : call env budget .restore = budget := restore_snapshot budget

/-! ## Corrections -/

/-- A call that adds nothing allows no more than the count leaves. -/
theorem grants_le {c : BudgetCall} (h : adds env budget c = []) :
    ((grants env budget c).length : Int) + max 0 (2 - (call env budget c).count)
      ≤ max 0 (2 - budget.count) := by
  cases c with
  | consume category failure =>
      rw [grants, call]
      by_cases hallowed : (budget.consume env category failure).1 = true
      · have hcount := (consume_allowed.1 hallowed).1
        rcases @consume_count env budget category failure with hnext | ⟨-, hno⟩
        · rw [if_pos hallowed, hnext, List.length_singleton]
          omega
        · rw [hno] at hallowed
          cases hallowed
      · rw [if_neg hallowed, List.length_nil]
        rcases @consume_count env budget category failure with hnext | ⟨hnext, -⟩
        · omega
        · omega
  | observe value =>
      rcases call_observe env budget value with ⟨-, hsame⟩ | ⟨_, -, hadds, -⟩
      · simp [hsame, grants]
      · rw [hadds] at h
        cases h
  | has category => simp [grants, call]
  | restore => simp [grants, call_restore]

/-- Without a new observation no more corrections are allowed than the count leaves. -/
theorem granted_le (h : added env budget calls = []) :
    ((granted env budget calls).length : Int) ≤ max 0 (2 - budget.count) := by
  induction calls generalizing budget with
  | nil => simp [granted]
  | cons c rest ih =>
      obtain ⟨hc, hrest⟩ := List.append_eq_nil_iff.1 h
      have hnow := grants_le hc
      have hlater := ih hrest
      rw [granted, List.length_append]
      omega

theorem grants_protocol_le (c : BudgetCall) :
    (((grants env budget c).countP (·.isProtocol) : Nat) : Int)
        + max 0 (2 - (call env budget c).protocolRepairs)
      ≤ max 0 (2 - budget.protocolRepairs) := by
  cases c with
  | consume category failure =>
      rw [grants, call, consume_repairs]
      by_cases hallowed : (budget.consume env category failure).1 = true
      · have hleft := (consume_allowed.1 hallowed).2
        rw [if_pos hallowed, List.countP_singleton]
        cases hprotocol : category.isProtocol with
        | false => simp
        | true =>
            have hroom := hleft hprotocol
            simp only [if_true]
            omega
      · rw [if_neg hallowed, List.countP_nil]
        split
        · omega
        · omega
  | observe value =>
      rcases call_observe env budget value with ⟨-, hsame⟩ | ⟨_, -, -, hrepairs, -⟩
      · simp [hsame, grants]
      · simp [hrepairs, grants]
  | has category => simp [grants, call]
  | restore => simp [grants, call_restore]

/-- Over a whole run no more protocol repairs are allowed than are left. -/
theorem granted_protocol_le : (((granted env budget calls).countP (·.isProtocol) : Nat) : Int)
    ≤ max 0 (2 - budget.protocolRepairs) := by
  induction calls generalizing budget with
  | nil => simp [granted]
  | cons c rest ih =>
      have hnow := @grants_protocol_le env budget c
      have hlater := @ih (call env budget c)
      rw [granted, List.countP_append]
      omega

/-! ## Observations -/

/-- The digest of an observation that can be written. -/
def digest (env : Builtins) (value : Live) : String := (observationKey env value).getD ""

theorem call_observations (c : BudgetCall) : (call env budget c).observations
    = ((adds env budget c).map (digest env)).foldl (Fifo.push 2048) budget.observations := by
  cases c with
  | consume category failure => exact consume_observations
  | observe value =>
      rcases call_observe env budget value with ⟨hadds, hsame⟩ | ⟨key, hkey, hadds, -, -, hset⟩
      · rw [hadds, hsame]
        rfl
      · rw [hadds, hset]
        simp [digest, hkey]
  | has category => rfl
  | restore =>
      rw [call_restore]
      rfl

/-- The set is what the digests of the added values, pushed one after the other, leave. -/
theorem after_observations : (after env budget calls).observations
    = ((added env budget calls).map (digest env)).foldl (Fifo.push 2048) budget.observations := by
  induction calls generalizing budget with
  | nil => rfl
  | cons c rest ih =>
      have hrest := @ih (call env budget c)
      rw [added, List.map_append, List.foldl_append, ← call_observations]
      exact hrest

theorem mem_added {value : Live} (h : value ∈ added env budget calls) :
    BudgetCall.observe value ∈ calls ∧ observationKey env value = some (digest env value) := by
  induction calls generalizing budget with
  | nil => cases h
  | cons c rest ih =>
      rcases List.mem_append.1 h with hnow | hlater
      · cases c with
        | observe other =>
            rcases call_observe env budget other with ⟨hadds, -⟩ | ⟨key, hkey, hadds, -⟩
            · rw [hadds] at hnow
              cases hnow
            · rw [hadds] at hnow
              obtain rfl := List.mem_singleton.1 hnow
              exact ⟨List.mem_cons_self, by simp [digest, hkey]⟩
        | consume | has | restore => cases hnow
      · obtain ⟨hmem, hkey⟩ := ih hlater
        exact ⟨List.mem_cons_of_mem _ hmem, hkey⟩

/-! ## Checkpoints -/

end CorrectionBudget

/-- A checkpoint `saveStep` accepts. -/
structure ProgressCheckpoint.Accepted (checkpoint : ProgressCheckpoint) : Prop where
  count : 0 ≤ checkpoint.count ∧ checkpoint.count ≤ 6
  protocolRepairs : ∀ n ∈ checkpoint.protocolRepairs, 0 ≤ n ∧ n ≤ 3
  observations : checkpoint.observations.length ≤ 2048
  digests : ∀ key ∈ checkpoint.observations, Text.isSha256Hex key = true

theorem ProgressCheckpoint.bounded_iff {most n : Int} (hmost : most ≤ 6) :
    bounded most (.num n) = true ↔ 0 ≤ n ∧ n ≤ most := by
  unfold bounded isSafeInteger maxSafeInteger
  simp only [Bool.and_eq_true, decide_eq_true_eq]
  omega

theorem ProgressCheckpoint.check_iff {checkpoint : ProgressCheckpoint} :
    check checkpoint.input = .ok () ↔ checkpoint.Accepted := by
  obtain ⟨last, count, observations, repairs⟩ := checkpoint
  have hlast : (input ⟨last, count, observations, repairs⟩).lookup "last" = some (.str last) := rfl
  have hcount : (input ⟨last, count, observations, repairs⟩).lookup "count"
      = some (.num count) := rfl
  have hkeys : (input ⟨last, count, observations, repairs⟩).lookup "observations"
      = some (.arr (observations.map .str)) := rfl
  have hrepairs : (input ⟨last, count, observations, repairs⟩).lookup "protocolRepairs"
      = repairs.map .num := by
    cases repairs with
    | none => rfl
    | some n => rfl
  have hall : (repairs.map Json.num).all (bounded 3) = true ↔ ∀ n ∈ repairs, 0 ≤ n ∧ n ≤ 3 := by
    cases repairs with
    | none => simp
    | some n => simpa using @bounded_iff 3 n (by omega)
  unfold check
  rw [hlast, hcount, hkeys, hrepairs]
  constructor
  · intro h
    split at h
    · cases h
    · rename_i hchecked
      simp only [Bool.or_eq_true, Bool.not_eq_true', not_or, Bool.not_eq_false] at hchecked
      obtain ⟨⟨⟨-, hc⟩, hr⟩, ho⟩ := hchecked
      have hkept : observations.length ≤ 2048 ∧ ∀ key ∈ observations,
          Text.isSha256Hex key = true := by
        simpa [isDigests, isDigest] using ho
      exact ⟨(bounded_iff (by omega)).1 hc, hall.1 hr, hkept.1, hkept.2⟩
  · intro h
    have hc : bounded 6 (.num count) = true := (bounded_iff (by omega)).2 h.count
    have hr := hall.2 h.protocolRepairs
    have ho : isDigests (.arr (observations.map .str)) = true := by
      simpa [isDigests, isDigest] using ⟨h.observations, h.digests⟩
    simp [hc, hr, ho, Json.isString]

namespace CorrectionBudget

theorem mem_foldl_put {set keys : List String} {key : String} (h : key ∈ keys.foldl put set) :
    key ∈ set ∨ key ∈ keys := by
  induction keys generalizing set with
  | nil => exact .inl h
  | cons other keys ih =>
      rcases ih h with hset | hkeys
      · unfold put at hset
        split at hset
        · exact .inl hset
        · rcases List.mem_append.1 hset with hset | hother
          · exact .inl hset
          · exact .inr (List.mem_cons.2 (.inl (List.mem_singleton.1 hother)))
      · exact .inr (List.mem_cons_of_mem _ hkeys)

theorem setOf_subset (keys : List String) : setOf keys ⊆ keys := by
  intro key hkey
  rcases mem_foldl_put hkey with hnil | hkeys
  · cases hnil
  · exact hkeys

theorem length_setOf_le (keys : List String) : (setOf keys).length ≤ keys.length :=
  (List.subperm_of_subset (nodup_foldl_put List.nodup_nil keys) (setOf_subset keys)).length_le

/-- A budget that starts afresh or from a checkpoint. -/
def start : Option ProgressCheckpoint → CorrectionBudget
  | none => fresh
  | some checkpoint => restore checkpoint

/-- What the checkpoint asks for, but for the bound on protocol repairs. -/
structure Within (budget : CorrectionBudget) : Prop where
  count : 0 ≤ budget.count ∧ budget.count ≤ 6
  protocolRepairs : 0 ≤ budget.protocolRepairs
  observations : budget.observations.length ≤ 2048
  digests : ∀ key ∈ budget.observations, Text.isSha256Hex key = true

theorem within_start {checkpoint : Option ProgressCheckpoint}
    (h : ∀ c ∈ checkpoint, ProgressCheckpoint.check c.input = .ok ()) :
    (start checkpoint).Within := by
  cases checkpoint with
  | none => exact ⟨by simp [start, fresh], le_rfl, Nat.zero_le _, by simp [start, fresh]⟩
  | some c =>
      have haccepted := ProgressCheckpoint.check_iff.1 (h c rfl)
      refine ⟨haccepted.count, ?_, (length_setOf_le _).trans haccepted.observations,
        fun key hkey => haccepted.digests key (setOf_subset _ hkey)⟩
      cases hrepairs : c.protocolRepairs with
      | none => simp [start, restore, hrepairs]
      | some n => simpa [start, restore, hrepairs] using (haccepted.protocolRepairs n hrepairs).1

theorem within_call (h : budget.Within) (c : BudgetCall) : (call env budget c).Within := by
  cases c with
  | consume category failure =>
      have hobservations := @consume_observations env budget category failure
      have hrepairs := @consume_repairs env budget category failure
      have hcount := h.count
      have hnonneg := h.protocolRepairs
      refine ⟨?_, ?_, by simpa [call] using h.observations, by simpa [call] using h.digests⟩
      · rcases @consume_count env budget category failure with hnext | ⟨hnext, -⟩
        · rw [call, hnext]
          omega
        · rw [call, hnext]
          exact hcount
      · rw [call, hrepairs]
        split
        · omega
        · omega
  | observe value =>
      rcases call_observe env budget value with ⟨-, hsame⟩ | ⟨key, hkey, -, hrepairs, hcount, hset⟩
      · rwa [hsame]
      · obtain ⟨text, -, rfl⟩ := Option.map_eq_some_iff.1 hkey
        refine ⟨by rw [hcount]; omega, hrepairs ▸ h.protocolRepairs, ?_, ?_⟩
        · rw [hset]
          exact Fifo.length_push_le (by omega) h.observations
        · rw [hset]
          intro other hother
          rcases Fifo.mem_push hother with hold | rfl
          · exact h.digests other hold
          · exact env.sha256_hex text
  | has category => exact h
  | restore => rwa [call_restore]

theorem call_repairs (c : BudgetCall) : (call env budget c).protocolRepairs
    = budget.protocolRepairs + (if repairing c then 1 else 0) := by
  cases c with
  | consume category failure => exact consume_repairs
  | observe value =>
      rcases call_observe env budget value with ⟨-, hsame⟩ | ⟨_, -, -, hrepairs, -⟩
      · simp [hsame, repairing]
      · simp [hrepairs, repairing]
  | has category => simp [call, repairing]
  | restore => simp [call_restore, repairing]

theorem within_after (h : budget.Within) : (after env budget calls).Within := by
  induction calls generalizing budget with
  | nil => exact h
  | cons c rest ih => exact ih (within_call h c)

theorem after_repairs : (after env budget calls).protocolRepairs
    = budget.protocolRepairs + calls.countP repairing := by
  induction calls generalizing budget with
  | nil => simp [after]
  | cons c rest ih =>
      have hrest := @ih (call env budget c)
      rw [call_repairs] at hrest
      rw [List.countP_cons]
      refine hrest.trans ?_
      push_cast
      split
      · omega
      · omega

/-- The next checkpoint of a run is accepted as long as its protocol was repaired three times
    at most. -/
theorem snapshot_accepted_iff (env : Builtins) {checkpoint : Option ProgressCheckpoint}
    (h : ∀ c ∈ checkpoint, ProgressCheckpoint.check c.input = .ok ()) (calls : List BudgetCall) :
    ProgressCheckpoint.check ((start checkpoint).after env calls).snapshot.input = .ok ()
      ↔ (start checkpoint).protocolRepairs + calls.countP repairing ≤ 3 := by
  have hwithin : ((start checkpoint).after env calls).Within := within_after (within_start h)
  rw [ProgressCheckpoint.check_iff, ← after_repairs]
  constructor
  · intro haccepted
    exact (haccepted.protocolRepairs _ rfl).2
  · intro hrepairs
    refine ⟨hwithin.count, fun n hn => ?_, hwithin.observations, hwithin.digests⟩
    cases hn
    exact ⟨hwithin.protocolRepairs, hrepairs⟩

/-! ## A platform -/

/-- The letter é is collated as it is decomposed. -/
def decompose (name : Units) : Units := name.flatMap fun u => if u = 0xE9 then [0x65, 0x301] else [u]

/-- The digests of a few texts. -/
def digests : List (Units × String) :=
  [(literal "tool_protocol:tool_protocol",
      "a0449c000724fb920a17940fdf77826bb200d5b7bac3ddeb653550915e43bda4"),
    (literal "kernel_error:kernel_error",
      "a5a7cc6ce7a58c55223a1e5e3702c68aaf7e6e9b05a7385fe874db45c6d049d0"),
    (literal "\x7b\"revision\":\"v1\"\x7d",
      "8267a6ed12917b732a912f99386722c36f1e6ff1938f5d3200f312b8e33d6289"),
    (literal "\x7b\"\u00e9\":1,\"e\u0301\":2\x7d",
      "f126472a603049b5f986bb8f35ba8b5fbace9e37c2d5b2abf5ad131a166835b6"),
    (literal "\x7b\"e\u0301\":2,\"\u00e9\":1\x7d",
      "a7962fb10dc1255be368ece9c22b2256605921dc6d0a8c9409d3ee406bcb86e5")]

theorem isSha256Hex_digests : ∀ entry ∈ digests, Text.isSha256Hex entry.2 = true := by
  simp only [digests, List.forall_mem_cons, Text.isSha256Hex]
  repeat rw [String.toList_ofList]
  exact ⟨by decide, by decide, by decide, by decide, by decide, nofun⟩

def sampleBuiltins : Builtins where
  sha256 text := ((digests.find? fun entry => entry.1 == text).map Prod.snd).getD
    "e3b0c44298fc1c149afbf4c8996fb92427ae41e4649b934ca495991b7852b855"
  sha256_hex text := by
    cases h : digests.find? fun entry => entry.1 == text with
    | none =>
        change Text.isSha256Hex "e3b0c44298fc1c149afbf4c8996fb92427ae41e4649b934ca495991b7852b855" = true
        rw [Text.isSha256Hex, String.toList_ofList]
        decide
    | some entry => exact isSha256Hex_digests entry (List.mem_of_find?_eq_some h)
  localeCompare a b := compare (decompose a) (decompose b)
  consistent := inferInstanceAs (Std.TransCmp (compareOn decompose))

/-- A resource at its first version. -/
def revised : Live := .obj [(literal "revision", .str (literal "v1"))]

private def restored : ProgressCheckpoint := ⟨"", 5, [], some 2⟩

theorem snapshot_accepted_iff_restored :
    let calls := [.observe revised, .consume .toolProtocol none, .restore]
    ProgressCheckpoint.check restored.input = .ok ()
      ∧ (ProgressCheckpoint.check
          ((start (some restored)).after sampleBuiltins calls).snapshot.input = .ok ()
        ↔ (start (some restored)).protocolRepairs + calls.countP repairing ≤ 3) :=
  ⟨by decide +kernel, snapshot_accepted_iff sampleBuiltins (by
    rintro c ⟨⟩
    decide +kernel) _⟩

/-- The fourth repair of a protocol is refused, and so is the checkpoint after it. -/
theorem fourth_repair_rejected :
    let calls := List.replicate 4 (.consume .toolProtocol none)
    ProgressCheckpoint.check ((start none).after sampleBuiltins calls).snapshot.input
      = .error "invalid progress checkpoint" := by
  decide +kernel

end CorrectionBudget

end LingxiOS
