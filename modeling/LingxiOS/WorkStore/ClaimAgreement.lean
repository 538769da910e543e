-- SUMMARY: When the claim query and the in-memory filter agree.
import LingxiOS.Base.Checks
import LingxiOS.WorkStore.PgClaim
import Mathlib.Data.List.Dedup

/-! # The Query and the Filter

`claim` decides twice which rows may be leased. Both sides are split into the
conditions they share and the three they decide apart: the lease of a leased row,
the execution class, and the dependencies. -/

namespace LingxiOS.PgWorkStore

open WorkStore (ClaimRequest)

variable {tables : PgWorkTables} {request : ClaimRequest} {now : Int} {work : PgWorkRow}

/-! ## Reading the tables as a store -/

theorem get?_rows {id : String} {row : WorkRow} : tables.inMemory.rows.get? id = some row
    ↔ ∃ target ∈ tables.workItems, target.id = id ∧ target.toRow = row := by
  simp [JsMap.get?_eq_some_iff, PgWorkTables.inMemory]

/-- Two rows of the table with one id are the same row. -/
theorem eq_of_id {a b : PgWorkRow} (ha : a ∈ tables.workItems) (hb : b ∈ tables.workItems)
    (h : a.id = b.id) : a = b :=
  List.inj_on_of_nodup_map tables.workItems_pkey ha hb h

/-- The store `claim` filters the rows of. -/
def claiming (tables : PgWorkTables) (request : ClaimRequest) (now : Int) : WorkStore :=
  (tables.inMemory.evictClaim request).purge request.workerId now

theorem evictClaim_inMemory : tables.inMemory.evictClaim request = tables.inMemory := by
  unfold WorkStore.evictClaim
  split
  · rename_i oldest _ _ hkeys
    cases hkeys
  · rfl

theorem claiming_rows : (claiming tables request now).rows = tables.inMemory.rows := by
  rw [claiming, evictClaim_inMemory]
  rfl

theorem has_sessionLease {key : SessionKey} :
    (claiming tables request now).sessionLeases.has key = true
      ↔ ∃ lease ∈ tables.sessionLeases, lease.session = key ∧ now < lease.expiresAt := by
  rw [claiming, evictClaim_inMemory, JsMap.has, Option.isSome_iff_exists]
  simp only [JsMap.get?_eq_some_iff, WorkStore.purge, JsMap.filter, PgWorkTables.inMemory,
    List.mem_filter, List.mem_map, Prod.mk.injEq, decide_eq_true_eq]
  constructor
  · rintro ⟨_, ⟨lease, hlease, rfl, rfl⟩, hlater⟩
    exact ⟨lease, hlease, rfl, hlater⟩
  · rintro ⟨lease, hlease, rfl, hlater⟩
    exact ⟨_, ⟨lease, hlease, rfl, rfl⟩, hlater⟩

/-! ## The conditions they share -/

theorem workSessionKey_eq : workSessionKey work = sessionKeyOf work.toRow.sessionKey := by
  simp [workSessionKey, sessionKeyOf_eq, WorkRow.sessionKey, PgWorkRow.toRow, String.append_assoc]

theorem holds_whereKind : Sql.holds (whereKind request work)
    = match request.kinds with
      | some kinds => kinds.contains work.kind
      | none => true := by
  unfold whereKind
  cases request.kinds <;> simp

theorem holds_whereLane : Sql.holds (whereLane request work)
    = match request.sortedLanes with
      | some lanes => lanes.contains work.lane
      | none => true := by
  unfold whereLane ClaimRequest.sortedLanes
  cases request.lanes with
  | none => simp
  | some lanes =>
      rw [Bool.eq_iff_iff]
      simp

theorem holds_whereAttempts : Sql.holds (whereAttempts work)
    = !(WorkStore.boundedKinds.contains work.kind && decide (3 ≤ work.attempts)) := by
  unfold whereAttempts
  rw [Bool.eq_iff_iff]
  by_cases hkind : work.kind ∈ WorkStore.boundedKinds <;>
    simp [Sql.not, Sql.eqAny, hkind]

theorem whereAttempts_iff : Sql.holds (whereAttempts work) = true
    ↔ ¬(work.kind ∈ WorkStore.boundedKinds ∧ 3 ≤ work.attempts) := by
  rw [holds_whereAttempts, Bool.not_eq_true', ← Bool.not_eq_true, Bool.and_eq_true,
    List.contains_iff_mem, decide_eq_true_eq]

theorem holds_whereSession : Sql.holds (whereSession tables now work)
    = !(claiming tables request now).sessionLeases.has work.toRow.sessionKey := by
  rw [whereSession, Sql.holds_not_exists, Bool.not_inj_iff, Bool.eq_iff_iff, has_sessionLease]
  simp only [List.any_eq_true, Sql.holds_and, Sql.holds_eq_some, Sql.holds_compare_some,
    Option.any_some, Bool.and_eq_true, decide_eq_true_eq, Option.some.injEq, workSessionKey_eq,
    PgSessionLease.sessionKey]
  constructor
  · rintro ⟨lease, hlease, hkey, hlater⟩
    exact ⟨lease, hlease, sessionKeyOf_inj hkey, hlater⟩
  · rintro ⟨lease, hlease, hkey, hlater⟩
    exact ⟨lease, hlease, congrArg sessionKeyOf hkey, hlater⟩

/-- The conditions both stores decide alike. -/
def ready (tables : PgWorkTables) (request : ClaimRequest) (now : Int) (work : PgWorkRow) : Bool :=
  Sql.holds (whereKind request work) && Sql.holds (whereLane request work)
    && Sql.holds (whereAttempts work) && work.cancelRequestedAt.isNone
    && Sql.holds (whereAvailable now work) && Sql.holds (whereSession tables now work)

theorem holds_conditions : Sql.holds (conditions tables request now work)
    = (ready tables request now work && Sql.holds (whereStatus now work)
      && Sql.holds (whereExecutionClass request work)) := by
  simp only [conditions, ready, Sql.holds_and, Sql.holds_isNull]
  grind

/-- The execution class `claim` compares in memory. -/
def wanted (request : ClaimRequest) (work : PgWorkRow) : Bool :=
  match request.executionClass with
  | some wanted => executionClassOf work.lane
      (JsonObject.getString? work.toRow.meta_ "executionClass") == wanted
  | none => true

theorem candidate_eq : (claiming tables request now).candidate request now work.toRow
    = (ready tables request now work && WorkStore.claimable work.toRow now
      && wanted request work
      && !(claiming tables request now).dependenciesOpen work.toRow) := by
  rw [ready, holds_whereKind, holds_whereLane, holds_whereAttempts,
    @holds_whereSession tables request]
  have hnow : Sql.holds (whereAvailable now work)
      = !(work.toRow.availableAt.any fun at_ => decide (now < at_)) := by
    rw [Bool.eq_iff_iff]
    simp [whereAvailable, PgWorkRow.toRow]
  rw [hnow]
  simp only [WorkStore.candidate, wanted]
  generalize (WorkStore.dependenciesOpen _ _) = blocked
  generalize (WorkStore.claimable _ _) = open_
  simp only [PgWorkRow.toRow]
  grind

/-! ## Dependencies -/

/-- A settled work of the same principal goes by the id. -/
def Settled (tables : PgWorkTables) (work : PgWorkRow) (id : Option String) : Prop :=
  ∃ target ∈ tables.workItems, some target.id = id ∧ target.tenantId = work.tenantId
    ∧ target.principalId = work.principalId ∧ target.status.isOpen = false

/-- Every dependency names a settled work, once its name is read off it. -/
def Unblocked (tables : PgWorkTables) (work : PgWorkRow) (name : Json → Option String)
    (dependencies : List Json) : Prop :=
  ∀ dependency ∈ dependencies, Settled tables work (name dependency)

instance (id : Option String) : Decidable (Settled tables work id) :=
  inferInstanceAs (Decidable (∃ target ∈ tables.workItems, _))

instance (name : Json → Option String) (dependencies : List Json) :
    Decidable (Unblocked tables work name dependencies) :=
  inferInstanceAs (Decidable (∀ dependency ∈ dependencies, _))

/-- `String(dependency)`, the name the memory store looks up. -/
def stringName (dependency : Json) : Option String := some dependency.toJsString

/-- The dependencies of a row whose `dependsOn` is absent or a list. -/
def dependencies (work : PgWorkRow) : Option (List Json) :=
  match Jsonb.get work.meta_ "dependsOn" with
  | none => some []
  | some (.arr items) => some items
  | some _ => none

theorem mem_prerequisites {id : Option String} {target : PgWorkRow} :
    some target ∈ prerequisites tables work id ↔ target ∈ tables.workItems ∧ some target.id = id
      ∧ target.tenantId = work.tenantId ∧ target.principalId = work.principalId := by
  rw [prerequisites, Sql.mem_leftJoin_some]
  cases id <;> simp [Sql.holds_and]

theorem none_mem_prerequisites {id : Option String} :
    none ∈ prerequisites tables work id ↔ ∀ target ∈ tables.workItems, some target.id = id →
      target.tenantId = work.tenantId → target.principalId ≠ work.principalId := by
  rw [prerequisites, Sql.mem_leftJoin_none]
  cases id <;> simp

theorem holds_wherePrerequisite {target : PgWorkRow} :
    Sql.holds (wherePrerequisite (some target)) = target.status.isOpen := by
  cases hstatus : target.status <;> simp [wherePrerequisite, hstatus, WorkStatus.isOpen]

/-- A dependency joins no missing and no open work just when it names a settled one. -/
theorem settled_iff_prerequisites {id : Option String} : Settled tables work id
    ↔ ∀ prerequisite ∈ prerequisites tables work id,
        Sql.holds (wherePrerequisite prerequisite) = false := by
  constructor
  · rintro ⟨target, htarget, hid, htenant, hprincipal, hclosed⟩ prerequisite hmem
    cases prerequisite with
    | none => exact absurd hprincipal (none_mem_prerequisites.1 hmem target htarget hid htenant)
    | some other =>
        obtain ⟨hother, hid', -, -⟩ := mem_prerequisites.1 hmem
        obtain rfl := eq_of_id hother htarget (Option.some.inj (hid'.trans hid.symm))
        rw [holds_wherePrerequisite, hclosed]
  · intro h
    by_cases hnone : none ∈ prerequisites tables work id
    · cases h none hnone
    · rw [none_mem_prerequisites] at hnone
      push Not at hnone
      obtain ⟨target, htarget, hid, htenant, hprincipal⟩ := hnone
      have hclosed := h (some target) (mem_prerequisites.2 ⟨htarget, hid, htenant, hprincipal⟩)
      rw [holds_wherePrerequisite] at hclosed
      exact ⟨target, htarget, hid, htenant, hprincipal, hclosed⟩

theorem whereDependsOn_of_dependencies {items : List Json} (h : dependencies work = some items) :
    (whereDependsOn tables work).map Sql.holds
      = .ok (decide (Unblocked tables work Jsonb.asText items)) := by
  have hids : dependencyIds work = .ok (items.map Jsonb.asText) := by
    unfold dependencies at h
    unfold dependencyIds
    split at h
    · rename_i hnone
      cases h
      rw [hnone]
      rfl
    · rename_i hlist
      cases h
      rw [hlist]
      rfl
    · cases h
  rw [whereDependsOn, hids, Except.ok_map, Except.ok_map, Sql.holds_not_exists, Except.ok.injEq,
    Bool.eq_iff_iff]
  simp only [Bool.not_eq_true', List.any_eq_false, List.mem_flatMap, List.mem_map,
    decide_eq_true_eq, Unblocked, settled_iff_prerequisites, Bool.not_eq_true]
  constructor
  · intro h dependency hdependency prerequisite hmem
    exact h prerequisite ⟨_, ⟨dependency, hdependency, rfl⟩, hmem⟩
  · rintro h prerequisite ⟨_, ⟨dependency, hdependency, rfl⟩, hmem⟩
    exact h dependency hdependency prerequisite hmem

theorem whereDependsOn_of_none (h : dependencies work = none) :
    ∃ e, (whereDependsOn tables work).map Sql.holds = .error e := by
  unfold dependencies at h
  split at h
  · cases h
  · cases h
  · rename_i value hlist hvalue
    cases value with
    | arr items => exact absurd rfl (hlist items)
    | _ => exact ⟨_, by simp [whereDependsOn, dependencyIds, hvalue, Jsonb.elements]; rfl⟩

/-- Property access finds in `meta` what the JSONB operator finds. -/
theorem get?_meta (key : String) :
    JsonObject.get? work.toRow.meta_ key = Jsonb.get work.meta_ key := by
  cases hmeta : work.meta_ with
  | none => simp [PgWorkRow.toRow, hmeta]
  | some value => cases value <;> simp [PgWorkRow.toRow, hmeta, metaObject, JsonObject.get?, Json.field]

theorem dependencyOpen_eq (dependency : Json) :
    (claiming tables request now).dependencyOpen work.toRow dependency
      = !decide (Settled tables work (stringName dependency)) := by
  rw [WorkStore.dependencyOpen, claiming_rows]
  cases hget : tables.inMemory.rows.get? dependency.toJsString with
  | none =>
      have hnot : ¬Settled tables work (stringName dependency) := by
        rintro ⟨target, htarget, hid, -⟩
        have hsome := get?_rows.2 ⟨target, htarget, Option.some.inj hid, rfl⟩
        rw [hget] at hsome
        cases hsome
      simp [hnot]
  | some row =>
      obtain ⟨target, htarget, hid, rfl⟩ := get?_rows.1 hget
      have hsettled : Settled tables work (stringName dependency)
          ↔ target.tenantId = work.tenantId ∧ target.principalId = work.principalId
            ∧ target.status.isOpen = false := by
        constructor
        · rintro ⟨other, hother, hid', hrest⟩
          obtain rfl := eq_of_id hother htarget ((Option.some.inj hid').trans hid.symm)
          exact hrest
        · intro hrest
          exact ⟨target, htarget, congrArg some hid, hrest⟩
      rw [Bool.eq_iff_iff]
      simp only [Bool.or_eq_true, bne_iff_ne, Bool.not_eq_true', decide_eq_false_iff_not, hsettled,
        PgWorkRow.toRow]
      grind

theorem dependenciesOpen_of_dependencies {items : List Json}
    (h : dependencies work = some items) :
    (claiming tables request now).dependenciesOpen work.toRow
      = !decide (Unblocked tables work stringName items) := by
  unfold dependencies at h
  rw [WorkStore.dependenciesOpen, get?_meta]
  split at h
  · rename_i hnone
    cases h
    simp [hnone, Unblocked]
  · rename_i hlist
    cases h
    rw [hlist, Bool.eq_iff_iff, Bool.not_eq_true', decide_eq_false_iff_not, Unblocked]
    simp [dependencyOpen_eq]
  · cases h

theorem dependenciesOpen_of_none (h : dependencies work = none) :
    (claiming tables request now).dependenciesOpen work.toRow = false := by
  unfold dependencies at h
  rw [WorkStore.dependenciesOpen, get?_meta]
  split at h
  · cases h
  · cases h
  · rename_i value hlist hvalue
    rw [hvalue]
    cases value with
    | arr items => exact absurd rfl (hlist items)
    | _ => rfl

/-! ## One row -/

/-- `claim` decides the row alike on both sides. -/
def RowAgrees (tables : PgWorkTables) (request : ClaimRequest) (now : Int) (work : PgWorkRow) :
    Prop :=
  keeps tables request now work = .ok ((claiming tables request now).candidate request now work.toRow)

/-- `meta.executionClass` is absent, `null`, or the name of a class. -/
def NamesClass (work : PgWorkRow) : Prop :=
  Jsonb.get work.meta_ "executionClass" ∈
    [none, some .null, some (.str "conversation"), some (.str "operation")]

/-- The row may be leased at some time under some filter. -/
def Leasable (work : PgWorkRow) : Prop :=
  (work.status = .queued ∨ work.status = .leased) ∧ work.cancelRequestedAt = none
    ∧ ¬(work.kind ∈ WorkStore.boundedKinds ∧ 3 ≤ work.attempts)

/-- A leased row whose lease has no end. -/
def Unending (work : PgWorkRow) : Prop := work.status = .leased ∧ work.leaseExpiresAt = none

/-- The row holds nothing the two sides read apart: `dependsOn` is absent or a list,
    an unending lease has a dependency that is not settled, and otherwise the names of
    the dependencies stand for settled works under both readings or under neither, and
    a row they do not block names its class properly. -/
def Plain (tables : PgWorkTables) (work : PgWorkRow) : Prop :=
  ∃ items, dependencies work = some items
    ∧ (Unending work → ¬Unblocked tables work stringName items)
    ∧ (¬Unending work →
        (Unblocked tables work Jsonb.asText items ↔ Unblocked tables work stringName items)
          ∧ (Unblocked tables work stringName items → NamesClass work))

theorem keeps_of_dependencies {items : List Json} (h : dependencies work = some items) :
    keeps tables request now work = .ok (ready tables request now work
      && Sql.holds (whereStatus now work) && Sql.holds (whereExecutionClass request work)
      && decide (Unblocked tables work Jsonb.asText items)) := by
  rw [keeps, whereDependsOn_of_dependencies h, holds_conditions]
  split
  · rename_i hholds
    rw [hholds, Bool.true_and]
  · rename_i hholds
    rw [Bool.not_eq_true] at hholds
    rw [hholds, Bool.false_and]

theorem candidate_of_dependencies {items : List Json} (h : dependencies work = some items) :
    (claiming tables request now).candidate request now work.toRow
      = (ready tables request now work && WorkStore.claimable work.toRow now
        && wanted request work && decide (Unblocked tables work stringName items)) := by
  rw [candidate_eq, dependenciesOpen_of_dependencies h, Bool.not_not]

/-- The two sides read the lease of a row alike, unless it has no end. -/
theorem claimable_eq (h : ¬Unending work) :
    WorkStore.claimable work.toRow now = Sql.holds (whereStatus now work) := by
  rw [Bool.eq_iff_iff]
  unfold Unending at h
  cases hexpiry : work.leaseExpiresAt with
  | none =>
      have hleased : work.status ≠ .leased := fun hs => h ⟨hs, hexpiry⟩
      simp [WorkStore.claimable, whereStatus, PgWorkRow.toRow, hleased]
  | some expiry => simp [WorkStore.claimable, whereStatus, PgWorkRow.toRow, hexpiry]

theorem holds_whereStatus_unending (h : Unending work) :
    Sql.holds (whereStatus now work) = false := by
  simp [whereStatus, h.1, h.2]

/-- A proper class is the same text on both sides. -/
theorem executionClassText_of_namesClass (h : NamesClass work) : executionClassText work
    = some (executionClassOf work.lane
        (JsonObject.getString? work.toRow.meta_ "executionClass")).name := by
  unfold NamesClass at h
  rw [JsonObject.getString?, get?_meta, executionClassText, Jsonb.getText]
  simp only [List.mem_cons, List.not_mem_nil, or_false] at h
  rcases h with h | h | h | h
  · rw [h]
    cases work.lane <;> rfl
  · rw [h]
    cases work.lane <;> rfl
  · rw [h]
    rfl
  · rw [h]
    rfl

theorem name_inj {a b : ExecutionClass} : a.name = b.name ↔ a = b := by
  cases a <;> cases b <;> decide

theorem wanted_eq (h : NamesClass work) :
    Sql.holds (whereExecutionClass request work) = wanted request work := by
  unfold whereExecutionClass wanted
  cases request.executionClass with
  | none => simp
  | some c =>
      rw [Bool.eq_iff_iff]
      simp [executionClassText_of_namesClass h, name_inj]

theorem rowAgrees_of_plain (h : Plain tables work) : RowAgrees tables request now work := by
  obtain ⟨items, hitems, hunending, hended⟩ := h
  rw [RowAgrees, keeps_of_dependencies hitems, candidate_of_dependencies hitems, Except.ok.injEq]
  by_cases hlease : Unending work
  · rw [holds_whereStatus_unending hlease, decide_eq_false (hunending hlease)]
    simp
  · obtain ⟨hnames, hclass⟩ := hended hlease
    rw [claimable_eq hlease]
    by_cases hblocked : Unblocked tables work stringName items
    · rw [decide_eq_true hblocked, decide_eq_true (hnames.2 hblocked), wanted_eq (hclass hblocked)]
    · rw [decide_eq_false hblocked, decide_eq_false (fun h => hblocked (hnames.1 h))]
      simp

/-- A row nobody may lease is kept by neither side. -/
theorem rowAgrees_of_not_leasable (h : ¬Leasable work) : RowAgrees tables request now work := by
  have hcases : ready tables request now work = false
      ∨ (work.status ≠ .queued ∧ work.status ≠ .leased) := by
    by_cases hstatus : work.status = .queued ∨ work.status = .leased
    · refine Or.inl (Bool.eq_false_iff.2 fun hready => h ⟨hstatus, ?_⟩)
      simp only [ready, Bool.and_eq_true, whereAttempts_iff, Option.isNone_iff_eq_none] at hready
      exact ⟨hready.1.1.2, hready.1.1.1.2⟩
    · exact Or.inr (not_or.1 hstatus)
  rw [RowAgrees, keeps, holds_conditions, candidate_eq]
  rcases hcases with hready | ⟨hqueued, hleased⟩
  · simp [hready]
  · have hsql : Sql.holds (whereStatus now work) = false := by simp [whereStatus, hqueued, hleased]
    have hmemory : WorkStore.claimable work.toRow now = false := by
      simp [WorkStore.claimable, PgWorkRow.toRow, hqueued, hleased]
    simp [hsql, hmemory]

/-! ## Rows that agree at all times are plain -/

/-- A claim for any kind and lane, of one class or of any. -/
def anyRequest (executionClass : Option ExecutionClass) : ClaimRequest :=
  { workerId := "", executionClass := executionClass }

/-- At some time the row is due, its lease is over and so is every session lease. -/
theorem exists_late (tables : PgWorkTables) (work : PgWorkRow) : ∃ now, 0 ≤ now
    ∧ work.availableAt ≤ now ∧ work.leaseExpiresAt.getD 0 ≤ now
    ∧ ∀ lease ∈ tables.sessionLeases, lease.expiresAt ≤ now := by
  have hleases : ∃ late, ∀ lease ∈ tables.sessionLeases, lease.expiresAt ≤ late := by
    induction tables.sessionLeases with
    | nil => exact ⟨0, by simp⟩
    | cons lease leases ih =>
        obtain ⟨late, hlate⟩ := ih
        refine ⟨max lease.expiresAt late, ?_⟩
        rintro other hother
        rcases List.mem_cons.1 hother with rfl | hother
        · exact le_max_left _ _
        · exact (hlate other hother).trans (le_max_right _ _)
  obtain ⟨late, hlate⟩ := hleases
  refine ⟨max (max 0 late) (max work.availableAt (work.leaseExpiresAt.getD 0)), by omega, by omega,
    by omega, ?_⟩
  intro lease hlease
  have hle := hlate lease hlease
  omega

theorem ready_late (hleasable : Leasable work) (hdue : work.availableAt ≤ now)
    (hover : ∀ lease ∈ tables.sessionLeases, lease.expiresAt ≤ now) (c : Option ExecutionClass) :
    ready tables (anyRequest c) now work = true := by
  obtain ⟨-, hcancel, hattempts⟩ := hleasable
  have hsession : Sql.holds (whereSession tables now work) = true := by
    rw [@holds_whereSession tables (anyRequest c), Bool.not_eq_true', ← Bool.not_eq_true,
      has_sessionLease]
    rintro ⟨lease, hlease, -, hlater⟩
    exact absurd (hover lease hlease) (by omega)
  have hkind : Sql.holds (whereKind (anyRequest c) work) = true := rfl
  have hlane : Sql.holds (whereLane (anyRequest c) work) = true := rfl
  have hbound : Sql.holds (whereAttempts work) = true := whereAttempts_iff.2 hattempts
  simp [ready, hkind, hlane, hbound, hcancel, hsession, whereAvailable, hdue]

theorem mem_name (c : ExecutionClass) : 'n' ∈ c.name.toList := by
  cases c <;> decide

/-- The text of a number holds digits and a sign. -/
theorem toString_ne_name (n : Int) (c : ExecutionClass) : toString n ≠ c.name := by
  have hdigits : ∀ m : Nat, 'n' ∉ m.repr.toList := by
    intro m hmem
    rw [Nat.toList_repr] at hmem
    exact absurd (Nat.isDigit_of_mem_toDigits (by decide) (by decide) hmem) (by decide)
  intro h
  have hmem := mem_name c
  rw [← h] at hmem
  cases n with
  | ofNat m => exact hdigits m hmem
  | negSucc m =>
      have hmem : 'n' ∈ ("-" ++ (m + 1).repr).toList := hmem
      rw [String.toList_append, List.mem_append] at hmem
      rcases hmem with hmem | hmem
      · exact absurd hmem (by decide)
      · exact hdigits _ hmem

/-- The text of a list or an object opens with a bracket. -/
theorem open_ne_name {c : ExecutionClass} {s opening : String} (h : ∃ rest, s = opening ++ rest)
    (hopening : opening = "[" ∨ opening = "\x7b") : s ≠ c.name := by
  rintro rfl
  obtain ⟨rest, h⟩ := h
  have hchars := congrArg String.toList h
  rcases hopening with rfl | rfl <;> cases c <;> simp [ExecutionClass.name] at hchars

theorem namesClass_of_text {c : ExecutionClass}
    (h : executionClassText work = some c.name) : NamesClass work := by
  rw [executionClassText, Jsonb.getText] at h
  cases hvalue : Jsonb.get work.meta_ "executionClass" with
  | none => simp [NamesClass, hvalue]
  | some value =>
      rw [hvalue] at h
      cases value with
      | null => simp [NamesClass, hvalue]
      | str s =>
          obtain rfl : s = c.name := by simpa using h
          cases c <;> simp [NamesClass, hvalue, ExecutionClass.name]
      | bool b =>
          exfalso
          cases b <;> cases c <;> simp [ExecutionClass.name] at h
      | num n => exact absurd (Option.some.inj h) (toString_ne_name n c)
      | arr items =>
          refine absurd (Option.some.inj h) (open_ne_name ?_ (Or.inl rfl))
          rw [Jsonb.text, String.append_assoc]
          exact ⟨_, rfl⟩
      | obj fields =>
          refine absurd (Option.some.inj h) (open_ne_name ?_ (Or.inr rfl))
          rw [Jsonb.text, String.append_assoc]
          exact ⟨_, rfl⟩

theorem plain_of_rowAgrees (hleasable : Leasable work)
    (h : ∀ request now, RowAgrees tables request now work) : Plain tables work := by
  obtain ⟨now, hpositive, hdue, hended, hover⟩ := exists_late tables work
  have hready := ready_late hleasable hdue hover
  have hclaimable : WorkStore.claimable work.toRow now = true := by
    rcases hleasable.1 with hs | hs <;> simp [WorkStore.claimable, PgWorkRow.toRow, hs, hended]
  have hany := h (anyRequest none) now
  have hwanted : wanted (anyRequest none) work = true := rfl
  have hclass : Sql.holds (whereExecutionClass (anyRequest none) work) = true := rfl
  cases hitems : dependencies work with
  | none =>
      exfalso
      obtain ⟨e, he⟩ := @whereDependsOn_of_none tables work hitems
      rw [RowAgrees, candidate_eq, dependenciesOpen_of_none hitems, hready, hclaimable, hwanted,
        keeps, he] at hany
      split at hany <;> cases hany
  | some items =>
      refine ⟨items, hitems, ?_, ?_⟩
      · intro hunending
        rw [RowAgrees, keeps_of_dependencies hitems, candidate_of_dependencies hitems, hready,
          hclaimable, hwanted, hclass, holds_whereStatus_unending hunending] at hany
        simpa using hany
      · intro hends
        have hdecided : ∀ c, (Sql.holds (whereExecutionClass (anyRequest c) work)
            && decide (Unblocked tables work Jsonb.asText items))
              = (wanted (anyRequest c) work
                && decide (Unblocked tables work stringName items)) := by
          intro c
          have hc := h (anyRequest c) now
          rw [RowAgrees, keeps_of_dependencies hitems, candidate_of_dependencies hitems, hready,
            ← claimable_eq hends, hclaimable] at hc
          simpa using hc
        have hnames : Unblocked tables work Jsonb.asText items
            ↔ Unblocked tables work stringName items := by
          have hnone := hdecided none
          rw [hwanted, hclass] at hnone
          simpa using hnone
        refine ⟨hnames, ?_⟩
        intro hunblocked
        have hown := hdecided (some (executionClassOf work.lane
          (JsonObject.getString? work.toRow.meta_ "executionClass")))
        rw [decide_eq_true hunblocked, decide_eq_true (hnames.2 hunblocked)] at hown
        have htext : executionClassText work = some (executionClassOf work.lane
            (JsonObject.getString? work.toRow.meta_ "executionClass")).name := by
          simpa [whereExecutionClass, wanted, anyRequest] using hown
        exact namesClass_of_text htext

/-! ## The tables -/

/-- Both sides admit the same rows. -/
def Agree (tables : PgWorkTables) (request : ClaimRequest) (now : Int) : Prop :=
  (admitted tables request now).map (·.map PgWorkRow.toRow)
    = .ok (tables.inMemory.admitted request now)

theorem inMemory_admitted : tables.inMemory.admitted request now
    = (tables.workItems.filter fun work =>
        (claiming tables request now).candidate request now work.toRow).map PgWorkRow.toRow := by
  have hvalues : (claiming tables request now).rows.values
      = tables.workItems.map PgWorkRow.toRow := by
    rw [claiming_rows]
    simp [PgWorkTables.inMemory, JsMap.values]
  rw [WorkStore.admitted, ← claiming, hvalues, List.filter_map]
  rfl

theorem agree_iff_rows :
    Agree tables request now ↔ ∀ work ∈ tables.workItems, RowAgrees tables request now work := by
  rw [Agree, inMemory_admitted, admitted]
  constructor
  · intro h
    obtain ⟨kept, hkept, hrows⟩ := Except.map_eq_ok_iff.1 h
    obtain ⟨p, hp, rfl⟩ := Sql.exists_of_select hkept
    have hinj : ∀ a ∈ tables.workItems, ∀ b ∈ tables.workItems, a.toRow = b.toRow → a = b := by
      intro a ha b hb hsame
      exact eq_of_id ha hb (congrArg WorkRow.id hsame)
    have hsame := Sql.eq_of_map_filter_eq hinj hrows
    intro work hwork
    rw [RowAgrees, hp work hwork, hsame work hwork]
  · intro h
    rw [Sql.select_of_forall h]
    rfl

private def strayRow (meta_ : Json) (leased : Bool) : PgWorkRow where
  id := "work"
  fence := 0
  tenantId := "tenant"
  agentId := "agent"
  sessionId := "session"
  threadId := none
  kind := "turn"
  lane := .background
  triggerRef := "trigger"
  principalId := none
  priority := 0
  status := if leased then .leased else .queued
  createdAt := 0
  availableAt := 0
  attempts := 0
  preemptions := 0
  leaseTokenHash := none
  leasedBy := none
  leaseExpiresAt := none
  cancelRequestedAt := none
  preemptRequestedAt := none
  steerInputs := []
  goalOutcome := none
  error := none
  meta_ := some meta_

private def strayTables (meta_ : Json) (leased : Bool) : PgWorkTables :=
  ⟨[strayRow meta_ leased], [], List.nodup_singleton _, List.nodup_nil⟩

end LingxiOS.PgWorkStore
