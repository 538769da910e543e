-- SUMMARY: What the two action ledgers agree on after any calls.
import LingxiOS.Ledger.Answers

/-! # Agreement of the Two Ledgers

The same calls are made on both ledgers, one after the other. Everything decided by
the effective result is answered alike. -/

namespace LingxiOS

/-! ## Receipts -/

/-- No resolution was recorded for a key. -/
def ActionLedger.Unresolved (m : ActionLedger) (key : String) : Prop :=
  (m.resolutions.get? key).getD [] = []

theorem ActionLedger.Unresolved.effectiveResult {m : ActionLedger} {key : String}
    (h : m.Unresolved key) : m.effectiveResult key = m.results.get? key := by
  unfold ActionLedger.Unresolved at h
  rw [ActionLedger.effectiveResult]
  cases hget : m.resolutions.get? key with
  | none => rfl
  | some resolutions =>
      rw [hget, Option.getD_some] at h
      rw [h]
      rfl

/-- Both throw, or both answer with one result. -/
def SameAnswer : Except String HostActionResult → Except String Json → Prop
  | .ok result, .ok json => json = result.toJson
  | .error _, .error _ => True
  | _, _ => False

section

variable {m : ActionLedger} {p : PgActionLedger} (planner : Planner)

theorem Refines.record_answer (h : Refines m p) {key : String} (hkey : m.Unresolved key)
    {result : HostActionResult} (now : Int)
    (hsendable : PgActionLedger.sendable [key] result.toJson = true) :
    SameAnswer (m.record key result).1 (p.record key result now).1 := by
  unfold ActionLedger.record PgActionLedger.record
  rw [hsendable, if_neg (by decide : ¬(!true) = true), h.hasIntent]
  by_cases hintent : (!m.intents.has key) = true
  · simp [hintent, SameAnswer]
  simp only [if_neg hintent]
  cases hrow : p.receiptRow key with
  | none => simp [h.receiptRow_eq_none hrow, SameAnswer]
  | some row =>
      obtain ⟨existing, hexisting, hjson⟩ := h.receiptRow_eq_some hrow
      simp only [hexisting, hjson, waits_toJson]
      cases happroval : existing.approval with
      | none =>
          have hfind : p.find key = some existing.toJson := by
            rw [PgActionLedger.find, h.effective, hkey.effectiveResult, hexisting]
            rfl
          simp [hfind, SameAnswer]
      | some id => simp [SameAnswer]

/-! ## Artifacts -/

/-- The artifacts of a row's receipt, with what they are ordered by. -/
def PgActionLedger.receiptArtifacts (p : PgActionLedger) (workId : String) (row : IntentRow) :
    Except String (List ((Int × String) × Json)) :=
  match p.receiptRow row.idempotencyKey with
  | none => pure []
  | some receipt => do
      if Sql.holds (Sql.and (PgActionLedger.ofWork row workId)
          (Sql.eq (Jsonb.getText (some receipt.result) "ok") (some "true"))) then
        let artifacts ← Jsonb.elements ((Jsonb.get (some receipt.result) "artifacts").getD (.arr []))
        pure (artifacts.map fun artifact => ((receipt.recordedAt, row.idempotencyKey), artifact))
      else pure []

/-- The artifacts of an action of a work, by its receipt alone. -/
def ActionLedger.recordedArtifacts (m : ActionLedger) (workId : String)
    (entry : String × ActionIntent) : List KernelArtifact :=
  if entry.2.workId == workId then
    match m.results.get? entry.1 with
    | some result => if result.ok then result.artifacts else []
    | none => []
  else []

theorem elements_artifacts (result : HostActionResult) :
    Jsonb.elements ((Jsonb.get (some result.toJson) "artifacts").getD (.arr []))
      = .ok (result.artifacts.map KernelArtifact.toJson) := by
  rw [Jsonb.get_some, field_artifacts]
  cases hartifacts : result.artifacts <;> simp [Jsonb.elements]

theorem Refines.receiptArtifacts (h : Refines m p) (workId : String)
    (entry : String × ActionIntent) :
    ∃ rows, p.receiptArtifacts workId (m.row entry) = .ok rows ∧
      rows.map Prod.snd = (m.recordedArtifacts workId entry).map KernelArtifact.toJson := by
  have hkey : (m.row entry).idempotencyKey = entry.1 := rfl
  unfold PgActionLedger.receiptArtifacts ActionLedger.recordedArtifacts
  rw [hkey]
  cases hrow : p.receiptRow entry.1 with
  | none =>
      refine ⟨[], rfl, ?_⟩
      rw [h.receiptRow_eq_none hrow]
      split <;> rfl
  | some receipt =>
      obtain ⟨result, hresult, hjson⟩ := h.receiptRow_eq_some hrow
      simp only [hjson, hresult, Sql.holds_and, holds_ofWork, holds_ok, elements_artifacts,
        Except.ok_bind, Except.pure_eq_ok]
      cases hwork : entry.2.workId == workId <;> cases hok : result.ok <;> simp

theorem ActionLedger.artifacts_of_unresolved {workId : String}
    (h : ∀ entry ∈ m.intentDetails.entries, entry.2.workId = workId → m.Unresolved entry.1) :
    m.artifacts workId = m.intentDetails.entries.flatMap (m.recordedArtifacts workId) := by
  unfold ActionLedger.artifacts
  generalize m.intentDetails.entries = entries at h
  induction entries with
  | nil => rfl
  | cons entry entries ih =>
      obtain ⟨hentry, hentries⟩ := List.forall_mem_cons.1 h
      rw [List.flatMap_cons, ← ih hentries]
      by_cases hwork : entry.2.workId = workId
      · have hbeq : (entry.2.workId == workId) = true := beq_iff_eq.mpr hwork
        cases hresult : m.results.get? entry.1 <;>
          simp [ActionLedger.recordedArtifacts, hbeq, (hentry hwork).effectiveResult, hresult]
      · have hbeq : (entry.2.workId == workId) = false := beq_false_of_ne hwork
        simp [ActionLedger.recordedArtifacts, hbeq]

theorem Refines.inventory (h : Refines m p) (workId : String) :
    ∃ rows, p.inventory planner workId = .ok rows ∧ (rows.map Prod.snd).Perm
      ((m.intentDetails.entries.flatMap (m.recordedArtifacts workId)).map KernelArtifact.toJson) := by
  have hrow : ∀ row ∈ planner.scan p.intents, p.receiptArtifacts workId row
      = .ok ((p.receiptArtifacts workId row).toOption.getD []) := by
    intro row hmem
    obtain ⟨entry, -, rfl⟩ := List.mem_map.1 ((h.scan_perm planner).mem_iff.1 hmem)
    obtain ⟨rows, hrows, -⟩ := h.receiptArtifacts workId entry
    rw [hrows]
    rfl
  refine ⟨_, by
    change ((planner.scan p.intents).mapM (p.receiptArtifacts workId) >>= fun lists =>
      Except.ok lists.flatten) = _
    rw [Except.mapM_eq_ok_of_forall hrow]
    rfl, ?_⟩
  rw [← List.flatMap_def, List.map_flatMap, List.map_flatMap]
  refine ((h.scan_perm planner).flatMap_right _).trans (List.Perm.of_eq ?_)
  rw [List.flatMap_map]
  apply List.flatMap_congr
  intro entry _
  obtain ⟨rows, hrows, hsame⟩ := h.receiptArtifacts workId entry
  rw [hrows]
  exact hsame

/-- Where nothing was resolved the inventories hold the same artifacts, up to the
    limit of the database. -/
theorem Refines.artifacts (h : Refines m p) {workId : String}
    (hunresolved : ∀ entry ∈ m.intentDetails.entries, entry.2.workId = workId →
      m.Unresolved entry.1) :
    if (m.artifacts workId).length ≤ 512 then
      ∃ found, p.artifacts planner workId = .ok found
        ∧ found.Perm ((m.artifacts workId).map KernelArtifact.toJson)
    else p.artifacts planner workId = .error "native artifact inventory exceeds 512 records" := by
  obtain ⟨rows, hrows, hperm⟩ := h.inventory planner workId
  rw [← ActionLedger.artifacts_of_unresolved hunresolved] at hperm
  have hlength : rows.length = (m.artifacts workId).length := by
    simpa using hperm.length_eq
  unfold PgActionLedger.artifacts
  rw [hrows]
  split
  · rename_i hfew
    have htake : (rows.insertionSort fun a b => a.1.1 < b.1.1
        || (a.1.1 == b.1.1 && planner.collate a.1.2 b.1.2)).take 513
          = rows.insertionSort fun a b => a.1.1 < b.1.1
            || (a.1.1 == b.1.1 && planner.collate a.1.2 b.1.2) :=
      List.take_of_length_le (by rw [List.length_insertionSort]; omega)
    have hsmall : ¬ 512 < rows.length := by omega
    refine ⟨_, by simp only [Except.ok_bind, htake, List.length_insertionSort, hsmall, if_false]; rfl, ?_⟩
    exact ((List.perm_insertionSort _ _).map _).trans hperm
  · rename_i hmany
    have hlarge : 512 < min 513 rows.length := by omega
    simp only [Except.ok_bind, List.length_take, List.length_insertionSort, hlarge, if_true]
    rfl

end

/-! ## Any calls -/

inductive LedgerCall where
  | reserve (key fingerprint : String) (intent : ActionIntent)
  | record (key : String) (result : HostActionResult) (now : Int)
  | recordResolution (resolution : ActionResolution)

def ActionLedger.call (m : ActionLedger) : LedgerCall → ActionLedger
  | .reserve key fingerprint intent => (m.reserve key fingerprint intent).2
  | .record key result _ => (m.record key result).2
  | .recordResolution resolution => (m.recordResolution resolution).2

def PgActionLedger.call (p : PgActionLedger) : LedgerCall → PgActionLedger
  | .reserve key fingerprint intent => (p.reserve key fingerprint intent).2
  | .record key result now => (p.record key result now).2
  | .recordResolution resolution => (p.recordResolution resolution).2

/-- The database takes what the call sends. -/
def LedgerCall.sendable : LedgerCall → Bool
  | .reserve key fingerprint intent => PgActionLedger.sendable [key, fingerprint] intent.toJson
  | .record key result _ => PgActionLedger.sendable [key] result.toJson
  | .recordResolution resolution =>
      PgActionLedger.sendable [resolution.id, resolution.actionKey] resolution.toJson

/-- The ledgers after the same calls. -/
def ActionLedger.after (calls : List LedgerCall) : ActionLedger := calls.foldl ActionLedger.call .init

def PgActionLedger.after (calls : List LedgerCall) : PgActionLedger :=
  calls.foldl PgActionLedger.call .init

theorem Refines.call {m : ActionLedger} {p : PgActionLedger} (h : Refines m p) {call : LedgerCall}
    (hsendable : call.sendable = true) : Refines (m.call call) (p.call call) := by
  cases call with
  | reserve key fingerprint intent => exact h.reserve hsendable
  | record key result now => exact h.record now hsendable
  | recordResolution resolution => exact h.recordResolution hsendable

theorem Refines.calls {m : ActionLedger} {p : PgActionLedger} (h : Refines m p)
    {calls : List LedgerCall} (hsendable : ∀ call ∈ calls, call.sendable = true) :
    Refines (calls.foldl ActionLedger.call m) (calls.foldl PgActionLedger.call p) := by
  induction calls generalizing m p with
  | nil => exact h
  | cons call rest ih =>
      obtain ⟨hcall, hrest⟩ := List.forall_mem_cons.1 hsendable
      exact ih (h.call hcall) hrest

def ActionLedger.Wait.text : ActionLedger.Wait → String
  | .approvalId id => id
  | .question text => text

/-- What the two ledgers answer alike, asked with texts that the database takes. -/
structure Agreement (planner : Planner) (m : ActionLedger) (p : PgActionLedger) : Prop where
  find : ∀ key, Jsonb.storableText key = true → p.find key = (m.find key).map HostActionResult.toJson
  hasSuccessfulAction : ∀ workId v actions, (workId :: actions).all Jsonb.storableText = true →
    p.hasSuccessfulAction planner workId v actions = m.hasSuccessfulAction workId v actions
  hasWait : ∀ workId v wait, [workId, wait.text].all Jsonb.storableText = true →
    (∀ text, wait = .question text → TextQuestions m) →
    p.hasWait planner workId v wait = m.hasWait workId v wait
  /-- As a set while no more than 65 are pending, else 65 of the pending actions. -/
  unsettled : ∀ workId, Jsonb.storableText workId = true →
    ((m.pending workId).length ≤ 65 → (p.unsettled planner workId).Perm (m.unsettled workId))
      ∧ p.unsettled planner workId ⊆ m.pending workId ∧ m.unsettled workId ⊆ m.pending workId
      ∧ (p.unsettled planner workId).length = (m.unsettled workId).length
  /-- Of a version of the request, for indices an `integer` holds; in one order when
      the indices are different. -/
  listCell : ∀ workId cellId v, [workId, cellId].all Jsonb.storableText = true →
    (∀ entry ∈ m.ofCell workId cellId (some v), entry.2.action.callIndex ≤ 2147483647) →
    ∃ found, p.listCell planner workId cellId (some v) = .ok found
      ∧ found.Perm ((m.listCell workId cellId (some v)).map ActionLedger.CellRecord.toRow)
      ∧ (((m.ofCell workId cellId (some v)).map fun entry => entry.2.action.callIndex).Nodup →
        found = (m.listCell workId cellId (some v)).map ActionLedger.CellRecord.toRow)
  /-- Of keys without a resolution. -/
  record : ∀ key result now, PgActionLedger.sendable [key] result.toJson = true → m.Unresolved key →
    SameAnswer (m.record key result).1 (p.record key result now).1
  /-- Of works without a resolution: the same artifacts, up to the limit of the database. -/
  artifacts : ∀ workId, Jsonb.storableText workId = true →
    (∀ entry ∈ m.intentDetails.entries, entry.2.workId = workId → m.Unresolved entry.1) →
    if (m.artifacts workId).length ≤ 512 then
      ∃ found, p.artifacts planner workId = .ok found
        ∧ found.Perm ((m.artifacts workId).map KernelArtifact.toJson)
    else p.artifacts planner workId = .error "native artifact inventory exceeds 512 records"

/-- After any calls that the database takes the two ledgers have one effective result for
    each key, and answer alike by it. -/
theorem ledgers_agree (planner : Planner) {calls : List LedgerCall}
    (hsendable : ∀ call ∈ calls, call.sendable = true) :
    Agreement planner (.after calls) (.after calls) := by
  have h : Refines (.after calls) (.after calls) := init_refines.calls hsendable
  refine ⟨fun key _ => h.effective key, fun workId v actions _ =>
    h.hasSuccessfulAction planner workId v actions, fun workId v wait _ =>
    h.hasWait planner workId v wait, fun workId _ => ?_, fun workId cellId v _ hindex =>
    h.listCell planner hindex, fun key result now hresult hkey => h.record_answer hkey now hresult,
    fun workId _ hunresolved => h.artifacts planner hunresolved⟩
  exact ⟨h.unsettled planner, h.unsettled_subset planner workId⟩

/-! ## Where the answers part -/

private def ascending : Planner where
  scan rows := rows
  scan_perm _ := List.Perm.refl _
  collate a b := decide (a ≤ b)

private def send (key : String) (index : Nat) (action : String) (version : Option Nat) : LedgerCall :=
  .reserve key "f" ⟨"w", "t", none, "a", "s", none, version, none,
    ⟨"w", "c", index, action, [], key⟩⟩

private def file (path : String) : KernelArtifact := ⟨path, 1, "text/plain", "", none⟩

private def settle (key : String) (result : HostActionResult) : LedgerCall :=
  .recordResolution ⟨"r", key, result, [], "op"⟩

/-- An unknown send that turns out to have made a file. -/
private def reconciled : List LedgerCall :=
  [send "k" 0 "crm.send" (some 1), .record "k" { ok := false, executionState := some .unknown } 1,
    settle "k" { ok := true, artifacts := [file "a"] }]

private def settledTwice : List LedgerCall :=
  [send "k" 0 "crm.send" (some 1), .record "k" { ok := true } 1, settle "k" { ok := false }]

private def outOfOrder : List LedgerCall :=
  [send "j" 0 "crm.send" (some 1), send "k" 1 "crm.send" (some 1),
    .record "k" { ok := true, artifacts := [file "b"] } 1,
    .record "j" { ok := true, artifacts := [file "a"] } 2]

private def oversized : List LedgerCall :=
  [send "k" 0 "crm.send" (some 1),
    .record "k" { ok := true, artifacts := List.replicate 513 (file "a") } 1]

private def descending : List LedgerCall :=
  (List.range 66).map fun i =>
    send (String.singleton (Char.ofNat (113 - i))) i "crm.send" (some 1)

private def asking : HostDirective := ⟨.defer, some "user", some [("question", .num 5)]⟩

private def numberedCalls : List LedgerCall :=
  [send "k" 0 "task.ask" (some 1), .record "k" { ok := true, directive := some asking } 1]

/-- The reconciled send, and what both ledgers find for it. -/
theorem ledgers_agree_reconciled :
    Agreement ascending (.after reconciled) (.after reconciled)
      ∧ ((ActionLedger.after reconciled).find "k").map HostActionResult.ok = some true :=
  ⟨ledgers_agree ascending (by decide +kernel), by decide +kernel⟩

private def unstorable : List LedgerCall :=
  [send "k" 0 "crm.send" (some 1), .record "k" { ok := true, value := some (.str "\x00") } 1]

/-- Resolutions are left out of the inventory of the database and of what `record`
    answers in memory; the order of the artifacts, the limits, the text of a question,
    an absent version, a large index and the character U+0000 are taken differently. -/
theorem ledgers_disagree :
    (ActionLedger.artifacts (.after reconciled) "w" = [file "a"]
        ∧ PgActionLedger.artifacts ascending (.after reconciled) "w" = .ok [])
      ∧ ((ActionLedger.record (.after settledTwice) "k" { ok := true }).1 = .ok { ok := true }
        ∧ (PgActionLedger.record (.after settledTwice) "k" { ok := true } 2).1
          = .ok { ok := false : HostActionResult }.toJson)
      ∧ (ActionLedger.artifacts (.after outOfOrder) "w" = [file "a", file "b"]
        ∧ PgActionLedger.artifacts ascending (.after outOfOrder) "w"
          = .ok [(file "b").toJson, (file "a").toJson])
      ∧ ((ActionLedger.artifacts (.after oversized) "w").length = 513
        ∧ PgActionLedger.artifacts ascending (.after oversized) "w"
          = .error "native artifact inventory exceeds 512 records")
      ∧ (∃ pending ∈ ActionLedger.unsettled (.after descending) "w",
        pending ∉ PgActionLedger.unsettled ascending (.after descending) "w")
      ∧ (ActionLedger.hasWait (.after numberedCalls) "w" 1 (.question "5") = false
        ∧ PgActionLedger.hasWait ascending (.after numberedCalls) "w" 1 (.question "5") = true)
      ∧ ((ActionLedger.listCell (.after [send "k" 0 "crm.send" none]) "w" "c" none).length = 1
        ∧ (PgActionLedger.listCell ascending (.after [send "k" 0 "crm.send" none]) "w" "c" none).map
          List.length = .ok 0)
      ∧ ((ActionLedger.listCell (.after [send "k" 2147483648 "crm.send" (some 1)]) "w" "c"
          (some 1)).length = 1
        ∧ (PgActionLedger.listCell ascending (.after [send "k" 2147483648 "crm.send" (some 1)]) "w" "c"
          (some 1)).map List.length = .error "integer out of range")
      ∧ ((ActionLedger.find (.after unstorable) "k").isSome
        ∧ PgActionLedger.find (.after unstorable) "k" = none) := by
  refine ⟨⟨?_, ?_⟩, ⟨?_, ?_⟩, ⟨?_, ?_⟩, ⟨?_, ?_⟩, ?_, ⟨?_, ?_⟩, ⟨?_, ?_⟩, ⟨?_, ?_⟩, ?_, ?_⟩
  all_goals decide +kernel

end LingxiOS
