-- SUMMARY: What the two action ledgers answer, and where they part.
import LingxiOS.Base.Checks
import LingxiOS.Ledger.Refinement

/-! # The Answers of the Two Ledgers

Each SQL condition is read over the stored JSON of an intent and a result, then the
queries over the rows. Most are decided by the effective result in both; the
inventory of artifacts is read off the receipts, and `record` answers a settled key
with the receipt in memory and with the effective result in the database. -/

namespace LingxiOS

/-! ## Stored fields -/

section

variable (intent : ActionIntent) (directive : HostDirective) (result : HostActionResult)

@[simp] theorem field_workId : intent.toJson.field "workId" = some (.str intent.workId) := by
  simp [ActionIntent.toJson]

@[simp] theorem field_requestVersion : intent.toJson.field "requestVersion"
    = some ((intent.requestVersion.map fun v => Json.num v).getD .null) := by
  simp [ActionIntent.toJson, lookup_member]

@[simp] theorem field_action : intent.toJson.field "action" = some intent.action.toJson := by
  simp [ActionIntent.toJson, lookup_member]

@[simp] theorem field_actionName (action : HostAction) :
    action.toJson.field "action" = some (.str action.action) := by
  simp [HostAction.toJson, lookup_member]

@[simp] theorem field_cellId (action : HostAction) :
    action.toJson.field "cellId" = some (.str action.cellId) := by
  simp [HostAction.toJson, lookup_member]

@[simp] theorem field_callIndex (action : HostAction) :
    action.toJson.field "callIndex" = some (.num action.callIndex) := by
  simp [HostAction.toJson, lookup_member]

@[simp] theorem field_type : directive.toJson.field "type"
    = some (.str (if directive.type = .defer then "defer" else "task_contract")) := by
  cases htype : directive.type <;> simp [HostDirective.toJson, htype]

@[simp] theorem field_reason : directive.toJson.field "reason" = directive.reason.map .str := by
  simp [HostDirective.toJson, lookup_member, List.lookup_append, lookup_optionalField]

@[simp] theorem field_data : directive.toJson.field "data" = directive.data.map .obj := by
  simp [HostDirective.toJson, lookup_member, List.lookup_append, lookup_optionalField]

/-! ## Conditions -/

open PgActionLedger

theorem holds_ok : Sql.holds (Sql.eq (Jsonb.getText (some result.toJson) "ok") (some "true"))
    = result.ok := by
  cases hok : result.ok <;> simp [Jsonb.getText, hok]

theorem getText_executionState : Jsonb.getText (some result.toJson) "executionState"
    = result.executionState.map ExecutionState.name := by
  cases hstate : result.executionState <;> simp [Jsonb.getText, hstate]

theorem holds_unknown :
    Sql.holds (Sql.eq (Jsonb.getText (some result.toJson) "executionState") (some "unknown"))
      = result.isUnknown := by
  rw [getText_executionState, HostActionResult.isUnknown]
  cases result.executionState with
  | none => rfl
  | some state => cases state <;> rfl

theorem holds_notUnknown : Sql.holds (notUnknown (some result.toJson)) = !result.isUnknown := by
  rw [notUnknown, getText_executionState, HostActionResult.isUnknown]
  cases result.executionState with
  | none => simp
  | some state => cases state <;> rfl

theorem isNone_approval :
    (Jsonb.get (some result.toJson) "approval").isNone = result.approval.isNone := by
  simp

theorem holds_approvalId (id : String) :
    Sql.holds (Sql.and
        (Sql.eq (Jsonb.getText (Jsonb.get (some result.toJson) "approval") "status") (some "PENDING"))
        (Sql.eq (Jsonb.getText (Jsonb.get (some result.toJson) "approval") "id") (some id)))
      = (result.approval == some id) := by
  cases happroval : result.approval with
  | none => simp [Jsonb.getText, happroval]
  | some other => simp [Jsonb.getText, happroval, lookup_member, beq_eq_decide]

theorem getText_question : Jsonb.getText (Jsonb.get (some directive.toJson) "data") "question"
    = (ActionLedger.question directive).bind Jsonb.asText := by
  cases hdata : directive.data <;> simp [Jsonb.getText, ActionLedger.question, JsonObject.get?, hdata]

/-- How the database reads a question. -/
theorem holds_question (m : ActionLedger) (entry : String × ActionIntent) (text : String) :
    Sql.holds (waitCondition (.question text) (m.row entry) (some result.toJson))
      = (entry.2.action.action == "task.ask" && result.ok && result.directive.any fun directive =>
        directive.type == .defer && directive.reason == some "user"
          && (ActionLedger.question directive).bind Jsonb.asText == some text) := by
  have hname : actionName (m.row entry) = some entry.2.action.action := by
    simp [actionName, ActionLedger.row, Jsonb.getText]
  simp only [waitCondition, Sql.holds_and, hname, Sql.holds_eq_some]
  cases hdirective : result.directive with
  | none => simp [Jsonb.getText, hdirective]
  | some directive =>
      have hget : Jsonb.get (some result.toJson) "directive" = some directive.toJson := by
        simp [hdirective]
      rw [hget, getText_question]
      cases htype : directive.type with
      | defer =>
          cases hreason : directive.reason <;>
            simp [Jsonb.getText, htype, hreason, beq_eq_decide, Bool.and_assoc]
      | taskContract => simp [Jsonb.getText, htype]

end

/-! ## Queries -/

section

variable {m : ActionLedger} {p : PgActionLedger} (planner : Planner)

/-- However the database reads the intents, it reads the ones in memory. -/
theorem Refines.scan_perm (h : Refines m p) :
    (planner.scan p.intents).Perm (m.intentDetails.entries.map m.row) :=
  h.intents ▸ planner.scan_perm p.intents

theorem Refines.any_scan (h : Refines m p) (f : IntentRow → Bool) :
    (planner.scan p.intents).any f = m.intentDetails.entries.any fun e => f (m.row e) := by
  rw [Bool.eq_iff_iff]
  simp [List.any_eq_true, (h.scan_perm planner).mem_iff]

theorem holds_ofWork (entry : String × ActionIntent) (workId : String) :
    Sql.holds (PgActionLedger.ofWork (m.row entry) workId) = (entry.2.workId == workId) := by
  simp [PgActionLedger.ofWork, ActionLedger.row, Jsonb.getText, beq_eq_decide]

theorem version_eq_some (intent : ActionIntent) (v : Nat) :
    ((intent.requestVersion.map fun v => Json.num v).getD .null = .num v)
      ↔ intent.requestVersion = some v := by
  cases intent.requestVersion <;> simp

theorem holds_ofVersion (entry : String × ActionIntent) (v : Nat) :
    Sql.holds (PgActionLedger.ofVersion (m.row entry) v) = (entry.2.requestVersion == some v) := by
  simp only [PgActionLedger.ofVersion, ActionLedger.row, Jsonb.get_some, field_requestVersion,
    Sql.holds_eq_some, Option.some.injEq, version_eq_some, beq_eq_decide]

theorem actionName_row (entry : String × ActionIntent) :
    PgActionLedger.actionName (m.row entry) = some entry.2.action.action := by
  simp [PgActionLedger.actionName, ActionLedger.row, Jsonb.getText]

/-- Every question in an effective result is a string. -/
def TextQuestions (m : ActionLedger) : Prop :=
  ∀ key result directive value, m.effectiveResult key = some result →
    result.directive = some directive → ActionLedger.question directive = some value →
    value.isString = true

theorem asText_eq_some_of_isString {value : Option Json} {text : String}
    (h : ∀ v, value = some v → v.isString = true) :
    value.bind Jsonb.asText = some text ↔ value = some (.str text) := by
  cases value with
  | none => simp
  | some v =>
      have hstring := h v rfl
      cases v <;> simp_all [Json.isString]

theorem Refines.hasWait (h : Refines m p) (workId : String) (v : Nat) (wait : ActionLedger.Wait)
    (hquestions : ∀ text, wait = .question text → TextQuestions m) :
    p.hasWait planner workId v wait = m.hasWait workId v wait := by
  rw [PgActionLedger.hasWait, h.any_scan, ActionLedger.hasWait]
  congr 1
  funext entry
  have hkey : (m.row entry).idempotencyKey = entry.1 := rfl
  simp only [Sql.holds_and, holds_ofWork, holds_ofVersion, hkey, h.effective, Bool.and_assoc]
  congr 2
  cases hresult : m.effectiveResult entry.1 with
  | none => rfl
  | some result =>
      simp only [Option.map_some, holds_notUnknown, Option.any_some, Sql.holds_isNotNull,
        Option.isSome_some, Bool.true_and]
      congr 1
      cases wait with
      | approvalId id => exact holds_approvalId result id
      | question text =>
          rw [holds_question, ActionLedger.waitsOn]
          congr 1
          cases hdirective : result.directive with
          | none => rfl
          | some directive =>
              have hstring : ∀ v, ActionLedger.question directive = some v → v.isString = true :=
                fun v hv => hquestions text rfl entry.1 result directive v hresult hdirective hv
              simp only [Option.any_some, beq_eq_decide, asText_eq_some_of_isString hstring]

theorem Refines.hasSuccessfulAction (h : Refines m p) (workId : String) (v : Nat)
    (actions : List String) :
    p.hasSuccessfulAction planner workId v actions = m.hasSuccessfulAction workId v actions := by
  rw [PgActionLedger.hasSuccessfulAction, h.any_scan, ActionLedger.hasSuccessfulAction]
  congr 2
  funext entry
  have hkey : (m.row entry).idempotencyKey = entry.1 := rfl
  simp only [Sql.holds_and, holds_ofWork, holds_ofVersion, hkey, h.effective, actionName_row,
    Sql.holds_eqAny, Option.any_some, Bool.and_assoc, List.contains_eq_mem]
  congr 3
  cases m.effectiveResult entry.1 with
  | none => simp
  | some result =>
      simp only [Option.map_some, holds_ok, holds_notUnknown, Sql.holds_isNull, isNone_approval,
        Option.any_some]

/-! ### Pending actions -/

theorem Refines.pending (h : Refines m p) (workId : String) :
    (p.pending planner workId).Perm (m.pending workId) := by
  rw [PgActionLedger.pending, ActionLedger.pending]
  refine ((h.scan_perm planner).filterMap _).trans (List.Perm.of_eq ?_)
  rw [List.filterMap_map]
  apply List.filterMap_congr
  intro entry _
  have hkey : (m.row entry).idempotencyKey = entry.1 := rfl
  simp only [Function.comp_apply, Sql.holds_and, Sql.holds_or, holds_ofWork, hkey, h.effective,
    actionName_row, PgActionLedger.notTask, Option.map_some, Option.getD_some, Sql.holds_some]
  by_cases hwork : entry.2.workId = workId
  · cases htask : Text.hasPrefix "task." entry.2.action.action with
    | true => simp
    | false =>
        cases m.effectiveResult entry.1 with
        | none => simp [hwork, ActionLedger.pendingState]
        | some result =>
            have hwaits := waits_toJson result
            rw [PgActionLedger.waits] at hwaits
            simp only [Option.map_some, hwaits, holds_unknown]
            cases happroval : result.approval <;> cases hunknown : result.isUnknown <;>
              simp [hwork, ActionLedger.pendingState, happroval, hunknown]
  · simp [hwork]

theorem Refines.unsettled (h : Refines m p) {workId : String}
    (hfew : (m.pending workId).length ≤ 65) :
    (p.unsettled planner workId).Perm (m.unsettled workId) := by
  have hlength : (p.pending planner workId).length ≤ 65 := by
    rwa [(h.pending planner workId).length_eq]
  rw [PgActionLedger.unsettled, ActionLedger.unsettled_eq, List.take_of_length_le hfew,
    List.take_of_length_le (by rwa [List.length_insertionSort])]
  exact (List.perm_insertionSort _ _).trans (h.pending planner workId)

/-- Beyond the limit each answers with 65 of the pending actions. -/
theorem Refines.unsettled_subset (h : Refines m p) (workId : String) :
    p.unsettled planner workId ⊆ m.pending workId ∧ m.unsettled workId ⊆ m.pending workId
      ∧ (p.unsettled planner workId).length = (m.unsettled workId).length := by
  refine ⟨fun a ha => ?_, List.take_subset _ _, ?_⟩
  · have hsorted := List.take_subset _ _ ha
    exact (h.pending planner workId).mem_iff.1 ((List.perm_insertionSort _ _).mem_iff.1 hsorted)
  · simp only [PgActionLedger.unsettled, ActionLedger.unsettled_eq, List.length_take,
      List.length_insertionSort, (h.pending planner workId).length_eq]

/-! ### Cells -/

theorem pairwise_sorted {α κ : Type*} [LinearOrder κ] (f : α → κ) (l : List α) :
    (l.insertionSort fun a b => f a ≤ f b).Pairwise fun a b => f a ≤ f b := by
  have htotal : Std.Total fun a b => f a ≤ f b := ⟨fun a b => le_total (f a) (f b)⟩
  have htrans : IsTrans α fun a b => f a ≤ f b := ⟨fun _ _ _ => le_trans⟩
  exact List.pairwise_insertionSort _ l

/-- An action of a cell, as the database answers it. -/
def ActionLedger.CellRecord.toRow (record : ActionLedger.CellRecord) : PgActionLedger.CellRow :=
  ⟨record.intent.toJson, record.result.map HostActionResult.toJson⟩

/-- The recorded actions of a cell. -/
def ActionLedger.ofCell (m : ActionLedger) (workId cellId : String) (requestVersion : Option Nat) :
    List (String × ActionIntent) :=
  m.intentDetails.entries.filter fun entry =>
    entry.2.workId == workId && entry.2.action.cellId == cellId
      && entry.2.requestVersion == requestVersion

theorem callIndex_row {entry : String × ActionIntent}
    (hindex : entry.2.action.callIndex ≤ 2147483647) :
    PgActionLedger.callIndex (m.row entry) = .ok entry.2.action.callIndex := by
  have hbounds : -2147483648 ≤ (entry.2.action.callIndex : Int)
      ∧ (entry.2.action.callIndex : Int) ≤ 2147483647 := by omega
  simp only [PgActionLedger.callIndex, ActionLedger.row, Jsonb.get_some, field_action,
    field_callIndex, hbounds, and_self, if_true]

def PgActionLedger.inCell (workId cellId : String) (requestVersion : Nat) (row : IntentRow) : Bool :=
  Sql.holds (Sql.and (PgActionLedger.ofWork row workId)
    (Sql.and (Sql.eq (Jsonb.getText (Jsonb.get (some row.intent) "action") "cellId") (some cellId))
      (Sql.isNotDistinctFrom (Jsonb.get (some row.intent) "requestVersion")
        (some (.num requestVersion)))))

theorem inCell_row (entry : String × ActionIntent) (workId cellId : String) (v : Nat) :
    PgActionLedger.inCell workId cellId v (m.row entry) = (entry.2.workId == workId
      && entry.2.action.cellId == cellId && entry.2.requestVersion == some v) := by
  rw [PgActionLedger.inCell, Sql.holds_and, holds_ofWork, Bool.and_assoc]
  simp only [Sql.holds_and, Sql.holds_isNotDistinctFrom, ActionLedger.row, Jsonb.get_some,
    field_requestVersion, field_action, Option.some.injEq, version_eq_some]
  simp [Jsonb.getText, beq_eq_decide]

/-- The rows of a cell are those of its actions. -/
theorem Refines.rows_perm (h : Refines m p) (workId cellId : String) (v : Nat) :
    ((planner.scan p.intents).filter (PgActionLedger.inCell workId cellId v)).Perm
      ((m.ofCell workId cellId (some v)).map m.row) := by
  refine ((h.scan_perm planner).filter _).trans (List.Perm.of_eq ?_)
  rw [List.filter_map, ActionLedger.ofCell]
  congr 1
  apply List.filter_congr
  intro entry _
  exact inCell_row entry workId cellId v

/-- The row of an action with the index it is ordered by. -/
def ActionLedger.indexed (m : ActionLedger) (entry : String × ActionIntent) : Int × IntentRow :=
  (entry.2.action.callIndex, m.row entry)

theorem Refines.listCell (h : Refines m p) {workId cellId : String} {v : Nat}
    (hindex : ∀ entry ∈ m.ofCell workId cellId (some v), entry.2.action.callIndex ≤ 2147483647) :
    ∃ found, p.listCell planner workId cellId (some v) = .ok found ∧
      found.Perm ((m.listCell workId cellId (some v)).map ActionLedger.CellRecord.toRow) ∧
      (((m.ofCell workId cellId (some v)).map fun entry => entry.2.action.callIndex).Nodup →
        found = (m.listCell workId cellId (some v)).map ActionLedger.CellRecord.toRow) := by
  set rows := (planner.scan p.intents).filter (PgActionLedger.inCell workId cellId v) with hrows
  set cell := fun entry : Int × IntentRow =>
    (⟨entry.2.intent, p.effective entry.2.idempotencyKey⟩ : PgActionLedger.CellRow) with hcell
  have hperm := h.rows_perm planner workId cellId v
  have hof : ∀ row ∈ rows, ∃ entry ∈ m.ofCell workId cellId (some v), row = m.row entry := by
    intro row hrow
    obtain ⟨entry, hentry, rfl⟩ := List.mem_map.1 (hperm.mem_iff.1 hrow)
    exact ⟨entry, hentry, rfl⟩
  have hmapM : (rows.mapM fun row => (PgActionLedger.callIndex row).bind fun index =>
      .ok (index, row)) = .ok (rows.map fun row =>
        ((PgActionLedger.callIndex row).toOption.getD 0, row)) := by
    apply Except.mapM_eq_ok_of_forall
    intro row hrow
    obtain ⟨entry, hentry, rfl⟩ := hof row hrow
    rw [callIndex_row (hindex entry hentry)]
    rfl
  set sorted := (rows.map fun row => ((PgActionLedger.callIndex row).toOption.getD 0, row))
    |>.insertionSort fun a b => a.1 ≤ b.1 with hsorted
  set ours := ((m.ofCell workId cellId (some v)).insertionSort fun a b =>
    a.2.action.callIndex ≤ b.2.action.callIndex).map m.indexed with hours
  have hsame : sorted.Perm ours := by
    refine (List.perm_insertionSort _ _).trans ((hperm.map _).trans ?_)
    rw [List.map_map]
    refine (List.Perm.of_eq (List.map_congr_left fun entry hentry => ?_)).trans
      ((List.perm_insertionSort _ _).symm.map _)
    simp only [Function.comp_apply, callIndex_row (hindex entry hentry)]
    rfl
  have hanswer : ours.map cell
      = (m.listCell workId cellId (some v)).map ActionLedger.CellRecord.toRow := by
    simp only [hours, ActionLedger.listCell, List.map_map]
    apply List.map_congr_left
    intro entry _
    simp only [hcell, Function.comp_apply, ActionLedger.indexed, ActionLedger.row, h.effective]
    rfl
  refine ⟨sorted.map cell, ?_, hanswer ▸ hsame.map cell, fun hnodup => ?_⟩
  · change ((rows.mapM fun row => (PgActionLedger.callIndex row).bind fun index =>
      .ok (index, row)) >>= fun indexed => Except.ok _) = _
    rw [hmapM]
    rfl
  · have heq : sorted = ours := by
      refine hsame.eq_of_pairwise ?_ (pairwise_sorted Prod.fst _) ?_
      · intro a b ha hb hab hba
        obtain ⟨e, he, rfl⟩ := List.mem_map.1 (hsame.mem_iff.1 ha)
        obtain ⟨e', he', rfl⟩ := List.mem_map.1 hb
        have hcall : e.2.action.callIndex = e'.2.action.callIndex := by
          simp only [ActionLedger.indexed] at hab hba
          omega
        rw [List.inj_on_of_nodup_map hnodup ((List.mem_insertionSort _).1 he)
          ((List.mem_insertionSort _).1 he') hcall]
      · rw [hours, List.pairwise_map]
        refine (pairwise_sorted (fun e : String × ActionIntent => e.2.action.callIndex) _).imp ?_
        intro a b hab
        simpa [ActionLedger.indexed] using hab
    rw [heq, hanswer]

end

end LingxiOS
