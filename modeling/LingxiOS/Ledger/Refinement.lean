-- SUMMARY: The PostgreSQL ledger holds what the in-memory one holds.
import LingxiOS.Ledger.PgLedger

/-! # The Two Ledgers

The tables stand for a ledger in memory when they hold its intents in order and, for
each key, its receipt and its resolutions. Every call keeps the two in step. -/

namespace LingxiOS

open ActionLedger (Reservation Recorded)

/-- The row of an intent. -/
def ActionLedger.row (m : ActionLedger) (entry : String × ActionIntent) : IntentRow :=
  ⟨entry.1, (m.intents.get? entry.1).getD "", entry.2.toJson⟩

/-- The tables hold what the ledger holds. -/
structure Refines (m : ActionLedger) (p : PgActionLedger) : Prop where
  intents : p.intents = m.intentDetails.entries.map m.row
  keys : ∀ key, m.intents.has key = m.intentDetails.has key
  receipts : ∀ key, p.receipt key = (m.results.get? key).map HostActionResult.toJson
  resolutions : ∀ key, (p.resolutions.filter fun row => row.idempotencyKey == key).map
    ResolutionRow.resolution = ((m.resolutions.get? key).getD []).map ActionResolution.toJson
  ids : ∀ id, (p.resolutions.find? fun row => row.resolutionId == id).map ResolutionRow.resolution
    = (m.resolutionIds.get? id).map ActionResolution.toJson
  known : ∀ id resolution, m.resolutionIds.get? id = some resolution →
    m.intents.has resolution.actionKey = true

theorem init_refines : Refines ActionLedger.init PgActionLedger.init where
  intents := rfl
  keys _ := rfl
  receipts _ := rfl
  resolutions _ := rfl
  ids _ := rfl
  known _ _ h := by cases h

section

variable {m : ActionLedger} {p : PgActionLedger}

theorem find?_entries {α : Type} (map : JsMap String α) (key : String) :
    map.entries.find? (fun e => e.1 == key) = (map.get? key).map fun a => (key, a) := by
  have hfind : map.entries.find? (fun e => e.1 == key)
      = map.entries.find? fun e => decide (e.1 = key) := by
    congr 1
  rw [hfind, JsMap.get?]
  cases h : map.entries.find? fun e => decide (e.1 = key) with
  | none => rfl
  | some e =>
      have hkey : e.1 = key := by simpa using List.find?_some h
      simp [← hkey]

/-- The row of a key, if it has an intent. -/
theorem Refines.find_intent (h : Refines m p) (key : String) :
    (p.intents.find? fun row => row.idempotencyKey == key)
      = (m.intentDetails.get? key).map fun intent => m.row (key, intent) := by
  rw [h.intents, List.find?_map]
  have hcomp : ((fun row : IntentRow => row.idempotencyKey == key) ∘ m.row)
      = fun e : String × ActionIntent => e.1 == key := rfl
  rw [hcomp, find?_entries]
  cases m.intentDetails.get? key <;> rfl

theorem Refines.hasIntent (h : Refines m p) (key : String) : p.hasIntent key = m.intents.has key := by
  have hany : p.hasIntent key = (p.intents.find? fun row => row.idempotencyKey == key).isSome := by
    rw [PgActionLedger.hasIntent, Bool.eq_iff_iff, List.find?_isSome, List.any_eq_true]
  rw [hany, h.find_intent, h.keys, JsMap.has, Option.isSome_map]

theorem Refines.resolved (h : Refines m p) (key : String) : p.resolved key
    = ((m.resolutions.get? key).bind List.getLast?).map fun r => r.result.toJson := by
  have hlast : (((p.resolutions.filter fun row => row.idempotencyKey == key).getLast?).map
      ResolutionRow.resolution) = (((m.resolutions.get? key).getD []).getLast?).map
        ActionResolution.toJson := by
    rw [← List.getLast?_map, ← List.getLast?_map, h.resolutions key]
  have hbind : (m.resolutions.get? key).bind List.getLast?
      = ((m.resolutions.get? key).getD []).getLast? := by
    cases m.resolutions.get? key <;> rfl
  rw [PgActionLedger.resolved, hbind]
  cases hrow : (p.resolutions.filter fun row => row.idempotencyKey == key).getLast? with
  | none =>
      rw [hrow] at hlast
      simp [Option.map_eq_none_iff.1 hlast.symm]
  | some row =>
      rw [hrow] at hlast
      obtain ⟨resolution, hresolution, hjson⟩ := Option.map_eq_some_iff.1 hlast.symm
      rw [hresolution]
      simp only [Option.bind_some, Option.map_some, ← hjson]
      rfl

/-- Both ledgers have one effective result for a key. -/
theorem Refines.effective (h : Refines m p) (key : String) :
    p.effective key = (m.effectiveResult key).map HostActionResult.toJson := by
  rw [PgActionLedger.effective, h.resolved, h.receipts, ActionLedger.effectiveResult, Option.map_or,
    Option.map_map]
  rfl

/-! ## Calls -/

theorem Refines.reserve (h : Refines m p) {key fingerprint : String} {intent : ActionIntent}
    (hsendable : PgActionLedger.sendable [key, fingerprint] intent.toJson = true) :
    Refines (m.reserve key fingerprint intent).2 (p.reserve key fingerprint intent).2 := by
  unfold ActionLedger.reserve PgActionLedger.reserve
  by_cases hkey : intent.action.idempotencyKey ≠ key
  · simpa only [hkey, ne_eq, not_false_eq_true, if_true] using h
  simp only [if_neg hkey, hsendable, Bool.not_true, Bool.false_eq_true, if_false, h.find_intent]
  have hhas := h.keys key
  simp only [JsMap.has] at hhas
  cases hdetail : m.intentDetails.get? key with
  | some stored =>
      obtain ⟨existing, hexisting⟩ := Option.isSome_iff_exists.1 (hhas.trans (by simp [hdetail]))
      simp only [hexisting, Option.map_some, ActionLedger.row, Option.getD_some]
      split
      · exact h
      · exact h
  | none =>
      have hnone : m.intents.get? key = none := by
        rw [← Option.isNone_iff_eq_none, ← Option.not_isSome, hhas]
        simp [hdetail]
      simp only [hnone, Option.map_none]
      refine ⟨?_, ?_, h.receipts, h.resolutions, h.ids, ?_⟩
      · simp only [h.intents, JsMap.entries_set_of_none _ hdetail, List.map_append, List.map_cons,
          List.map_nil]
        congr 1
        · apply List.map_congr_left
          intro e he
          have hne : e.1 ≠ key := by
            rintro rfl
            have hsome : m.intentDetails.get? e.1 = some e.2 := JsMap.get?_eq_some_iff.2 he
            rw [hdetail] at hsome
            cases hsome
          simp [ActionLedger.row, JsMap.get?_set_of_ne _ hne]
        · simp [ActionLedger.row]
      · intro other
        have hother := h.keys other
        simp only [JsMap.has, JsMap.get?_set] at hother ⊢
        split
        · rfl
        · exact hother
      · intro id resolution hid
        have hold := h.known id resolution hid
        simp only [JsMap.has, JsMap.get?_set] at hold ⊢
        split
        · rfl
        · exact hold

theorem waits_toJson (result : HostActionResult) :
    PgActionLedger.waits result.toJson = result.approval.isSome := by
  unfold PgActionLedger.waits
  cases happroval : result.approval with
  | none => simp [Jsonb.getText, happroval]
  | some id => simp [Jsonb.getText, happroval, lookup_member]

theorem Refines.receiptRow_eq_none (h : Refines m p) {key : String} (hrow : p.receiptRow key = none) :
    m.results.get? key = none := by
  have hreceipt := h.receipts key
  rw [PgActionLedger.receipt, hrow] at hreceipt
  exact Option.map_eq_none_iff.1 hreceipt.symm

theorem Refines.receiptRow_eq_some (h : Refines m p) {key : String} {row : ReceiptRow}
    (hrow : p.receiptRow key = some row) :
    ∃ result, m.results.get? key = some result ∧ row.result = result.toJson := by
  have hreceipt := h.receipts key
  rw [PgActionLedger.receipt, hrow] at hreceipt
  obtain ⟨result, hresult, hjson⟩ := Option.map_eq_some_iff.1 hreceipt.symm
  exact ⟨result, hresult, hjson.symm⟩

/-- A receipt stored in both under a key, and the others kept, keeps them in step. -/
theorem Refines.set_receipt (h : Refines m p) {key : String} {result : HostActionResult}
    {receipts : List ReceiptRow}
    (hset : ∀ other, ({ p with receipts } : PgActionLedger).receipt other
      = if other = key then some result.toJson else p.receipt other) :
    Refines { m with results := m.results.set key result } { p with receipts } := by
  refine ⟨h.intents, h.keys, fun other => ?_, h.resolutions, h.ids, h.known⟩
  rw [hset, JsMap.get?_set, h.receipts]
  split
  · rfl
  · rfl

theorem Refines.record (h : Refines m p) {key : String} {result : HostActionResult} (now : Int)
    (hsendable : PgActionLedger.sendable [key] result.toJson = true) :
    Refines (m.record key result).2 (p.record key result now).2 := by
  unfold ActionLedger.record PgActionLedger.record
  rw [hsendable, if_neg (by decide : ¬(!true) = true), h.hasIntent]
  by_cases hintent : (!m.intents.has key) = true
  · simpa only [hintent, if_true] using h
  simp only [if_neg hintent]
  cases hrow : p.receiptRow key with
  | none =>
      simp only [h.receiptRow_eq_none hrow]
      refine h.set_receipt fun other => ?_
      simp only [PgActionLedger.receiptRow] at hrow
      by_cases hother : other = key
      · subst hother
        simp [PgActionLedger.receipt, PgActionLedger.receiptRow, List.find?_append, hrow]
      · have hbeq : (key == other) = false := beq_false_of_ne (Ne.symm hother)
        simp [PgActionLedger.receipt, PgActionLedger.receiptRow, List.find?_append, hother, hbeq]
  | some row =>
      obtain ⟨existing, hexisting, hjson⟩ := h.receiptRow_eq_some hrow
      simp only [hexisting, hjson, waits_toJson]
      cases happroval : existing.approval with
      | none => simpa using h
      | some id =>
          simp only [Option.isSome_some, if_true, Option.isNone_some, Bool.false_eq_true, if_false]
          refine h.set_receipt fun other => ?_
          have hkeep : ((fun r : ReceiptRow => r.idempotencyKey == other) ∘ fun r : ReceiptRow =>
              if r.idempotencyKey = key then (⟨key, result.toJson, now⟩ : ReceiptRow) else r)
              = fun r => r.idempotencyKey == other := by
            funext r
            by_cases hr : r.idempotencyKey = key <;> simp [hr]
          simp only [PgActionLedger.receipt, PgActionLedger.receiptRow, List.find?_map, hkeep]
          by_cases hother : other = key
          · subst hother
            simp only [PgActionLedger.receiptRow] at hrow
            have hkey : row.idempotencyKey = other := by simpa using List.find?_some hrow
            simp [hrow, hkey]
          · cases hfound : p.receipts.find? fun r => r.idempotencyKey == other with
            | none => simp [hother]
            | some found =>
                have hkey : found.idempotencyKey = other := by simpa using List.find?_some hfound
                simp [hother, hkey]

theorem Refines.recordResolution (h : Refines m p) {resolution : ActionResolution}
    (hsendable : PgActionLedger.sendable [resolution.id, resolution.actionKey] resolution.toJson
      = true) :
    Refines (m.recordResolution resolution).2 (p.recordResolution resolution).2 := by
  unfold ActionLedger.recordResolution PgActionLedger.recordResolution
  rw [hsendable, if_neg (by decide : ¬(!true) = true)]
  have hid := h.ids resolution.id
  cases hprior : m.resolutionIds.get? resolution.id with
  | some prior =>
      rw [hprior] at hid
      obtain ⟨row, hrow, hjson⟩ := Option.map_eq_some_iff.1 hid
      simp only [hrow]
      split
      · split
        · exact h
        · exact h
      · split
        · split
          · exact h
          · exact h
        · split
          · exact h
          · exact h
  | none =>
      rw [hprior] at hid
      simp only [Option.map_eq_none_iff.1 hid, h.hasIntent]
      by_cases hintent : (!m.intents.has resolution.actionKey) = true
      · simpa only [hintent, if_true] using h
      simp only [if_neg hintent]
      refine ⟨h.intents, h.keys, h.receipts, fun key => ?_, fun id => ?_, fun id r hr => ?_⟩
      · rw [List.filter_append, List.map_append, h.resolutions, JsMap.get?_set]
        by_cases hkey : resolution.actionKey = key
        · simp [hkey]
        · have hbeq : (resolution.actionKey == key) = false := beq_false_of_ne hkey
          simp [hbeq, Ne.symm hkey]
      · rw [List.find?_append, Option.map_or, h.ids, JsMap.get?_set]
        by_cases hidEq : id = resolution.id
        · subst hidEq
          simp [hprior]
        · have hbeq : (resolution.id == id) = false := beq_false_of_ne (Ne.symm hidEq)
          simp [hidEq, hbeq]
      · rw [JsMap.get?_set] at hr
        split at hr
        · cases hr
          simpa using hintent
        · exact h.known id r hr

end

end LingxiOS
