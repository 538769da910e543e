-- SUMMARY: The in-memory step journal: what a run executed, and with which output.
import LingxiOS.Base.Latest
import LingxiOS.Request.Session

/-! # The Step Journal

A translation of `MemoryStepStore`. A step is saved twice: before it runs, with
its input, and after it, with its output. A step with an output never changes
again. -/

namespace LingxiOS

structure ExecutionStep where
  id : String
  requestVersion : Nat
  kind : String
  input : JsonObject
  output : Option ToolOutput := none
  artifacts : List KernelArtifact := []

def ExecutionStep.toJson (step : ExecutionStep) : Json :=
  .obj ([("id", .str step.id), ("requestVersion", .num step.requestVersion),
      ("kind", .str step.kind), ("input", .obj step.input)]
    ++ optionalField "output" step.output ToolOutput.toJson
    ++ [("artifacts", .arr (step.artifacts.map KernelArtifact.toJson))])

/-- The steps of all works, under the work's and the step's id. -/
structure StepStore where
  entries : JsMap (String × String) ExecutionStep

namespace StepStore

def init : StepStore := ⟨.empty⟩

/-- A saved step may only be completed, or saved again as it is. -/
def accepts (prior step : ExecutionStep) : Bool :=
  Json.deepEqual (.obj prior.input) (.obj step.input) && prior.kind == step.kind
    && prior.requestVersion == step.requestVersion
    && (prior.output.isNone || Json.deepEqual prior.toJson step.toJson)

def save (store : StepStore) (workId : String) (step : ExecutionStep) :
    Except String Unit × StepStore :=
  match store.entries.get? (workId, step.id) with
  | some prior =>
      if accepts prior step then (.ok (), ⟨store.entries.set (workId, step.id) step⟩)
      else (.error "step identity changed", store)
  | none => (.ok (), ⟨store.entries.set (workId, step.id) step⟩)

def get (store : StepStore) (workId id : String) (version : Nat) : Option ExecutionStep :=
  (store.entries.get? (workId, id)).filter (fun step => step.requestVersion == version)

/-- The steps of a work, in the order they were first saved. -/
def list (store : StepStore) (workId : String) : List ExecutionStep :=
  (store.entries.entries.filter (fun entry => entry.1.1 == workId)).map Prod.snd

/-! ## The artifacts of a work's steps -/

/-- What the steps of a work record, in the order they were first saved. -/
def journal (store : StepStore) (workId : String) : Journal String KernelArtifact :=
  (store.entries.entries.filter (fun entry => entry.1.1 == workId)).map
    (fun entry => (entry.1.2, entry.2.artifacts))

section Journal

variable {store : StepStore} {workId id : String} {step prior : ExecutionStep}

theorem records_journal :
    (store.journal workId).records = (store.list workId).flatMap ExecutionStep.artifacts := by
  simp [journal, list, Journal.records, List.flatMap_map]

theorem nodup_journal : ((store.journal workId).map Prod.fst).Nodup := by
  have hkeys := (store.entries.filter (fun k _ => k.1 == workId)).nodup
  simp only [JsMap.filter] at hkeys
  unfold journal
  rw [List.map_map]
  have hfst : (store.entries.entries.filter (fun entry => entry.1.1 == workId)).map
      (Prod.fst ∘ fun entry => (entry.1.2, entry.2.artifacts))
      = ((store.entries.entries.filter (fun entry => entry.1.1 == workId)).map Prod.fst).map
        Prod.snd := by
    simp [List.map_map, Function.comp_def]
  rw [hfst]
  apply List.Nodup.map_on _ hkeys
  -- the steps are those of one work, so their ids tell them apart
  intro a ha b hb hid
  have hwork : ∀ c ∈ (store.entries.entries.filter (fun entry => entry.1.1 == workId)).map Prod.fst,
      c.1 = workId := by
    intro c hc
    obtain ⟨entry, hentry, rfl⟩ := List.mem_map.1 hc
    simpa using (List.mem_filter.1 hentry).2
  exact Prod.ext ((hwork a ha).trans (hwork b hb).symm) hid

theorem mem_journal_iff {artifacts : List KernelArtifact} :
    (id, artifacts) ∈ store.journal workId
      ↔ ∃ step, store.entries.get? (workId, id) = some step ∧ step.artifacts = artifacts := by
  simp only [JsMap.get?_eq_some_iff]
  unfold journal
  constructor
  · intro h
    obtain ⟨entry, hentry, heq⟩ := List.mem_map.1 h
    obtain ⟨hmem, hwork⟩ := List.mem_filter.1 hentry
    obtain ⟨⟨work, id'⟩, step⟩ := entry
    cases heq
    rw [beq_iff_eq] at hwork
    cases hwork
    exact ⟨step, hmem, rfl⟩
  · rintro ⟨step, hmem, rfl⟩
    apply List.mem_map.2
    exact ⟨((workId, id), step), List.mem_filter.2 ⟨hmem, by simp⟩, rfl⟩

theorem journal_set_of_none (h : store.entries.get? (workId, id) = none) :
    journal ⟨store.entries.set (workId, id) step⟩ workId
      = store.journal workId ++ [(id, step.artifacts)] := by
  simp [journal, JsMap.entries_set_of_none step h]

theorem journal_set_of_some (h : store.entries.get? (workId, id) = some prior) :
    journal ⟨store.entries.set (workId, id) step⟩ workId
      = (store.journal workId).fill id step.artifacts := by
  unfold journal Journal.fill
  rw [JsMap.entries_set_of_some step h, List.filter_map, List.map_map, List.map_map]
  apply List.map_congr_left
  intro entry hentry
  have hwork : entry.1.1 = workId := by
    simpa using (List.mem_filter.1 hentry).2
  by_cases hid : entry.1.2 = id
  · have hkey : entry.1 = (workId, id) := Prod.ext hwork hid
    simp [hkey]
  · have hkey : entry.1 ≠ (workId, id) := fun hkey => hid (congrArg Prod.snd hkey)
    simp [hkey, hid]

end Journal

end StepStore

end LingxiOS
