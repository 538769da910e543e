-- SUMMARY: What one change does to the documents of its scope, and what a batch does.
import LingxiOS.Memory.Laws

/-! # Changes

One change answers one document or one deletion, touches the documents it names, and
leaves no source in them that is neither the call's nor one the scope had. -/

namespace LingxiOS

namespace Memories

/-- The documents a change names. -/
def MemoryChange.targets : MemoryChange → List Versioned
  | .create _ => []
  | .update target _ | .move target _ | .expire target | .delete target => [target]
  | .merge target _ from_ => target :: from_

namespace MemoryCall

variable {call : MemoryCall} {documents documents' : Documents} {target : Versioned}
  {row : DocumentRow} {source : MemorySource} {sources : List MemorySource}
  {state state' : Progress} {change : MemoryChange} {index : Nat}

/-! ## Sources -/

/-- A source the call brings, or one a document of the scope already has. -/
def Accounted (call : MemoryCall) (documents : Documents) (source : MemorySource) : Prop :=
  source ∈ call.context.sources ∨ ∃ key row, documents.get? key = some row
    ∧ row.scope = call.scope ∧ source ∈ row.sources

/-- A document that was written is one of the scope, and its sources are accounted for. -/
def Sourced (call : MemoryCall) (documents documents' : Documents) : Prop :=
  ∀ key row, documents'.get? key = some row → documents.get? key = some row
    ∨ row.scope = call.scope ∧ ∀ source ∈ row.sources, call.Accounted documents source

theorem Sourced.refl (documents : Documents) : call.Sourced documents documents :=
  fun _ _ hrow => .inl hrow

theorem Sourced.accounted (h : call.Sourced documents documents')
    (hsource : call.Accounted documents' source) : call.Accounted documents source := by
  rcases hsource with hcall | ⟨key, row, hrow, hscope, hmem⟩
  · exact .inl hcall
  · rcases h key row hrow with hold | ⟨-, hsources⟩
    · exact .inr ⟨key, row, hold, hscope, hmem⟩
    · exact hsources source hmem

theorem Sourced.trans {documents'' : Documents} (h : call.Sourced documents documents')
    (h' : call.Sourced documents' documents'') : call.Sourced documents documents'' := by
  intro key row hrow
  rcases h' key row hrow with hold | ⟨hscope, hsources⟩
  · exact h key row hold
  · exact .inr ⟨hscope, fun source hsource => h.accounted (hsources source hsource)⟩

theorem Sourced.set {key : String × String} (hscope : row.scope = call.scope)
    (hsources : ∀ source ∈ row.sources, call.Accounted documents source) :
    call.Sourced documents (documents.set key row) := by
  intro key' row' hrow'
  rw [JsMap.get?_set] at hrow'
  split at hrow'
  · cases hrow'
    exact .inr ⟨hscope, hsources⟩
  · exact .inl hrow'

theorem mem_of_mem_distinctSources (h : source ∈ call.distinctSources sources) : source ∈ sources := by
  have hfold : ∀ (sources : List MemorySource) (distinct : JsMap String MemorySource),
      (sources.foldl (fun distinct source =>
        distinct.set (call.env.memoryDigest (.source source)) source) distinct).values.Forall
          (fun source => source ∈ sources ∨ source ∈ distinct.values) := by
    intro sources
    induction sources with
    | nil => exact fun distinct => List.forall_iff_forall_mem.mpr fun _ h => .inr h
    | cons head rest ih =>
        intro distinct
        refine List.forall_iff_forall_mem.mpr fun source hsource => ?_
        rcases List.forall_iff_forall_mem.mp (ih _) source hsource with hrest | hset
        · exact .inl (List.mem_cons_of_mem head hrest)
        · obtain ⟨key, hkey⟩ := JsMap.mem_values_iff.mp hset
          rw [JsMap.get?_set] at hkey
          split at hkey
          · exact .inl (by rw [← Option.some.inj hkey]; exact List.mem_cons_self)
          · exact .inr (JsMap.mem_values_iff.mpr ⟨key, hkey⟩)
  rcases List.forall_iff_forall_mem.mp (hfold sources .empty) source h with hmem | hempty
  · exact hmem
  · cases hempty

theorem mergeSources_eq_ok {merged : List MemorySource} (h : call.mergeSources sources = .ok merged)
    (hsource : source ∈ merged) : source ∈ sources ∨ source ∈ call.context.sources := by
  unfold mergeSources at h
  rw [Except.guard_eq_ok_iff] at h
  cases h.2
  exact List.mem_append.mp (mem_of_mem_distinctSources hsource)

/-! ## Reading and writing -/

theorem get_eq_ok (h : call.get documents target = .ok row) :
    documents.get? (call.key target.id) = some row ∧ row.scope = call.scope
      ∧ row.version = target.expectedVersion := by
  unfold get at h
  cases hread : call.readMemory documents target.id with
  | none =>
      rw [hread] at h
      cases h
  | some found =>
      rw [hread] at h
      dsimp only at h
      rw [Except.guard_eq_ok_iff, Except.guard_eq_ok_iff, not_ne_iff] at h
      obtain ⟨hversion, -, h⟩ := h
      have hfound : found = row := by
        split at h
        · exact Except.ok.inj h
        · obtain ⟨-, -, h⟩ := Except.bind_ok h
          exact Except.ok.inj h
      subst hfound
      obtain ⟨hstored, hscope⟩ := Option.filter_eq_some_iff.mp hread
      exact ⟨hstored, (of_decide_eq_true hscope).1, hversion⟩

theorem accounted_of_get (h : call.get documents target = .ok row) (hsource : source ∈ row.sources) :
    call.Accounted documents source := by
  obtain ⟨hrow, hscope, -⟩ := get_eq_ok h
  exact .inr ⟨_, row, hrow, hscope, hsource⟩

theorem accounted_of_merge {merged : List MemorySource} (h : call.mergeSources sources = .ok merged)
    (hsources : ∀ source ∈ sources, call.Accounted documents source) :
    ∀ source ∈ merged, call.Accounted documents source := by
  intro source hsource
  rcases mergeSources_eq_ok h hsource with hold | hnew
  · exact hsources source hold
  · exact .inl hnew

theorem writeRow_eq_ok {current : Option DocumentRow} {draft : Draft}
    (h : call.writeRow current draft sources = .ok row) :
    row.scope = call.scope ∧ row.sources = sources ∧ row.version = current.elim 1 (·.version + 1) := by
  unfold writeRow at h
  obtain ⟨_, -, h⟩ := Except.bind_ok h
  obtain ⟨_, -, h⟩ := Except.bind_ok h
  obtain ⟨_, -, h⟩ := Except.bind_ok h
  obtain ⟨_, -, h⟩ := Except.bind_ok h
  obtain ⟨_, -, h⟩ := Except.bind_ok h
  cases (Except.guard_eq_ok_iff.mp h).2
  exact ⟨rfl, rfl, rfl⟩

/-- The id a document is saved under. -/
def savedId (call : MemoryCall) (current : Option (String × DocumentRow)) (index : Nat) : String :=
  (current.map Prod.fst).getD (call.documentId index)

theorem save_eq_ok {current : Option (String × DocumentRow)} {draft : Draft}
    {saved : MemoryDocument × Documents}
    (h : call.save documents current draft sources index = .ok saved) : ∃ row,
      saved = (memoryDocument (call.savedId current index) row,
        documents.set (call.key (call.savedId current index)) row)
      ∧ row.scope = call.scope ∧ row.sources = sources
      ∧ row.version = (current.map Prod.snd).elim 1 (·.version + 1) := by
  unfold save at h
  obtain ⟨-, -, h⟩ := Except.bind_ok h
  obtain ⟨row, hwrite, h⟩ := Except.bind_ok h
  obtain ⟨left, hsave, h⟩ := Except.bind_ok h
  unfold saveRow at hsave
  rw [Except.guard_eq_ok_iff, Except.guard_eq_ok_iff] at hsave
  cases hsave.2.2
  cases h
  exact ⟨row, rfl, writeRow_eq_ok hwrite⟩

/-! ## One change -/

/-- The document a change answers, and the document it deletes. -/
def answeredId (call : MemoryCall) (change : MemoryChange × Nat) : Option String :=
  match change.1 with
  | .create _ => some (call.documentId change.2)
  | .update target _ | .move target _ | .expire target | .merge target _ _ => some target.id
  | .delete _ => none

def deletedId (change : MemoryChange × Nat) : Option String :=
  match change.1 with
  | .delete target => some target.id
  | _ => none

/-- What a change does: its answer, the documents it leaves alone, the first document it names,
    and where the sources come from. -/
structure Made (call : MemoryCall) (change : MemoryChange × Nat) (state state' : Progress) : Prop where
  answered : state'.1.documents.map MemoryDocument.id
    = state.1.documents.map MemoryDocument.id ++ (call.answeredId change).toList
  deleted : state'.1.deleted = state.1.deleted ++ (deletedId change).toList
  frame : (∀ content, change.1 ≠ .create content) → ∀ id,
    (∀ target ∈ change.1.targets, target.id ≠ id) →
    state'.2.get? (call.key id) = state.2.get? (call.key id)
  target : ∀ target ∈ change.1.targets.head?, ∃ row, state.2.get? (call.key target.id) = some row
    ∧ state'.2.get? (call.key target.id) ≠ some row
  sourced : call.Sourced state.2 state'.2

theorem key_ne {id id' : String} (h : id' ≠ id) : call.key id ≠ call.key id' :=
  fun hkey => h (Prod.mk.inj hkey).2.symm

/-- A change that writes the document it read under a later version. -/
theorem made_of_set {current new : DocumentRow} (hget : call.get state.2 target = .ok current)
    (hbetween : ∀ id, (∀ other ∈ change.targets, other.id ≠ id) →
      documents.get? (call.key id) = state.2.get? (call.key id))
    (hdocuments : call.Sourced state.2 documents)
    (hnew : new.scope = call.scope ∧ new.version = current.version + 1
      ∧ ∀ source ∈ new.sources, call.Accounted state.2 source)
    (htarget : change.targets.head? = some target)
    (hanswered : call.answeredId (change, index) = some target.id)
    (hdeleted : deletedId (change, index) = none) :
    call.Made (change, index) state
      (state.add (memoryDocument target.id new, documents.set (call.key target.id) new)) := by
  obtain ⟨hscope, hversion, hsources⟩ := hnew
  obtain ⟨hrow, -, -⟩ := get_eq_ok hget
  refine ⟨?_, ?_, ?_, ?_, ?_⟩
  · rw [hanswered]
    exact List.map_append
  · rw [hdeleted]
    exact (List.append_nil _).symm
  · intro _ id hid
    have hne : target.id ≠ id := hid target (List.mem_of_mem_head? htarget)
    exact (JsMap.get?_set_of_ne _ (key_ne hne)).trans (hbetween id hid)
  · intro other hother
    rw [htarget] at hother
    cases hother
    refine ⟨current, hrow, ?_⟩
    intro hsame
    rw [show (state.add (memoryDocument target.id new, documents.set (call.key target.id) new)).2
      = documents.set (call.key target.id) new from rfl, JsMap.get?_set_self] at hsame
    cases hsame
    omega
  · intro key row hset
    rw [show (state.add (memoryDocument target.id new, documents.set (call.key target.id) new)).2
      = documents.set (call.key target.id) new from rfl, JsMap.get?_set] at hset
    split at hset
    · cases hset
      exact .inr ⟨hscope, hsources⟩
    · exact hdocuments key row hset

/-! ## Donors -/

theorem retireDonor_eq_ok {donor : Versioned} {before after : List MemorySource × Documents}
    (h : call.retireDonor before donor = .ok after) :
    call.Sourced before.2 after.2
      ∧ (∀ id, donor.id ≠ id → after.2.get? (call.key id) = before.2.get? (call.key id))
      ∧ ∀ source ∈ after.1, source ∈ before.1 ∨ call.Accounted before.2 source := by
  obtain ⟨row, hget, h⟩ := Except.bind_ok h
  obtain ⟨donorSources, hmerge, h⟩ := Except.bind_ok h
  cases h
  have haccounted : ∀ source ∈ row.sources, call.Accounted before.2 source :=
    fun _ => accounted_of_get hget
  refine ⟨.set (get_eq_ok hget).2.1 ?_, ?_, ?_⟩
  · exact accounted_of_merge hmerge haccounted
  · intro id hid
    exact JsMap.get?_set_of_ne _ (key_ne hid)
  · intro source hsource
    rcases List.mem_append.mp (mem_of_mem_distinctSources hsource) with hbefore | hrow
    · exact .inl hbefore
    · exact .inr (haccounted source hrow)

theorem retireDonors_eq_ok {donors : List Versioned} {before after : List MemorySource × Documents}
    (h : donors.foldlM call.retireDonor before = .ok after) :
    call.Sourced before.2 after.2
      ∧ (∀ id, (∀ donor ∈ donors, donor.id ≠ id) →
        after.2.get? (call.key id) = before.2.get? (call.key id))
      ∧ ∀ source ∈ after.1, source ∈ before.1 ∨ call.Accounted before.2 source := by
  induction donors generalizing before with
  | nil =>
      cases h
      exact ⟨.refl _, fun _ _ => rfl, fun _ => .inl⟩
  | cons donor donors ih =>
      obtain ⟨middle, hdonor, hrest⟩ := Except.foldlM_cons_eq_ok_iff.mp h
      obtain ⟨hsourced, hframe, hsources⟩ := retireDonor_eq_ok hdonor
      obtain ⟨hsourced', hframe', hsources'⟩ := ih hrest
      refine ⟨hsourced.trans hsourced', ?_, ?_⟩
      · intro id hid
        obtain ⟨hdonorId, hrestIds⟩ := List.forall_mem_cons.mp hid
        exact (hframe' id hrestIds).trans (hframe id hdonorId)
      · intro source hsource
        rcases hsources' source hsource with hmiddle | haccounted
        · exact hsources source hmiddle
        · exact .inr (hsourced.accounted haccounted)

/-! ## Every change -/

/-- A change that saves the document it read. -/
theorem made_of_save {current : DocumentRow} {draft : Draft} {saved : MemoryDocument × Documents}
    (hget : call.get state.2 target = .ok current)
    (hbetween : ∀ id, (∀ other ∈ change.targets, other.id ≠ id) →
      documents.get? (call.key id) = state.2.get? (call.key id))
    (hdocuments : call.Sourced state.2 documents)
    (hsources : ∀ source ∈ sources, call.Accounted state.2 source)
    (hsave : call.save documents (some (target.id, current)) draft sources index = .ok saved)
    (htarget : change.targets.head? = some target)
    (hanswered : call.answeredId (change, index) = some target.id)
    (hdeleted : deletedId (change, index) = none) :
    call.Made (change, index) state (state.add saved) := by
  obtain ⟨row, rfl, hscope, rfl, hversion⟩ := save_eq_ok hsave
  exact made_of_set hget hbetween hdocuments ⟨hscope, hversion, hsources⟩ htarget hanswered hdeleted

theorem applyChange_made (h : call.applyChange state (change, index) = .ok state') :
    call.Made (change, index) state state' := by
  unfold applyChange at h
  cases change with
  | create content =>
      obtain ⟨sources, hmerge, h⟩ := Except.bind_ok h
      obtain ⟨-, -, h⟩ := Except.bind_ok h
      obtain ⟨saved, hsave, h⟩ := Except.bind_ok h
      cases h
      obtain ⟨row, rfl, hscope, rfl, -⟩ := save_eq_ok hsave
      refine ⟨List.map_append, (List.append_nil _).symm, ?_, nofun, ?_⟩
      · intro hcreate
        exact absurd rfl (hcreate content)
      · exact .set hscope (accounted_of_merge hmerge nofun)
  | update target content =>
      obtain ⟨current, hget, h⟩ := Except.bind_ok h
      obtain ⟨sources, hmerge, h⟩ := Except.bind_ok h
      obtain ⟨-, -, h⟩ := Except.bind_ok h
      obtain ⟨saved, hsave, h⟩ := Except.bind_ok h
      cases h
      exact made_of_save hget (fun _ _ => rfl) (.refl _)
        (accounted_of_merge hmerge fun _ => accounted_of_get hget) hsave rfl rfl rfl
  | move target path =>
      obtain ⟨current, hget, h⟩ := Except.bind_ok h
      obtain ⟨sources, hmerge, h⟩ := Except.bind_ok h
      obtain ⟨-, -, h⟩ := Except.bind_ok h
      obtain ⟨saved, hsave, h⟩ := Except.bind_ok h
      cases h
      exact made_of_save hget (fun _ _ => rfl) (.refl _)
        (accounted_of_merge hmerge fun _ => accounted_of_get hget) hsave rfl rfl rfl
  | expire target =>
      obtain ⟨current, hget, h⟩ := Except.bind_ok h
      obtain ⟨sources, hmerge, h⟩ := Except.bind_ok h
      cases h
      refine made_of_set hget (fun _ _ => rfl) (.refl _) ⟨(get_eq_ok hget).2.1, rfl, ?_⟩ rfl rfl rfl
      exact accounted_of_merge hmerge fun _ => accounted_of_get hget
  | merge target content from_ =>
      obtain ⟨current, hget, h⟩ := Except.bind_ok h
      obtain ⟨sources, hmerge, h⟩ := Except.bind_ok h
      obtain ⟨-, -, h⟩ := Except.bind_ok h
      obtain ⟨⟨joined, documents⟩, hdonors, h⟩ := Except.bind_ok h
      dsimp only at h
      rw [Except.guard_eq_ok_iff] at h
      obtain ⟨saved, hsave, h⟩ := Except.bind_ok h.2
      cases h
      obtain ⟨hsourced, hframe, hjoined⟩ := retireDonors_eq_ok hdonors
      refine made_of_save hget ?_ hsourced ?_ hsave rfl rfl rfl
      · intro id hid
        exact hframe id (List.forall_mem_cons.mp hid).2
      · intro source hsource
        rcases hjoined source hsource with hmerged | haccounted
        · exact accounted_of_merge hmerge (fun _ => accounted_of_get hget) source hmerged
        · exact haccounted
  | delete target =>
      obtain ⟨current, hget, h⟩ := Except.bind_ok h
      obtain ⟨-, -, h⟩ := Except.bind_ok h
      cases (Except.guard_eq_ok_iff.mp h).2
      refine ⟨(List.append_nil _).symm, rfl, ?_, ?_, ?_⟩
      · intro _ id hid
        exact (JsMap.get?_delete _ _ _).trans
          (if_neg fun hkey => key_ne (hid target List.mem_cons_self) hkey)
      · intro other hother
        cases hother
        refine ⟨current, (get_eq_ok hget).1, ?_⟩
        rw [JsMap.get?_delete, if_pos rfl]
        nofun
      · intro key row hrow
        rw [JsMap.get?_delete] at hrow
        split at hrow
        · cases hrow
        · exact .inl hrow

/-! ## A batch -/

theorem applyChanges_answered {changes : List (MemoryChange × Nat)}
    (h : changes.foldlM call.applyChange state = .ok state') :
    state'.1.documents.map MemoryDocument.id
        = state.1.documents.map MemoryDocument.id ++ changes.filterMap call.answeredId
      ∧ state'.1.deleted = state.1.deleted ++ changes.filterMap deletedId
      ∧ call.Sourced state.2 state'.2 := by
  induction changes generalizing state with
  | nil =>
      cases h
      exact ⟨(List.append_nil _).symm, (List.append_nil _).symm, .refl _⟩
  | cons change changes ih =>
      obtain ⟨middle, hchange, hrest⟩ := Except.foldlM_cons_eq_ok_iff.mp h
      obtain ⟨hanswered, hdeleted, -, -, hsourced⟩ := applyChange_made hchange
      obtain ⟨hanswered', hdeleted', hsourced'⟩ := ih hrest
      refine ⟨?_, ?_, hsourced.trans hsourced'⟩
      · rw [hanswered', hanswered, List.append_assoc]
        cases hid : call.answeredId change with
        | none => rw [List.filterMap_cons_none hid]; rfl
        | some id => rw [List.filterMap_cons_some hid]; rfl
      · rw [hdeleted', hdeleted, List.append_assoc]
        cases hid : deletedId change with
        | none => rw [List.filterMap_cons_none hid]; rfl
        | some id => rw [List.filterMap_cons_some hid]; rfl

/-- Without a document created, what no change names stays. -/
theorem applyChanges_frame {changes : List (MemoryChange × Nat)} {id : String}
    (h : changes.foldlM call.applyChange state = .ok state')
    (hcreate : ∀ change ∈ changes, ∀ content, change.1 ≠ .create content)
    (hid : ∀ change ∈ changes, ∀ target ∈ change.1.targets, target.id ≠ id) :
    state'.2.get? (call.key id) = state.2.get? (call.key id) := by
  induction changes generalizing state with
  | nil =>
      cases h
      rfl
  | cons change changes ih =>
      obtain ⟨middle, hchange, hrest⟩ := Except.foldlM_cons_eq_ok_iff.mp h
      obtain ⟨hcreate, hcreates⟩ := List.forall_mem_cons.mp hcreate
      obtain ⟨hid, hids⟩ := List.forall_mem_cons.mp hid
      exact (ih hrest hcreates hids).trans ((applyChange_made hchange).frame hcreate id hid)

end MemoryCall

end Memories

end LingxiOS
