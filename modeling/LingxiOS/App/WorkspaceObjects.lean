-- SUMMARY: When the objects of stored checkpoints are kept.
import LingxiOS.App.Workspaces
import Mathlib.Data.List.Induction

/-! # Collected Objects

The collector deletes what no checkpoint names and no attempt may still commit. Between its
look and the deletion, and between the validation of a save and its commit, anything may
happen. What carries a checkpoint through is that a lost lease never comes back, and that a
generation stands for its entries: the one way to break the second is a first checkpoint that
is written over another. -/

namespace LingxiOS.WorkspaceStore

/-! ## What the collector must keep -/

/-- The files of the stored checkpoints are in the store, and were never deleted. -/
def Kept (s : State) : Prop :=
  ∀ session row, s.checkpoints.get? session = some row → ∀ key ∈ objectKeys row.entries,
    s.objects.has key = true ∧ key ∉ s.removed

/-- A save that found no checkpoint does not commit over one. -/
def State.uncontested (s : State) : Action → Bool
  | .commit id => (s.calls.get? id).all fun call =>
      call.phase ≠ .compared none || (s.checkpoints.get? call.session).isNone
  | _ => true

def Uncontested (s : State) (action : Action) : Prop := s.uncontested action = true

/-- The attempt that uploads under a key has been claimed. -/
def Issued (s : State) (key : ObjectKey) : Prop :=
  ∃ row, s.works.get? key.workId = some row ∧ key.fence ≤ row.fence

/-- The attempt that uploaded under a key has lost its work for good. -/
def Dead (s : State) (key : ObjectKey) : Prop :=
  ∃ row, s.works.get? key.workId = some row ∧ key.fence ≤ row.fence
    ∧ (row.fence = key.fence → row.status ≠ .leased)

/-- What no step takes back. -/
structure Later (s s' : State) : Prop where
  issued : ∀ key, Issued s key → Issued s' key
  dead : ∀ key, Dead s key → Dead s' key
  objects : ∀ key, s.objects.has key = true → s'.objects.has key = true ∨ Dead s' key
  generation : ∀ session, (s.load session).generation ≤ (s'.load session).generation
  entries : ∀ session, (s.load session).generation = (s'.load session).generation →
    (s.load session).entries = (s'.load session).entries

/-- The entries a validation has not looked at. -/
def SaveCall.left (call : SaveCall) : List Entry :=
  match call.phase with
  | .validating left => left
  | _ => []

/-- What a save knows in a state: how its snapshot compares with the stored checkpoint, and where
    the files it has looked at come from. -/
structure SaveCall.Sound (s : State) (call : SaveCall) : Prop where
  generation : call.previous.generation ≤ (s.load call.session).generation
  entries : call.previous.generation = (s.load call.session).generation →
    call.previous.entries = (s.load call.session).entries
  base : call.baseGeneration ≤ call.previous.generation
  objects : ∀ key ∈ objectKeys call.entries, key ∈ objectKeys call.left
    ∨ key ∈ objectKeys call.previous.entries
    ∨ State.uploadedBy call key = true ∧ (s.objects.has key = true ∨ Dead s key)
  owns : call.locksWork call.proof.workId = true → ∃ row, s.works.get? call.proof.workId = some row
    ∧ row.fence = call.proof.fence ∧ row.status = .leased
  found : ∀ found, call.phase = .compared found →
    (∀ row ∈ found, s.checkpoints.get? call.session = some row)
      ∧ (State.generationOf found = call.baseGeneration ∨ State.repeated call found = true)

/-- A file of a stored checkpoint, which no pass is about to delete. -/
structure Spared (s : State) (key : ObjectKey) : Prop where
  stored : s.objects.has key = true
  kept : key ∉ s.removed
  condemned : ∀ id pass, s.passes.get? id = some pass → pass.condemned ≠ some key

structure Pass.Sound (s : State) (pass : Pass) : Prop where
  page : ∀ listed ∈ pass.page, Issued s listed.1
  condemned : ∀ key, pass.condemned = some key → Dead s key

structure Inv (s : State) : Prop where
  stored : ∀ session row, s.checkpoints.get? session = some row →
    ∀ key ∈ objectKeys row.entries, Spared s key
  uploads : ∀ key, s.objects.has key = true → Issued s key ∧ key ∉ s.removed
  calls : ∀ id call, s.calls.get? id = some call → call.Sound s
  passes : ∀ id pass, s.passes.get? id = some pass → pass.Sound s

variable {s s' : State} {key : ObjectKey} {id : Nat} {call : SaveCall} {pass : Pass}
  {workId session : String} {row new : WorkRow}

theorem Later.refl_of (hworks : s'.works = s.works) (hcheckpoints : s'.checkpoints = s.checkpoints)
    (hobjects : ∀ key, s.objects.has key = true → s'.objects.has key = true ∨ Dead s' key) :
    Later s s' where
  issued key h := by simpa only [Issued, hworks] using h
  dead key h := by simpa only [Dead, hworks] using h
  objects := hobjects
  generation session := by simp only [State.load, hcheckpoints, Nat.le_refl]
  entries session _ := by simp only [State.load, hcheckpoints]

theorem SaveCall.Sound.later (h : call.Sound s) (hlater : Later s s')
    (hworks : call.locksWork call.proof.workId = true →
      s'.works.get? call.proof.workId = s.works.get? call.proof.workId)
    (hcheckpoints : call.locksCheckpoint call.session = true →
      s'.checkpoints.get? call.session = s.checkpoints.get? call.session) : call.Sound s' where
  generation := Nat.le_trans h.generation (hlater.generation _)
  entries heq := by
    have hsame : (s.load call.session).generation = (s'.load call.session).generation :=
      Nat.le_antisymm (hlater.generation _) (heq ▸ h.generation)
    rw [h.entries (heq.trans hsame.symm), hlater.entries _ hsame]
  base := h.base
  objects key hkey := (h.objects key hkey).imp_right fun hor => hor.imp_right fun hown =>
    ⟨hown.1, hown.2.elim (hlater.objects key) fun hdead => .inr (hlater.dead key hdead)⟩
  owns hlocks := by
    rw [hworks hlocks]
    exact h.owns hlocks
  found found hphase := by
    refine ⟨fun row hrow => ?_, (h.found found hphase).2⟩
    have hlocks : call.locksCheckpoint call.session = true := by
      rw [Option.mem_def.1 hrow] at hphase
      simp [SaveCall.locksCheckpoint, hphase]
    rw [hcheckpoints hlocks]
    exact (h.found found hphase).1 row hrow

theorem Pass.Sound.later (h : pass.Sound s) (hlater : Later s s') : pass.Sound s' where
  page listed hlisted := hlater.issued _ (h.page listed hlisted)
  condemned key hkey := hlater.dead key (h.condemned key hkey)

theorem Spared.of_eq (h : Spared s key) (hobjects : s'.objects = s.objects)
    (hremoved : s'.removed = s.removed) (hpasses : s'.passes = s.passes) : Spared s' key where
  stored := hobjects ▸ h.stored
  kept := hremoved ▸ h.kept
  condemned := hpasses ▸ h.condemned

/-! ## Works -/

/-- A work is taken no further back: it is leased under its fence only as it was. -/
structure Onward (row new : WorkRow) : Prop where
  fence : row.fence ≤ new.fence
  leased : new.fence = row.fence → new.status = .leased → row.status = .leased

theorem get?_setWork : (s.setWork workId new).works.get? session
    = if session = workId then some new else s.works.get? session :=
  JsMap.get?_set _ _ _ _

theorem Issued.setWork (h : Issued s key)
    (honward : ∀ row, s.works.get? workId = some row → Onward row new) :
    Issued (s.setWork workId new) key := by
  obtain ⟨row, hrow, hfence⟩ := h
  unfold Issued
  rw [get?_setWork]
  split
  case isTrue heq =>
    rw [heq] at hrow
    exact ⟨new, rfl, Nat.le_trans hfence (honward row hrow).fence⟩
  case isFalse => exact ⟨row, hrow, hfence⟩

theorem Dead.setWork (h : Dead s key)
    (honward : ∀ row, s.works.get? workId = some row → Onward row new) :
    Dead (s.setWork workId new) key := by
  obtain ⟨row, hrow, hfence, hleased⟩ := h
  unfold Dead
  rw [get?_setWork]
  split
  case isTrue heq =>
    rw [heq] at hrow
    have hon := honward row hrow
    refine ⟨new, rfl, Nat.le_trans hfence hon.fence, fun hsame hnew => ?_⟩
    have hrowFence : row.fence = key.fence := Nat.le_antisymm (hsame ▸ hon.fence) hfence
    exact hleased hrowFence (hon.leased (hsame.trans hrowFence.symm) hnew)
  case isFalse => exact ⟨row, hrow, hfence, hleased⟩

theorem SaveCall.not_locksWork (hfree : s.workLocked workId = false) (hcall : s.calls.get? id = some call) :
    call.locksWork workId = false := by
  have hmem : call ∈ s.calls.values := JsMap.mem_values_iff.2 ⟨id, hcall⟩
  simpa using List.any_eq_false.1 hfree call hmem

theorem Inv.setWork (h : Inv s)
    (honward : ∀ row, s.works.get? workId = some row → Onward row new)
    (hfree : ∀ row, s.works.get? workId = some row → s.workLocked workId = false) :
    Inv (s.setWork workId new) := by
  have hlater : Later s (s.setWork workId new) := {
    issued := fun key hissued => hissued.setWork honward
    dead := fun key hdead => hdead.setWork honward
    objects := fun key => .inl
    generation := fun session => Nat.le_refl _
    entries := fun session _ => rfl }
  refine ⟨fun session row hrow key hkey => (h.stored session row hrow key hkey).of_eq rfl rfl rfl,
    fun key hkey => (h.uploads key hkey).imp_left (hlater.issued key), fun id call hcall => ?_,
    fun id pass hpass => (h.passes id pass hpass).later hlater⟩
  refine (h.calls id call hcall).later hlater (fun hlocks => ?_) fun _ => rfl
  obtain ⟨row, hrow, -⟩ := (h.calls id call hcall).owns hlocks
  rw [get?_setWork, if_neg]
  rintro rfl
  rw [call.not_locksWork (hfree row hrow) hcall] at hlocks
  cases hlocks

theorem Inv.enqueue (h : Inv s) (hs : s.enqueue workId session = some s') : Inv s' := by
  unfold State.enqueue at hs
  split at hs
  case isTrue => cases hs
  case isFalse hnew =>
    cases hs
    have hnone : s.works.get? workId = none := by simpa using hnew
    refine h.setWork ?_ ?_
    all_goals
      intro row hrow
      rw [hnone] at hrow
      cases hrow

theorem Inv.claim {token : String} {ttl : Nat} (h : Inv s) (hs : s.claim workId token ttl = some s') :
    Inv s' := by
  obtain ⟨row, hrow, hs⟩ := Option.bind_eq_some_iff.1 hs
  split at hs
  case isFalse => cases hs
  case isTrue hclaim =>
    cases hs
    refine h.setWork (fun other hother => ?_) fun _ _ => hclaim.2.2.2
    cases hrow.symm.trans hother
    exact ⟨Nat.le_succ _, fun hsame => absurd hsame (Nat.succ_ne_self _)⟩

theorem Inv.heartbeat {ttl : Nat} (h : Inv s) (hs : s.heartbeat workId ttl = some s') : Inv s' := by
  obtain ⟨row, hrow, hs⟩ := Option.bind_eq_some_iff.1 hs
  split at hs
  case isFalse => cases hs
  case isTrue hlive =>
    cases hs
    refine h.setWork (fun other hother => ?_) fun _ _ => hlive.2.2
    cases hrow.symm.trans hother
    exact ⟨Nat.le_refl _, fun _ => id⟩

theorem Inv.move {status : WorkStatus} {bump : Bool} (h : Inv s)
    (hs : s.move workId status bump = some s') : Inv s' := by
  obtain ⟨row, hrow, hs⟩ := Option.bind_eq_some_iff.1 hs
  split at hs
  case isFalse => cases hs
  case isTrue hmove =>
    cases hs
    refine h.setWork (fun other hother => ?_) fun _ _ => hmove.2
    cases hrow.symm.trans hother
    exact ⟨Nat.le_add_right _ _, fun _ hleased => absurd hleased hmove.1⟩

theorem Inv.cancel (h : Inv s) (hs : s.cancel workId = some s') : Inv s' := by
  obtain ⟨row, hrow, hs⟩ := Option.bind_eq_some_iff.1 hs
  split at hs
  case isFalse => cases hs
  case isTrue hfree =>
    cases hs
    refine h.setWork (fun other hother => ?_) fun _ _ => hfree
    cases hrow.symm.trans hother
    exact ⟨Nat.le_refl _, fun _ => id⟩

/-! ## Objects -/

theorem Inv.put {size : Nat} (h : Inv s) (hs : s.put key size = some s') : Inv s' := by
  obtain ⟨row, hrow, hs⟩ := Option.bind_eq_some_iff.1 hs
  split at hs
  case isFalse => cases hs
  case isTrue hput =>
    obtain ⟨-, hfence, -, hremoved⟩ := hput
    cases hs
    have hhas (other : ObjectKey) : (s.objects.set key ⟨size, key.sha256, s.now⟩).has other = true
        ↔ other = key ∨ s.objects.has other = true := by
      rw [JsMap.has, JsMap.get?_set]
      split
      case isTrue heq => simp [heq]
      case isFalse hne => simp [JsMap.has, hne]
    have hlater : Later s { s with objects := s.objects.set key ⟨size, key.sha256, s.now⟩ } :=
      .refl_of rfl rfl fun other hother => .inl ((hhas other).2 (.inr hother))
    refine ⟨fun session row hrow other hother => ?_, fun other hother => ?_,
      fun id call hcall => (h.calls id call hcall).later hlater (fun _ => rfl) fun _ => rfl,
      fun id pass hpass => (h.passes id pass hpass).later hlater⟩
    · have hspared := h.stored session row hrow other hother
      exact ⟨(hhas other).2 (.inr hspared.stored), hspared.kept, hspared.condemned⟩
    · obtain rfl | hother := (hhas other).1 hother
      · exact ⟨⟨row, hrow, hfence⟩, by simpa using hremoved⟩
      · exact h.uploads other hother

/-! ## Saves -/

theorem get?_dropCall {other : Nat} {saved : SaveCall} (h : (s.dropCall id).calls.get? other = some saved) :
    other ≠ id ∧ s.calls.get? other = some saved := by
  unfold State.dropCall at h
  rw [JsMap.get?_delete] at h
  split at h
  case isTrue => cases h
  case isFalse hne => exact ⟨hne, h⟩

theorem Inv.dropCall (h : Inv s) : Inv (s.dropCall id) where
  stored session row hrow key hkey := (h.stored session row hrow key hkey).of_eq rfl rfl rfl
  uploads := h.uploads
  calls other saved hsaved :=
    (h.calls other saved (get?_dropCall hsaved).2).later (.refl_of rfl rfl fun _ => .inl)
      (fun _ => rfl) fun _ => rfl
  passes other pass hpass := (h.passes other pass hpass).later (.refl_of rfl rfl fun _ => .inl)

theorem Inv.setCall (h : Inv s) (hcall : call.Sound s) : Inv (s.setCall id call) where
  stored session row hrow key hkey := (h.stored session row hrow key hkey).of_eq rfl rfl rfl
  uploads := h.uploads
  calls other saved hsaved := by
    have hsound : saved.Sound s := by
      unfold State.setCall at hsaved
      rw [JsMap.get?_set] at hsaved
      split at hsaved
      case isTrue =>
        cases hsaved
        exact hcall
      case isFalse => exact h.calls other saved hsaved
    exact hsound.later (.refl_of rfl rfl fun _ => .inl) (fun _ => rfl) fun _ => rfl
  passes other pass hpass := (h.passes other pass hpass).later (.refl_of rfl rfl fun _ => .inl)

theorem Inv.validate {proof : LeaseProof} {stepId : String} {requestVersion baseGeneration : Nat}
    {entries : List Entry} (h : Inv s)
    (hs : s.validate id proof stepId requestVersion baseGeneration entries = some s') : Inv s' := by
  obtain ⟨row, hrow, hs⟩ := Option.bind_eq_some_iff.1 hs
  dsimp only at hs
  split at hs
  case isFalse => cases hs
  case isTrue hstart =>
    cases hs
    refine h.setCall ⟨Nat.le_refl _, fun _ => rfl, ?_, fun key hkey => .inl hkey,
      fun hlocks => (by cases hlocks), fun _ hphase => (by cases hphase)⟩
    show baseGeneration ≤ (s.load row.session).generation
    omega

/-- A save goes on to a phase in which it has no entries left. -/
theorem SaveCall.Sound.onward (h : call.Sound s) {phase : Phase} (hleft : call.left = [])
    (howns : ({ call with phase } : SaveCall).locksWork call.proof.workId = true →
      ∃ row, s.works.get? call.proof.workId = some row ∧ row.fence = call.proof.fence
        ∧ row.status = .leased)
    (hfound : ∀ found, phase = .compared found →
      (∀ row ∈ found, s.checkpoints.get? call.session = some row)
        ∧ (State.generationOf found = call.baseGeneration ∨ State.repeated call found = true)) :
    ({ call with phase } : SaveCall).Sound s where
  generation := h.generation
  entries := h.entries
  base := h.base
  objects key hkey := by
    obtain hnone | hknown := h.objects key hkey
    · rw [hleft] at hnone
      cases hnone
    · exact .inr hknown
  owns := howns
  found found hphase := by
    obtain ⟨hrow, hgeneration⟩ := hfound found hphase
    refine ⟨hrow, hgeneration.imp_right fun hrepeated => ?_⟩
    cases found with
    | none => exact hrepeated
    | some row => exact hrepeated

theorem mem_objectKeys_of_reused {previous : WorkspaceSnapshot} {size : Nat} {sha256 : String}
    (h : State.reused previous size sha256 key = true) : key ∈ objectKeys previous.entries := by
  unfold State.reused at h
  split at h
  case h_2 => cases h
  case h_1 hknown =>
    have hmem := List.mem_of_find?_eq_some hknown
    have hkey := List.find?_some hknown
    exact List.mem_filterMap.2 ⟨_, List.mem_reverse.1 hmem, by simpa using hkey⟩

theorem has_of_readable {size : Nat} {sha256 : String} (h : s.readable size sha256 key = true) :
    s.objects.has key = true := by
  unfold State.readable at h
  obtain ⟨object, hobject, -⟩ := (Option.any_eq_true _ _).1 h
  rw [JsMap.has, hobject]
  rfl

theorem Inv.read (h : Inv s) (hs : s.read id = some s') : Inv s' := by
  obtain ⟨call, hcall, hs⟩ := Option.bind_eq_some_iff.1 hs
  have hsound := h.calls id call hcall
  split at hs
  case h_1 path left hphase =>
    cases hs
    refine h.setCall ⟨hsound.generation, hsound.entries, hsound.base, fun key hkey => ?_, nofun, nofun⟩
    have hobjects := hsound.objects key hkey
    rw [SaveCall.left, hphase] at hobjects
    exact hobjects
  case h_2 path size sha256 read left hphase =>
    split at hs
    case isFalse =>
      cases hs
      exact h.dropCall
    case isTrue hread =>
      cases hs
      refine h.setCall ⟨hsound.generation, hsound.entries, hsound.base, fun key hkey => ?_, nofun, nofun⟩
      have hobjects := hsound.objects key hkey
      rw [SaveCall.left, hphase] at hobjects
      obtain hleft | hknown := hobjects
      · obtain rfl | hleft := List.mem_cons.1 hleft
        · rw [Bool.or_eq_true, Bool.and_eq_true] at hread
          obtain hreused | ⟨hown, hreadable⟩ := hread
          · exact .inr (.inl (mem_objectKeys_of_reused hreused))
          · exact .inr (.inr ⟨hown, .inl (has_of_readable hreadable)⟩)
        · exact .inl hleft
      · exact .inr hknown
  case h_3 => cases hs

theorem Inv.begin (h : Inv s) (hs : s.begin id = some s') : Inv s' := by
  obtain ⟨call, hcall, hs⟩ := Option.bind_eq_some_iff.1 hs
  split at hs
  case isFalse => cases hs
  case isTrue hphase =>
    cases hs
    refine h.setCall ((h.calls id call hcall).onward ?_ nofun nofun)
    rw [SaveCall.left, hphase]

theorem Inv.lock (h : Inv s) (hs : s.lock id = some s') : Inv s' := by
  obtain ⟨call, hcall, hs⟩ := Option.bind_eq_some_iff.1 hs
  obtain ⟨row, hrow, hs⟩ := Option.bind_eq_some_iff.1 hs
  split at hs
  case h_2 => cases hs
  case h_1 startedAt hphase =>
    split at hs
    case isTrue => cases hs
    case isFalse =>
      split at hs
      case isFalse =>
        cases hs
        exact h.dropCall
      case isTrue howned =>
        cases hs
        refine h.setCall ((h.calls id call hcall).onward ?_ (fun _ => ?_) nofun)
        · rw [SaveCall.left, hphase]
        · exact ⟨row, hrow, howned.1, howned.2.2.1⟩

theorem Inv.compare (h : Inv s) (hs : s.compare id = some s') : Inv s' := by
  obtain ⟨call, hcall, hs⟩ := Option.bind_eq_some_iff.1 hs
  have hsound := h.calls id call hcall
  split at hs
  case isTrue => cases hs
  case isFalse hfree =>
    have hphase : call.phase = .locked := by
      by_contra hne
      exact hfree (.inl hne)
    dsimp only at hs
    split at hs
    case isFalse =>
      cases hs
      exact h.dropCall
    case isTrue hgeneration =>
      cases hs
      refine h.setCall (hsound.onward ?_ (fun _ => hsound.owns ?_) ?_)
      · rw [SaveCall.left, hphase]
      · simp [SaveCall.locksWork, hphase]
      · rintro found ⟨rfl⟩
        exact ⟨fun row hrow => Option.mem_def.1 hrow, hgeneration⟩

/-- A key of a loaded snapshot is one of a stored checkpoint. -/
theorem exists_stored (h : key ∈ objectKeys (s.load session).entries) :
    ∃ row, s.checkpoints.get? session = some row ∧ key ∈ objectKeys row.entries := by
  unfold State.load at h
  split at h
  case h_1 row hrow => exact ⟨row, hrow, h⟩
  case h_2 => cases h

/-- Every file of a save that may commit is one that the collector spares. -/
theorem Inv.spared (h : Inv s) (hcall : s.calls.get? id = some call) (hleft : call.left = [])
    (howns : call.locksWork call.proof.workId = true)
    (hcurrent : call.previous.generation = (s.load call.session).generation)
    (hkey : key ∈ objectKeys call.entries) : Spared s key := by
  have hsound := h.calls id call hcall
  obtain ⟨row, hrow, hfence, hleased⟩ := hsound.owns howns
  obtain hnone | hprevious | ⟨hown, hstored⟩ := hsound.objects key hkey
  · rw [hleft] at hnone
    cases hnone
  · rw [hsound.entries hcurrent] at hprevious
    obtain ⟨stored, hstored, hmem⟩ := exists_stored hprevious
    exact h.stored call.session stored hstored key hmem
  · simp only [State.uploadedBy, Bool.and_eq_true, beq_iff_eq] at hown
    obtain ⟨⟨-, hwork⟩, hkeyFence⟩ := hown
    have halive : ¬Dead s key := by
      rintro ⟨other, hother, -, hdead⟩
      rw [hwork, hrow] at hother
      cases hother
      exact hdead (hfence.trans hkeyFence.symm) hleased
    have hhas : s.objects.has key = true := hstored.resolve_right halive
    exact ⟨hhas, (h.uploads key hhas).2, fun other pass hpass hcondemned =>
      halive ((h.passes other pass hpass).condemned key hcondemned)⟩

theorem not_locksCheckpoint (hfree : s.contested id session = false) {other : Nat} {saved : SaveCall}
    (hne : other ≠ id) (hsaved : s.calls.get? other = some saved) :
    saved.locksCheckpoint session = false := by
  have hentry := List.any_eq_false.1 hfree (other, saved) (JsMap.get?_eq_some_iff.1 hsaved)
  simpa [hne] using hentry

theorem load_setCheckpoint {stored : CheckpointRow} {other : String} :
    (s.setCheckpoint session stored).load other
      = if other = session then ⟨stored.generation, stored.entries⟩ else s.load other := by
  unfold State.load State.setCheckpoint
  rw [JsMap.get?_set]
  by_cases heq : other = session
  · rw [if_pos heq, if_pos heq]
  · rw [if_neg heq, if_neg heq]

theorem Later.setCheckpoint {stored : CheckpointRow}
    (hgrown : (s.load session).generation < stored.generation) :
    Later s (s.setCheckpoint session stored) where
  issued _ h := h
  dead _ h := h
  objects _ := .inl
  generation other := by
    rw [load_setCheckpoint]
    split
    case isTrue heq =>
      rw [heq]
      exact Nat.le_of_lt hgrown
    case isFalse => exact Nat.le_refl _
  entries other := by
    rw [load_setCheckpoint]
    split
    case isTrue heq =>
      rw [heq]
      exact fun hsame => absurd hsame (Nat.ne_of_lt hgrown)
    case isFalse => exact fun _ => rfl

theorem Inv.setCheckpoint {stored : CheckpointRow} (h : Inv s)
    (hgrown : (s.load session).generation < stored.generation)
    (hspared : ∀ key ∈ objectKeys stored.entries, Spared s key)
    (hfree : ∀ id call, s.calls.get? id = some call → call.locksCheckpoint session = false) :
    Inv (s.setCheckpoint session stored) where
  stored other row hrow key hkey := by
    refine Spared.of_eq (s := s) ?_ rfl rfl rfl
    unfold State.setCheckpoint at hrow
    rw [JsMap.get?_set] at hrow
    split at hrow
    case isTrue =>
      cases hrow
      exact hspared key hkey
    case isFalse => exact h.stored other row hrow key hkey
  uploads := h.uploads
  calls id call hcall := by
    refine (h.calls id call hcall).later (.setCheckpoint hgrown) (fun _ => rfl) fun hlocks => ?_
    refine JsMap.get?_set_of_ne _ ?_
    intro heq
    rw [heq, hfree id call hcall] at hlocks
    cases hlocks
  passes id pass hpass := (h.passes id pass hpass).later (.setCheckpoint hgrown)

/-- A save that compared generations, and is not contested, has the current one. -/
theorem Inv.current {found : Option CheckpointRow} (h : Inv s) (huncontested : Uncontested s (.commit id))
    (hcall : s.calls.get? id = some call) (hphase : call.phase = .compared found)
    (hfirst : ¬State.repeated call found = true) :
    State.generationOf found = (s.load call.session).generation
      ∧ call.previous.generation = (s.load call.session).generation := by
  have hsound := h.calls id call hcall
  obtain ⟨hrow, hgeneration⟩ := hsound.found found hphase
  have hbase : State.generationOf found = call.baseGeneration := hgeneration.resolve_right hfirst
  have hload : State.generationOf found = (s.load call.session).generation := by
    cases found with
    | none =>
        have hnone : s.checkpoints.get? call.session = none := by
          simpa [Uncontested, State.uncontested, hcall, hphase] using huncontested
        rw [State.load, hnone]
        rfl
    | some row =>
        rw [State.load, hrow row rfl]
        rfl
  exact ⟨hload, Nat.le_antisymm hsound.generation (hload ▸ hbase ▸ hsound.base)⟩

theorem Inv.commit (h : Inv s) (huncontested : Uncontested s (.commit id)) (hs : s.commit id = some s') :
    Inv s' := by
  obtain ⟨call, hcall, hs⟩ := Option.bind_eq_some_iff.1 hs
  split at hs
  case h_2 => cases hs
  case h_1 found hphase =>
    split at hs
    case isTrue => cases hs
    case isFalse hfree =>
      split at hs
      case isTrue =>
        cases hs
        exact h.dropCall
      case isFalse hfirst =>
        cases hs
        obtain ⟨hload, hcurrent⟩ := h.current huncontested hcall hphase hfirst
        refine h.dropCall.setCheckpoint ?_ (fun key hkey => ?_) fun other saved hsaved => ?_
        · exact hload ▸ Nat.lt_succ_self _
        · have hleft : call.left = [] := by rw [SaveCall.left, hphase]
          have howns : call.locksWork call.proof.workId = true := by simp [SaveCall.locksWork, hphase]
          exact (h.spared hcall hleft howns hcurrent hkey).of_eq rfl rfl rfl
        · obtain ⟨hne, hsaved⟩ := get?_dropCall hsaved
          exact not_locksCheckpoint (Bool.eq_false_iff.2 hfree) hne hsaved

/-! ## The collector -/

theorem Inv.setPass (h : Inv s) (hpass : pass.Sound s)
    (hspares : ∀ session row, s.checkpoints.get? session = some row →
      ∀ key ∈ objectKeys row.entries, pass.condemned ≠ some key) : Inv (s.setPass id pass) where
  stored session row hrow key hkey := by
    have hspared := h.stored session row hrow key hkey
    refine ⟨hspared.stored, hspared.kept, fun other saved hsaved => ?_⟩
    unfold State.setPass at hsaved
    rw [JsMap.get?_set] at hsaved
    split at hsaved
    case isTrue =>
      cases hsaved
      exact hspares session row hrow key hkey
    case isFalse => exact hspared.condemned other saved hsaved
  uploads := h.uploads
  calls other saved hsaved := (h.calls other saved hsaved).later (.refl_of rfl rfl fun _ => .inl)
    (fun _ => rfl) fun _ => rfl
  passes other saved hsaved := by
    have hsound : saved.Sound s := by
      unfold State.setPass at hsaved
      rw [JsMap.get?_set] at hsaved
      split at hsaved
      case isTrue =>
        cases hsaved
        exact hpass
      case isFalse => exact h.passes other saved hsaved
    exact hsound.later (.refl_of rfl rfl fun _ => .inl)

theorem Inv.list {keys : List ObjectKey} (h : Inv s) (hs : s.list id keys = some s') : Inv s' := by
  unfold State.list at hs
  split at hs
  case isTrue => cases hs
  case isFalse =>
    cases hs
    refine h.setPass ⟨fun listed hlisted => ?_, fun _ hkey => (by cases hkey)⟩
      fun _ _ _ _ _ hkey => (by cases hkey)
    obtain ⟨entry, hentry, rfl⟩ := List.mem_map.1 hlisted
    have hget := JsMap.get?_eq_some_iff.2 (List.mem_of_mem_filter hentry)
    refine (h.uploads entry.1 ?_).1
    rw [JsMap.has, hget]
    rfl

theorem not_named (hretained : s.retained key = false)
    {row : CheckpointRow} (hrow : s.checkpoints.get? session = some row) :
    key ∉ objectKeys row.entries := by
  unfold State.retained at hretained
  rw [Bool.or_eq_false_iff] at hretained
  have hmem : row ∈ s.checkpoints.values := JsMap.mem_values_iff.2 ⟨session, hrow⟩
  simpa using List.any_eq_false.1 hretained.1 row hmem

theorem Issued.dead (h : Issued s key) (hretained : s.retained key = false) : Dead s key := by
  obtain ⟨row, hrow, hfence⟩ := h
  unfold State.retained at hretained
  rw [Bool.or_eq_false_iff, hrow] at hretained
  refine ⟨row, hrow, hfence, fun hsame hleased => ?_⟩
  simp [hsame, hleased] at hretained

theorem Inv.inspect (h : Inv s) (hs : s.inspect id = some s') : Inv s' := by
  obtain ⟨pass, hpass, hs⟩ := Option.bind_eq_some_iff.1 hs
  have hsound := h.passes id pass hpass
  split at hs
  case h_2 => cases hs
  case h_1 key updatedAt page hnone hpage =>
    have hlater : ∀ listed ∈ page, Issued s listed.1 := fun listed hlisted =>
      hsound.page listed (hpage ▸ List.mem_cons_of_mem _ hlisted)
    split at hs
    case isTrue =>
      cases hs
      exact h.setPass ⟨hlater, nofun⟩ fun _ _ _ _ _ => nofun
    case isFalse hold =>
      cases hs
      rw [Bool.or_eq_true, not_or] at hold
      have hretained : s.retained key = false := Bool.eq_false_iff.2 hold.2
      have hissued : Issued s key := hsound.page (key, updatedAt) (hpage ▸ List.mem_cons_self)
      refine h.setPass ⟨hlater, ?_⟩ fun session row hrow other hother heq => ?_
      · rintro _ ⟨⟩
        exact hissued.dead hretained
      · cases heq
        exact not_named hretained hrow hother

theorem has_delete {other : ObjectKey} :
    (s.objects.delete key).has other = true ↔ other ≠ key ∧ s.objects.has other = true := by
  rw [JsMap.has, JsMap.get?_delete]
  split
  case isTrue heq => simp [heq]
  case isFalse hne => simp [hne, JsMap.has]

theorem Inv.delete (h : Inv s) (hs : s.delete id = some s') : Inv s' := by
  obtain ⟨pass, hpass, hs⟩ := Option.bind_eq_some_iff.1 hs
  obtain ⟨key, hkey, hs⟩ := Option.bind_eq_some_iff.1 hs
  cases hs
  have hsound := h.passes id pass hpass
  have hset : Inv (s.setPass id ⟨pass.page, none⟩) :=
    h.setPass ⟨hsound.page, nofun⟩ fun _ _ _ _ _ => nofun
  have hdead : Dead s key := hsound.condemned key hkey
  have hlater : Later (s.setPass id ⟨pass.page, none⟩)
      { s.setPass id ⟨pass.page, none⟩ with
        objects := s.objects.delete key, removed := key :: s.removed } := by
    refine .refl_of rfl rfl fun other hother => ?_
    by_cases heq : other = key
    · exact .inr (heq ▸ hdead)
    · exact .inl (has_delete.2 ⟨heq, hother⟩)
  refine ⟨fun session row hrow other hother => ?_, fun other hother => ?_,
    fun other call hcall => (hset.calls other call hcall).later hlater (fun _ => rfl) fun _ => rfl,
    fun other saved hsaved => (hset.passes other saved hsaved).later hlater⟩
  · have hne : other ≠ key := by
      rintro rfl
      exact (h.stored session row hrow other hother).condemned id pass hpass hkey
    have hspared := hset.stored session row hrow other hother
    exact ⟨has_delete.2 ⟨hne, hspared.stored⟩, List.not_mem_cons_of_ne_of_not_mem hne hspared.kept, hspared.condemned⟩
  · obtain ⟨hne, hhas⟩ := has_delete.1 hother
    obtain ⟨hissued, hkept⟩ := h.uploads other hhas
    exact ⟨hissued, List.not_mem_cons_of_ne_of_not_mem hne hkept⟩

theorem Inv.quit (h : Inv s) : Inv { s with passes := s.passes.delete id } := by
  have hget {other : Nat} {pass : Pass} (hpass : (s.passes.delete id).get? other = some pass) :
      s.passes.get? other = some pass := by
    rw [JsMap.get?_delete] at hpass
    split at hpass
    case isTrue => cases hpass
    case isFalse => exact hpass
  have hlater : Later s { s with passes := s.passes.delete id } := .refl_of rfl rfl fun _ => .inl
  refine ⟨fun session row hrow key hkey => ?_, h.uploads,
    fun other call hcall => (h.calls other call hcall).later hlater (fun _ => rfl) fun _ => rfl,
    fun other pass hpass => (h.passes other pass (hget hpass)).later hlater⟩
  have hspared := h.stored session row hrow key hkey
  exact ⟨hspared.stored, hspared.kept, fun other pass hpass => hspared.condemned other pass (hget hpass)⟩

theorem Inv.tick {later : Nat} (h : Inv s) : Inv { s with now := s.now + later } := by
  have hlater : Later s { s with now := s.now + later } := .refl_of rfl rfl fun _ => .inl
  exact ⟨fun session row hrow key hkey => (h.stored session row hrow key hkey).of_eq rfl rfl rfl, h.uploads,
    fun other call hcall => (h.calls other call hcall).later hlater (fun _ => rfl) fun _ => rfl,
    fun other pass hpass => (h.passes other pass hpass).later hlater⟩

/-! ## Runs -/

theorem Inv.initial : Inv .initial := by
  refine ⟨?_, ?_, ?_, ?_⟩ <;> simp [State.initial, JsMap.has]

theorem Inv.step {action : Action} (h : Inv s) (huncontested : Uncontested s action)
    (hs : s.step action = some s') : Inv s' := by
  cases action with
  | tick =>
      cases hs
      exact h.tick
  | enqueue => exact h.enqueue hs
  | claim => exact h.claim hs
  | heartbeat => exact h.heartbeat hs
  | move => exact h.move hs
  | cancel => exact h.cancel hs
  | put => exact h.put hs
  | validate => exact h.validate hs
  | read => exact h.read hs
  | begin => exact h.begin hs
  | lock => exact h.lock hs
  | compare => exact h.compare hs
  | commit => exact h.commit huncontested hs
  | fail =>
      cases hs
      exact h.dropCall
  | list => exact h.list hs
  | inspect => exact h.inspect hs
  | delete => exact h.delete hs
  | quit =>
      cases hs
      exact h.quit

/-- In every run in which no save that found no checkpoint commits over one, the files of the
    stored checkpoints stay in the store. -/
theorem kept_of_uncontested (h : (system.restrict Uncontested).Reachable s) : Kept s := by
  have hinv : Inv s := by
    refine h.invariant ?_ ?_
    · rintro _ rfl
      exact .initial
    · rintro before action after hbefore ⟨huncontested, hstep⟩
      exact hbefore.step huncontested hstep
  intro session row hrow key hkey
  have hspared := hinv.stored session row hrow key hkey
  exact ⟨hspared.stored, hspared.kept⟩

def execute (ok : State → Action → Bool) (actions : List Action) : Option State :=
  actions.foldlM (fun s action => if ok s action then s.step action else none) .initial

theorem reachable_of_execute {ok : State → Action → Bool} {actions : List Action}
    (h : execute ok actions = some s) : (system.restrict fun s action => ok s action = true).Reachable s := by
  induction actions using List.reverseRecOn generalizing s with
  | nil =>
      cases h
      exact .of_start rfl
  | append_singleton actions action ih =>
      unfold execute at h ih
      rw [List.foldlM_append] at h
      obtain ⟨before, hbefore, h⟩ := Option.bind_eq_some_iff.1 h
      simp only [List.foldlM_cons, List.foldlM_nil] at h
      obtain ⟨after, hafter, h⟩ := Option.bind_eq_some_iff.1 h
      cases h
      split at hafter
      case isTrue hok => exact (ih hbefore).next ⟨hok, hafter⟩
      case isFalse => cases hafter

private def uploadKey : ObjectKey := ⟨"s", "b", 1, 0, "h"⟩

private def uploadedFile : Entry := .file "f" 1 "h" uploadKey

/-- A work uploads a file and commits it. -/
private def committedOnce : List Action :=
  [.claim "b" "tb" 45000, .put uploadKey 1, .validate 2 ⟨"b", 1, "tb"⟩ "1" 1 0 [uploadedFile], .read 2, .begin 2,
    .lock 2, .compare 2, .commit 2, .move "b" .ended false, .tick State.dayMs]

theorem kept_committed : ∃ s, (system.restrict Uncontested).Reachable s ∧ Kept s
    ∧ (s.checkpoints.get? "s").map (fun row => objectKeys row.entries) = some [uploadKey] := by
  have hrun : ((execute State.uncontested (.enqueue "b" "s" :: committedOnce ++ [.list 0 [uploadKey], .inspect 0])).any
      fun s => (s.checkpoints.get? "s").map (fun row => objectKeys row.entries) = some [uploadKey]) = true := by
    decide +kernel
  obtain ⟨s, hs, hnamed⟩ := (Option.any_eq_true _ _).1 hrun
  have hreachable : (system.restrict Uncontested).Reachable s := reachable_of_execute hs
  exact ⟨s, hreachable, kept_of_uncontested hreachable, of_decide_eq_true hnamed⟩

/-- A save that found no checkpoint waits until another work has committed one and a third has
    validated the next, and overwrites it. The file is collected before the third save commits. -/
private def lostRun : List Action :=
  [.enqueue "a" "s", .enqueue "b" "s", .enqueue "c" "s", .claim "a" "ta" 45000,
    .validate 1 ⟨"a", 1, "ta"⟩ "1" 1 0 [.directory "d"], .read 1, .begin 1, .lock 1, .compare 1, .tick 45000]
  ++ committedOnce
  ++ [.claim "c" "tc" 45000, .validate 3 ⟨"c", 1, "tc"⟩ "1" 1 1 [uploadedFile], .read 3, .commit 1,
    .list 0 [uploadKey], .inspect 0, .delete 0, .begin 3, .lock 3, .compare 3, .commit 3]

theorem not_kept_lost : ∃ s, system.Reachable s ∧ ¬Kept s := by
  have hrun : ((execute (fun _ _ => true) lostRun).any fun s =>
      (s.checkpoints.get? "s").any (fun row => (objectKeys row.entries).contains uploadKey)
        && !s.objects.has uploadKey) = true := by
    decide +kernel
  obtain ⟨s, hs, hlost⟩ := (Option.any_eq_true _ _).1 hrun
  rw [Bool.and_eq_true, Option.any_eq_true, Bool.not_eq_true'] at hlost
  obtain ⟨⟨row, hrow, hnamed⟩, hgone⟩ := hlost
  refine ⟨s, (reachable_of_execute hs).of_restrict, fun hkept => ?_⟩
  have hstored := (hkept "s" row hrow uploadKey (by simpa using hnamed)).1
  rw [hgone] at hstored
  cases hstored

end LingxiOS.WorkspaceStore
