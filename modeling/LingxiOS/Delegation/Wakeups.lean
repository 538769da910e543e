-- SUMMARY: A parked parent is resumed when its children have ended.
import LingxiOS.ControlPlane.RecoverWait
import LingxiOS.Delegation.FanIn

/-! # Wakeups

Every statement but the two that resume and park leaves parked works alone, so a parent is
resumed only by the query that looks at its children. That the query finds a parent whose
children have all ended needs an invariant: the reference of a wait is a child of the
parent, and among the children the wait records. -/

namespace LingxiOS

namespace FanIn

open Jobs (JobRow StoredRunIdentity)

/-! ## What statements leave alone -/

theorem SameLineage.refl (work : JobRow) : SameLineage work work := ⟨rfl, rfl, rfl, rfl, rfl⟩

theorem SameLineage.trans {a b c : JobRow} (h : SameLineage a b) (h' : SameLineage b c) :
    SameLineage a c :=
  ⟨h'.id.trans h.id, h'.tenantId.trans h.tenantId, h'.principalId.trans h.principalId,
    h'.parentWorkId.trans h.parentWorkId, h'.version.trans h.version⟩

theorem SameLineage.isChildOf {parent parent' child child' : JobRow} (hp : SameLineage parent parent')
    (hc : SameLineage child child') (version : Int) :
    isChildOf parent' child' version = isChildOf parent child version := by
  unfold FanIn.isChildOf
  rw [hc.tenantId, hc.principalId, hc.parentWorkId, hc.version, hp.id, hp.tenantId, hp.principalId]

theorem Unparked.refl (work : JobRow) : Unparked work work :=
  ⟨.refl work, fun _ => rfl, fun h => by simp [h]⟩

theorem Quiet.refl {works : JsMap String JobRow} : Quiet works works :=
  ⟨fun {_ work} h => ⟨work, h, .refl work⟩, fun h => .inl (Option.isSome_iff_exists.2 ⟨_, h⟩)⟩

/-- A work that may have been cancelled. -/
def Marked (work work' : JobRow) : Prop :=
  work' = work ∨ ∃ now gap, work' = Jobs.cancelled now gap work

theorem Marked.lineage {work work' : JobRow} (h : Marked work work') : SameLineage work work' := by
  obtain rfl | ⟨now, gap, rfl⟩ := h
  · exact .refl _
  · exact ⟨rfl, rfl, rfl, rfl, rfl⟩

theorem Marked.status {work work' : JobRow} (h : Marked work work') :
    work' = work ∨ work'.status = .leased ∨ work'.status = .cancelled := by
  obtain rfl | ⟨now, gap, rfl⟩ := h
  · exact .inl rfl
  · simp only [Jobs.cancelled]
    split
    · rename_i hleased
      exact .inr (.inl hleased)
    · exact .inr (.inr rfl)

theorem Marked.unparked {work work' : JobRow} (h : Marked work work') : Unparked work work' := by
  refine ⟨h.lineage, ?_, ?_⟩
  · intro hwaiting
    obtain heq | hleased | hcancelled := h.status
    · exact heq
    · simp [hleased] at hwaiting
    · simp [hcancelled] at hwaiting
  · intro hwaiting
    obtain rfl | hleased | hcancelled := h.status
    · simp [hwaiting]
    · simp [hleased]
    · simp [hcancelled]

theorem cancelDescendants_row (now : Int) (parentId : String) {works : JsMap String JobRow}
    {id : String} {work : JobRow} (h : works.get? id = some work) : ∃ work',
      (Jobs.cancelDescendants now works parentId).get? id = some work' ∧ Marked work work' := by
  refine ⟨_, by rw [Jobs.cancelDescendants, JsMap.get?_mapValues, h, Option.map_some], ?_⟩
  split
  · exact .inr ⟨now, _, rfl⟩
  · exact .inl rfl

theorem cancelDescendants_isSome {now : Int} {works : JsMap String JobRow} {parentId id : String}
    {work' : JobRow} (h : (Jobs.cancelDescendants now works parentId).get? id = some work') :
    (works.get? id).isSome = true := by
  rw [Jobs.cancelDescendants, JsMap.get?_mapValues] at h
  obtain ⟨work, hwork, -⟩ := Option.map_eq_some_iff.1 h
  exact Option.isSome_iff_exists.2 ⟨work, hwork⟩

/-- One work changes, and then its descendants are cancelled. -/
theorem quiet_of_set {now : Int} {works : JsMap String JobRow} {id : String} {work changed : JobRow}
    (hwork : works.get? id = some work) (hlineage : SameLineage work changed)
    (hparks : changed.status ≠ .waiting)
    (hresumes : work.status = .waiting → changed.status = .leased ∨ changed.status = .cancelled) :
    Quiet works (Jobs.cancelDescendants now (works.set id changed) id) := by
  constructor
  · intro other row hrow
    by_cases hother : other = id
    · subst hother
      obtain rfl := Option.some.inj (hrow.symm.trans hwork)
      obtain ⟨final, hfinal, hmarked⟩ :=
        cancelDescendants_row now other (JsMap.get?_set_self works other changed)
      refine ⟨final, hfinal, hlineage.trans hmarked.lineage, ?_, ?_⟩
      · intro hwaiting
        obtain rfl | hleased | hcancelled := hmarked.status
        · exact absurd hwaiting hparks
        · simp [hleased] at hwaiting
        · simp [hcancelled] at hwaiting
      · intro hwaiting
        obtain rfl | hleased | hcancelled := hmarked.status
        · obtain hends | hends := hresumes hwaiting <;> simp [hends]
        · simp [hleased]
        · simp [hcancelled]
    · obtain ⟨final, hfinal, hmarked⟩ := cancelDescendants_row now id
        ((JsMap.get?_set_of_ne changed hother).trans hrow)
      exact ⟨final, hfinal, hmarked.unparked⟩
  · intro other final hfinal
    have hsome := cancelDescendants_isSome hfinal
    rw [JsMap.get?_set] at hsome
    split at hsome
    · rename_i hother
      exact .inl (by rw [hother, hwork]; rfl)
    · exact .inl hsome

theorem quiet_cancelRun (now : Int) (works : JsMap String JobRow) (identity : StoredRunIdentity) :
    Quiet works (Jobs.cancelRun now works identity).1 := by
  unfold Jobs.cancelRun
  split
  · rename_i work hwork
    split
    · have hmarked : Marked work (Jobs.cancelled now "Cancelled by user" work) := .inr ⟨_, _, rfl⟩
      have hstatus : (Jobs.cancelled now "Cancelled by user" work).status = .leased
          ∨ (Jobs.cancelled now "Cancelled by user" work).status = .cancelled := by
        simp only [Jobs.cancelled]
        split
        · rename_i hleased
          exact .inl hleased
        · exact .inr rfl
      refine quiet_of_set hwork hmarked.lineage ?_ fun _ => hstatus
      obtain hends | hends := hstatus <;> simp [hends]
    · exact Quiet.refl
  · exact Quiet.refl

theorem quiet_mapValues {works : JsMap String JobRow} {f : String → JobRow → JobRow}
    (h : ∀ id work, Unparked work (f id work)) : Quiet works (works.mapValues f) := by
  constructor
  · intro id work hwork
    exact ⟨f id work, by rw [JsMap.get?_mapValues, hwork, Option.map_some], h id work⟩
  · intro id work' hwork'
    rw [JsMap.get?_mapValues] at hwork'
    obtain ⟨work, hwork, -⟩ := Option.map_eq_some_iff.1 hwork'
    exact .inl (Option.isSome_iff_exists.2 ⟨work, hwork⟩)

theorem quiet_blockDependents (now : Int) (tables : FanInTables) (workId : Option String) :
    Quiet tables.works (blockDependents now tables workId).works := by
  unfold blockDependents
  dsimp only
  refine quiet_mapValues fun id work => ?_
  split
  · rename_i hqueued
    refine ⟨⟨rfl, rfl, rfl, rfl, rfl⟩, ?_, ?_⟩
    · intro hwaiting
      cases hwaiting
    · simp [hqueued.1]
  · exact .refl work

/-! ## Parking -/

/-- A work that was leased, not cancelled, now waits with an outcome. -/
structure Parks (tables tables' : FanInTables) (id : String) (outcome : Option GoalOutcome) :
    Prop where
  works : ∃ work parked, tables.works.get? id = some work ∧ work.status = .leased
    ∧ tables'.works = tables.works.set id parked ∧ SameLineage work parked
    ∧ parked.status = .waiting ∧ parked.goalOutcome = outcome ∧ parked.cancelRequestedAt = none
  waits : tables'.waits = tables.waits
  validated : tables'.validated = tables.validated

/-- The other statements that end a lease. -/
structure Leaves (tables tables' : FanInTables) : Prop where
  works : Quiet tables.works tables'.works
  waits : tables'.waits = tables.waits
  validated : tables'.validated = tables.validated

theorem settle_cases (now : Int) (tables : FanInTables) (id : String) (fence : Nat)
    (leaseTokenHash : String) (status : WorkStatus) (error : Option String)
    (outcome : Option GoalOutcome) :
    Leaves tables (settle now tables id fence leaseTokenHash status error outcome)
      ∨ status = .waiting
        ∧ Parks tables (settle now tables id fence leaseTokenHash status error outcome) id outcome := by
  unfold settle
  split
  · rename_i work hwork
    split
    · rename_i hmay
      simp only [maySettle, decide_eq_true_eq] at hmay
      obtain ⟨-, -, hleased, -, hcancel, -⟩ := hmay
      by_cases hwaiting : status = .waiting
      · subst hwaiting
        refine .inr ⟨rfl, ⟨work, settled now .waiting error outcome work, hwork, hleased, by simp,
          ⟨rfl, rfl, rfl, rfl, rfl⟩, rfl, rfl, ?_⟩, rfl, rfl⟩
        simpa [settled] using hcancel
      · refine .inl ⟨?_, rfl, rfl⟩
        simp only [hwaiting, if_false]
        exact quiet_of_set hwork ⟨rfl, rfl, rfl, rfl, rfl⟩ hwaiting fun h => by simp [hleased] at h
    · exact .inl ⟨Quiet.refl, rfl, rfl⟩
  · exact .inl ⟨Quiet.refl, rfl, rfl⟩

theorem deliver_cases (now : Int) (tables : FanInTables) (id : String) (fence : Nat)
    (resultId : String) (outcome : GoalOutcome) :
    Leaves tables (deliver now tables id fence resultId outcome)
      ∨ workStatusOf ⟨.completed, some outcome, none⟩ = .waiting
        ∧ Parks tables (deliver now tables id fence resultId outcome) id (some outcome) := by
  unfold deliver
  split
  · rename_i work hwork
    dsimp only
    split
    · rename_i hmay
      obtain ⟨-, hleased, -, hcancel, -⟩ := hmay
      by_cases hwaiting : workStatusOf ⟨.completed, some outcome, none⟩ = .waiting
      · refine .inr ⟨hwaiting, ⟨work,
          { settled now .waiting work.error (some outcome) work with resultId := some resultId },
          hwork, hleased, by simp [hwaiting], ⟨rfl, rfl, rfl, rfl, rfl⟩, rfl, rfl, hcancel⟩, rfl, rfl⟩
      · refine .inl ⟨?_, rfl, rfl⟩
        simp only [hwaiting, if_false]
        exact quiet_of_set hwork ⟨rfl, rfl, rfl, rfl, rfl⟩ hwaiting fun h => by simp [hleased] at h
    · exact .inl ⟨Quiet.refl, rfl, rfl⟩
  · exact .inl ⟨Quiet.refl, rfl, rfl⟩

/-! ## The invariant -/

/-- A parked parent refers to a child of its own, which is among those the wait records. -/
structure Anchored (tables : FanInTables) : Prop where
  id : ∀ {id work}, tables.works.get? id = some work → work.id = id
  parked : ∀ {id parent taskRef version}, tables.works.get? id = some parent →
    parent.status = .waiting → parent.cancelRequestedAt = none
      ∧ (awaits parent = some (taskRef, version) →
        ∃ child, tables.works.get? taskRef = some child ∧ isChildOf parent child version = true)
  waits : ∀ {key children}, tables.waits.get? key = some children → key.taskRef ∈ children
  validated : ∀ key ∈ tables.validated, ∃ parent child,
    tables.works.get? key.parentWorkId = some parent ∧ tables.works.get? key.taskRef = some child
      ∧ isChildOf parent child key.requestVersion = true

/-- No work is parked; some may be resumed. -/
structure Calm (works works' : JsMap String JobRow) : Prop where
  rows : ∀ {id work}, works.get? id = some work → ∃ work', works'.get? id = some work'
    ∧ SameLineage work work' ∧ (work'.status = .waiting → work' = work)
  inserted : ∀ {id work'}, works'.get? id = some work' → (works.get? id).isSome = true
    ∨ work'.id = id ∧ work'.status ≠ .waiting

theorem Quiet.calm {works works' : JsMap String JobRow} (h : Quiet works works') :
    Calm works works' := by
  refine ⟨?_, h.inserted⟩
  intro id work hwork
  obtain ⟨work', hwork', hunparked⟩ := h.rows hwork
  exact ⟨work', hwork', hunparked.lineage, hunparked.parks⟩

/-- Works stay what they are recognised by. -/
def Stays (works works' : JsMap String JobRow) : Prop :=
  ∀ {id work}, works.get? id = some work → ∃ work', works'.get? id = some work' ∧ SameLineage work work'

theorem Calm.stays {works works' : JsMap String JobRow} (h : Calm works works') :
    Stays works works' := by
  intro id work hwork
  obtain ⟨work', hwork', hlineage, -⟩ := h.rows hwork
  exact ⟨work', hwork', hlineage⟩

theorem Anchored.validated_of_stays {tables : FanInTables} {works' : JsMap String JobRow}
    (h : Anchored tables) (hstays : Stays tables.works works') : ∀ key ∈ tables.validated,
    ∃ parent child, works'.get? key.parentWorkId = some parent ∧ works'.get? key.taskRef = some child
      ∧ isChildOf parent child key.requestVersion = true := by
  intro key hkey
  obtain ⟨parent, child, hparent, hchild, hof⟩ := h.validated key hkey
  obtain ⟨parent', hparent', hsameParent⟩ := hstays hparent
  obtain ⟨child', hchild', hsameChild⟩ := hstays hchild
  exact ⟨parent', child', hparent', hchild', by rw [hsameParent.isChildOf hsameChild, hof]⟩

theorem Anchored.of_calm {tables tables' : FanInTables} (h : Anchored tables)
    (hcalm : Calm tables.works tables'.works) (hwaits : tables'.waits = tables.waits)
    (hvalidated : tables'.validated = tables.validated) : Anchored tables' := by
  constructor
  · intro id work' hwork'
    obtain hsome | ⟨hid, -⟩ := hcalm.inserted hwork'
    · obtain ⟨work, hwork⟩ := Option.isSome_iff_exists.1 hsome
      obtain ⟨found, hfound, hlineage, -⟩ := hcalm.rows hwork
      obtain rfl := Option.some.inj (hfound.symm.trans hwork')
      rw [hlineage.id, h.id hwork]
    · exact hid
  · intro id parent' taskRef version hparent' hwaiting
    obtain hsome | ⟨-, hnot⟩ := hcalm.inserted hparent'
    · obtain ⟨parent, hparent⟩ := Option.isSome_iff_exists.1 hsome
      obtain ⟨found, hfound, -, hparks⟩ := hcalm.rows hparent
      obtain rfl := Option.some.inj (hfound.symm.trans hparent')
      obtain rfl := hparks hwaiting
      obtain ⟨hcancel, hanchor⟩ := h.parked hparent hwaiting
      refine ⟨hcancel, fun hawaits => ?_⟩
      obtain ⟨child, hchild, hof⟩ := hanchor hawaits
      obtain ⟨child', hchild', hsame⟩ := hcalm.stays hchild
      exact ⟨child', hchild', by rw [(SameLineage.refl _).isChildOf hsame, hof]⟩
    · exact absurd hwaiting hnot
  · intro key children hwait
    rw [hwaits] at hwait
    exact h.waits hwait
  · rw [hvalidated]
    exact h.validated_of_stays hcalm.stays

theorem Leaves.anchored {tables tables' : FanInTables} (h : Anchored tables)
    (hleaves : Leaves tables tables') : Anchored tables' :=
  h.of_calm hleaves.works.calm hleaves.waits hleaves.validated

theorem Parks.anchored {tables tables' : FanInTables} {id : String} {outcome : Option GoalOutcome}
    (h : Anchored tables) (hparks : Parks tables tables' id outcome)
    (hvalidated : ∀ {taskRef version}, delegatedTo outcome = some (taskRef, version) →
      ⟨id, version, taskRef⟩ ∈ tables.validated) : Anchored tables' := by
  obtain ⟨work, parked, hwork, -, hworks, hlineage, -, houtcome, hcancel⟩ := hparks.works
  have hset : tables'.works.get? id = some parked := by rw [hworks, JsMap.get?_set_self]
  have hother {other : String} (hne : other ≠ id) :
      tables'.works.get? other = tables.works.get? other := by
    rw [hworks, JsMap.get?_set_of_ne _ hne]
  have hstays : Stays tables.works tables'.works := by
    intro other row hrow
    by_cases hne : other = id
    · subst hne
      obtain rfl := Option.some.inj (hrow.symm.trans hwork)
      exact ⟨parked, hset, hlineage⟩
    · exact ⟨row, (hother hne).trans hrow, .refl row⟩
  constructor
  · intro other row hrow
    by_cases hne : other = id
    · subst hne
      obtain rfl := Option.some.inj (hset.symm.trans hrow)
      rw [hlineage.id, h.id hwork]
    · exact h.id ((hother hne).symm.trans hrow)
  · intro other parent taskRef version hparent hwaiting
    by_cases hne : other = id
    · subst hne
      obtain rfl := Option.some.inj (hset.symm.trans hparent)
      refine ⟨hcancel, fun hawaits => ?_⟩
      rw [awaits, houtcome] at hawaits
      obtain ⟨found, child, hfound, hchild, hof⟩ :=
        h.validated_of_stays hstays _ (hvalidated hawaits)
      obtain rfl := Option.some.inj (hfound.symm.trans hset)
      exact ⟨child, hchild, hof⟩
    · obtain ⟨hnone, hanchor⟩ := h.parked ((hother hne).symm.trans hparent) hwaiting
      refine ⟨hnone, fun hawaits => ?_⟩
      obtain ⟨child, hchild, hof⟩ := hanchor hawaits
      obtain ⟨child', hchild', hsame⟩ := hstays hchild
      exact ⟨child', hchild', by rw [(SameLineage.refl _).isChildOf hsame, hof]⟩
  · intro key children hwait
    rw [hparks.waits] at hwait
    exact h.waits hwait
  · rw [hparks.validated]
    exact h.validated_of_stays hstays

/-- What the second statement makes of a work. -/
def resumed (now : Int) (work : JobRow) : JobRow :=
  { work with status := .queued, availableAt := now, finishedAt := none, goalOutcome := none }

theorem resumeReady_get? (now : Int) (tables : FanInTables) (workId : Option String)
    (locked : List String) (id : String) :
    (resumeReady now tables workId locked).works.get? id = (tables.works.get? id).map fun work =>
      if id ∈ resumable tables workId locked then resumed now work else work := by
  unfold resumeReady
  exact JsMap.get?_mapValues ..

theorem resumed_lineage (now : Int) (work : JobRow) : SameLineage work (resumed now work) :=
  ⟨rfl, rfl, rfl, rfl, rfl⟩

theorem calm_resumeReady (now : Int) (tables : FanInTables) (workId : Option String)
    (locked : List String) : Calm tables.works (resumeReady now tables workId locked).works := by
  constructor
  · intro id work hwork
    refine ⟨_, by rw [resumeReady_get?, hwork, Option.map_some], ?_⟩
    split
    · exact ⟨resumed_lineage now work, fun hwaiting => by cases hwaiting⟩
    · exact ⟨.refl work, fun _ => rfl⟩
  · intro id work' hwork'
    rw [resumeReady_get?] at hwork'
    obtain ⟨work, hwork, -⟩ := Option.map_eq_some_iff.1 hwork'
    exact .inl (Option.isSome_iff_exists.2 ⟨work, hwork⟩)

/-- A wait is recorded under one of its children. -/
theorem waitForChildren_ok {admitted : Except String Unit} {tables tables' : FanInTables}
    {parent : JobRow} {version : Nat} {children : List String}
    (h : waitForChildren admitted tables parent version children = .ok tables') :
    tables' = tables ∨ ∃ key ids, key.taskRef ∈ ids
      ∧ tables' = { tables with waits := tables.waits.set key ids } := by
  simp only [waitForChildren, Except.bind_eq_ok_iff, Except.throw_eq_error, Except.error_bind,
    Except.guard_eq_ok_iff, Except.pure_eq_ok] at h
  obtain ⟨hlength, -, _, -, -, h⟩ := h
  have hsorted : (children.insertionSort (· ≤ ·)).headD "" ∈ children.insertionSort (· ≤ ·) := by
    have hne : children.insertionSort (· ≤ ·) ≠ [] := by
      intro hnil
      have hlen := List.length_insertionSort (· ≤ ·) children
      rw [hnil] at hlen
      simp [List.length_eq_zero_iff.1 hlen.symm] at hlength
    cases hids : children.insertionSort (· ≤ ·) with
    | nil => exact absurd hids hne
    | cons first rest => simp
  split at h
  · cases h
    exact .inr ⟨_, _, hsorted, rfl⟩
  · split at h
    · cases h
      exact .inl rfl
    · cases h

theorem step_anchored {tables tables' : FanInTables} {event : Event} (h : Anchored tables)
    (hstep : system.step tables event tables') : Anchored tables' := by
  cases event with
  | settle now id fence leaseTokenHash status error outcome =>
      obtain ⟨hvalidated, rfl⟩ := hstep
      obtain hleaves | ⟨hwaiting, hparks⟩ :=
        settle_cases now tables id fence leaseTokenHash status error outcome
      · exact hleaves.anchored h
      · exact hparks.anchored h (hvalidated hwaiting)
  | deliver now id fence resultId outcome =>
      obtain ⟨hvalidated, rfl⟩ := hstep
      obtain hleaves | ⟨hwaiting, hparks⟩ := deliver_cases now tables id fence resultId outcome
      · exact hleaves.anchored h
      · exact hparks.anchored h (hvalidated hwaiting)
  | cancel now identity =>
      obtain rfl := hstep
      exact h.of_calm (quiet_cancelRun now tables.works identity).calm rfl rfl
  | validate parentId taskRef version =>
      obtain ⟨parent, hparent, hchild, rfl⟩ := hstep
      refine ⟨h.id, h.parked, h.waits, ?_⟩
      intro key hkey
      obtain rfl | hkey := List.mem_cons.1 hkey
      · cases hfound : tables.works.get? taskRef with
        | none => simp [hasChild, hfound] at hchild
        | some child => exact ⟨parent, child, hparent, rfl, by simpa [hasChild, hfound] using hchild⟩
      · exact h.validated key hkey
  | wait admitted parentId version children =>
      obtain ⟨parent, hparent, hcall⟩ := hstep
      obtain rfl | ⟨key, ids, hmem, rfl⟩ := waitForChildren_ok hcall
      · exact h
      · refine ⟨h.id, h.parked, ?_, h.validated⟩
        intro other found hfound
        rw [JsMap.get?_set] at hfound
        split at hfound
        · rename_i hother
          subst hother
          obtain rfl := Option.some.inj hfound
          exact hmem
        · exact h.waits hfound
  | block now workId =>
      obtain rfl := hstep
      exact h.of_calm (quiet_blockDependents now tables workId).calm rfl rfl
  | resume now workId locked =>
      obtain rfl := hstep
      exact h.of_calm (calm_resumeReady now tables workId locked) rfl rfl
  | others =>
      obtain ⟨hquiet, hwaits, hvalidated⟩ := hstep
      exact h.of_calm hquiet.calm hwaits hvalidated

theorem reachable_anchored {tables : FanInTables} (h : system.Reachable tables) :
    Anchored tables := by
  apply h.invariant ?_ step_anchored
  rintro tables ⟨hwaits, hvalidated, hworks⟩
  refine ⟨fun hwork => (hworks _ _ hwork).1, ?_, ?_, ?_⟩
  · intro id parent taskRef version hparent hwaiting
    exact absurd hwaiting (hworks _ _ hparent).2
  · intro key children hwait
    simp [hwaits] at hwait
  · simp [hvalidated]

/-! ## When a wait is over -/

/-- The reference has ended, and every child the parent waits for. -/
def Over (tables : FanInTables) (parent : JobRow) (taskRef : String) (version : Int) : Prop :=
  (∃ child, tables.works.get? taskRef = some child ∧ isChildOf parent child version = true
    ∧ child.status.isOpen = false)
    ∧ ∀ child ∈ awaited tables parent taskRef version, child.status.isOpen = false

theorem no_open_iff {tables : FanInTables} {parent : JobRow} {taskRef : String} {version : Int} :
    (tables.works.values.any fun sibling => isChildOf parent sibling version
        && inWait (tables.waits.get? ⟨parent.id, version, taskRef⟩) sibling.id
        && sibling.status.isOpen) = false
      ↔ ∀ child ∈ awaited tables parent taskRef version, child.status.isOpen = false := by
  simp only [awaited, List.any_eq_false, List.mem_filter, Bool.and_eq_true, Bool.not_eq_true,
    and_imp, not_and]

theorem ended_iff {tables : FanInTables} {parent : JobRow} {taskRef : String} {version : Int} :
    ((tables.works.get? taskRef).any fun child =>
        isChildOf parent child version && !child.status.isOpen) = true
      ↔ ∃ child, tables.works.get? taskRef = some child ∧ isChildOf parent child version = true
        ∧ child.status.isOpen = false := by
  cases tables.works.get? taskRef <;> simp

theorem ready_iff {tables : FanInTables} {workId : Option String} {parent : JobRow}
    {taskRef : String} {version : Int} (hawaits : awaits parent = some (taskRef, version)) :
    ready tables workId parent = true ↔ concerns tables workId parent = true
      ∧ parent.status = .waiting ∧ parent.cancelRequestedAt = none
      ∧ Over tables parent taskRef version := by
  simp only [ready, hawaits, Bool.and_eq_true, ended_iff, Bool.not_eq_true', no_open_iff, Over,
    beq_iff_eq, Option.isNone_iff_eq_none, and_assoc]

theorem ready_awaits {tables : FanInTables} {workId : Option String} {parent : JobRow}
    (h : ready tables workId parent = true) :
    ∃ taskRef version, awaits parent = some (taskRef, version) := by
  unfold ready at h
  split at h
  · cases h
  · rename_i taskRef version hawaits
    exact ⟨taskRef, version, hawaits⟩

theorem resumable_ready {tables : FanInTables} {workId : Option String} {locked : List String}
    {id : String} (h : id ∈ resumable tables workId locked) :
    ∃ parent ∈ tables.works.values, parent.id = id ∧ ready tables workId parent = true := by
  obtain ⟨parent, hparent, rfl⟩ := List.mem_map.1 h
  have hsorted := (List.mem_filter.1 (List.mem_of_mem_take hparent)).1
  have hready := List.mem_filter.1 ((List.perm_insertionSort _ _).mem_iff.1 hsorted)
  exact ⟨parent, hready.1, rfl, hready.2⟩

/-- With at most 128 ready parents, only a lock keeps one from being resumed. -/
theorem resumable_of_ready {tables : FanInTables} {workId : Option String} {locked : List String}
    {parent : JobRow} (hmem : parent ∈ tables.works.values)
    (hready : ready tables workId parent = true) (hlocked : parent.id ∉ locked)
    (hfew : (tables.works.values.filter (ready tables workId)).length ≤ 128) :
    parent.id ∈ resumable tables workId locked := by
  apply List.mem_map.2
  refine ⟨parent, ?_, rfl⟩
  rw [List.take_of_length_le]
  · refine List.mem_filter.2 ⟨?_, decide_eq_true hlocked⟩
    exact (List.perm_insertionSort _ _).mem_iff.2 (List.mem_filter.2 ⟨hmem, hready⟩)
  · refine (List.length_filter_le _ _).trans ?_
    rwa [List.length_insertionSort]

theorem Anchored.get?_of_mem {tables : FanInTables} (h : Anchored tables) {work : JobRow}
    (hmem : work ∈ tables.works.values) : tables.works.get? work.id = some work := by
  obtain ⟨key, hkey⟩ := JsMap.mem_values_iff.1 hmem
  rw [h.id hkey]
  exact hkey

/-- Only the second statement resumes a parked work. -/
theorem resumes_only {tables tables' : FanInTables} {event : Event} {id : String}
    {parent parent' : JobRow} (hstep : system.step tables event tables')
    (hparent : tables.works.get? id = some parent) (hwaiting : parent.status = .waiting)
    (hparent' : tables'.works.get? id = some parent') (hqueued : parent'.status = .queued) :
    ∃ now workId locked, tables' = resumeReady now tables workId locked := by
  have hquiet : ¬ Quiet tables.works tables'.works := by
    intro hquiet
    obtain ⟨found, hfound, hunparked⟩ := hquiet.rows hparent
    obtain rfl := Option.some.inj (hfound.symm.trans hparent')
    exact hunparked.resumes hwaiting hqueued
  have hparks {other : String} {outcome : Option GoalOutcome} :
      ¬ Parks tables tables' other outcome := by
    rintro ⟨⟨work, parked, hwork, hleased, hworks, -⟩, -, -⟩
    have hne : id ≠ other := by
      rintro rfl
      obtain rfl := Option.some.inj (hwork.symm.trans hparent)
      simp [hwaiting] at hleased
    rw [hworks, JsMap.get?_set_of_ne _ hne, hparent] at hparent'
    obtain rfl := Option.some.inj hparent'
    simp [hwaiting] at hqueued
  cases event with
  | settle now other fence leaseTokenHash status error outcome =>
      obtain ⟨-, rfl⟩ := hstep
      obtain hleaves | ⟨-, h⟩ :=
        settle_cases now tables other fence leaseTokenHash status error outcome
      · exact absurd hleaves.works hquiet
      · exact absurd h hparks
  | deliver now other fence resultId outcome =>
      obtain ⟨-, rfl⟩ := hstep
      obtain hleaves | ⟨-, h⟩ := deliver_cases now tables other fence resultId outcome
      · exact absurd hleaves.works hquiet
      · exact absurd h hparks
  | cancel now identity =>
      obtain rfl := hstep
      exact absurd (quiet_cancelRun now tables.works identity) hquiet
  | validate parentId taskRef version =>
      obtain ⟨_, -, -, rfl⟩ := hstep
      exact absurd Quiet.refl hquiet
  | wait admitted parentId version children =>
      obtain ⟨_, -, hcall⟩ := hstep
      obtain rfl | ⟨_, _, -, rfl⟩ := waitForChildren_ok hcall
      · exact absurd Quiet.refl hquiet
      · exact absurd Quiet.refl hquiet
  | block now workId =>
      obtain rfl := hstep
      exact absurd (quiet_blockDependents now tables workId) hquiet
  | resume now workId locked => exact ⟨now, workId, locked, hstep⟩
  | others => exact absurd hstep.1 hquiet

/-- A parent that is resumed has no open child among those it waited for. -/
theorem resumed_over {tables tables' : FanInTables} {event : Event} {id taskRef : String}
    {version : Int} {parent parent' : JobRow} (h : Anchored tables)
    (hstep : system.step tables event tables') (hparent : tables.works.get? id = some parent)
    (hwaiting : parent.status = .waiting) (hawaits : awaits parent = some (taskRef, version))
    (hparent' : tables'.works.get? id = some parent') (hqueued : parent'.status = .queued) :
    Over tables parent taskRef version := by
  obtain ⟨now, workId, locked, rfl⟩ := resumes_only hstep hparent hwaiting hparent' hqueued
  rw [resumeReady_get?, hparent, Option.map_some, Option.some.injEq] at hparent'
  split at hparent'
  · rename_i hid
    obtain ⟨found, hmem, hfound, hready⟩ := resumable_ready hid
    have hget := h.get?_of_mem hmem
    rw [hfound] at hget
    obtain rfl := Option.some.inj (hget.symm.trans hparent)
    exact ((ready_iff hawaits).1 hready).2.2.2
  · subst hparent'
    simp [hwaiting] at hqueued

theorem isOpen_of_resume (now : Int) {tables : FanInTables} (workId : Option String)
    (locked : List String) (h : Anchored tables) {id : String} {work : JobRow}
    (hwork : tables.works.get? id = some work) : ∃ work',
      (resumeReady now tables workId locked).works.get? id = some work' ∧ SameLineage work work'
        ∧ work'.status.isOpen = work.status.isOpen := by
  refine ⟨_, by rw [resumeReady_get?, hwork, Option.map_some], ?_⟩
  split
  · rename_i hid
    obtain ⟨found, hmem, hfound, hready⟩ := resumable_ready hid
    have hget := h.get?_of_mem hmem
    rw [hfound] at hget
    obtain rfl := Option.some.inj (hget.symm.trans hwork)
    obtain ⟨taskRef, version, hawaits⟩ := ready_awaits hready
    have hwaiting := ((ready_iff hawaits).1 hready).2.1
    refine ⟨resumed_lineage now found, ?_⟩
    rw [hwaiting]
    rfl
  · exact ⟨.refl work, rfl⟩

/-- A child that was awaited before the statement is awaited after it. -/
theorem awaited_of_resume (now : Int) {tables : FanInTables} (workId : Option String)
    (locked : List String) (h : Anchored tables) {parent child : JobRow} {taskRef : String}
    {version : Int} (hchild : child ∈ awaited tables parent taskRef version) :
    ∃ child' ∈ awaited (resumeReady now tables workId locked) parent taskRef version,
      child'.status.isOpen = child.status.isOpen := by
  obtain ⟨hmem, hof⟩ := List.mem_filter.1 hchild
  obtain ⟨child', hchild', hlineage, hopen⟩ :=
    isOpen_of_resume now workId locked h (h.get?_of_mem hmem)
  refine ⟨child', List.mem_filter.2 ⟨JsMap.mem_values_iff.2 ⟨_, hchild'⟩, ?_⟩, hopen⟩
  rw [(SameLineage.refl parent).isChildOf hlineage, hlineage.id]
  exact hof

/-- After a call about every work, a parent that still waits has an open child, or was locked,
    or there were more than 128 to resume. -/
theorem still_waiting {now : Int} {tables : FanInTables} {locked : List String} (h : Anchored tables)
    {id taskRef : String} {version : Int} {parent : JobRow}
    (hparent : (resumeReady now tables none locked).works.get? id = some parent)
    (hwaiting : parent.status = .waiting) (hawaits : awaits parent = some (taskRef, version))
    (hended : ∀ child ∈ awaited (resumeReady now tables none locked) parent taskRef version,
      child.status.isOpen = false) :
    id ∈ locked ∨ 128 < (tables.works.values.filter (ready tables none)).length := by
  rw [resumeReady_get?] at hparent
  obtain ⟨work, hwork, hrow⟩ := Option.map_eq_some_iff.1 hparent
  have hid := h.id hwork
  split at hrow
  · subst hrow
    cases hwaiting
  · rename_i hkept
    subst hrow
    have hbefore : ∀ child ∈ awaited tables work taskRef version, child.status.isOpen = false := by
      intro child hchild
      obtain ⟨child', hmem, hopen⟩ := awaited_of_resume now none locked h hchild
      rw [← hopen]
      exact hended child' hmem
    obtain ⟨hcancel, hanchor⟩ := h.parked hwork hwaiting
    obtain ⟨child, hchild, hof⟩ := hanchor hawaits
    have hmem : child ∈ awaited tables work taskRef version := by
      refine List.mem_filter.2 ⟨JsMap.mem_values_iff.2 ⟨_, hchild⟩, ?_⟩
      rw [hof, Bool.true_and]
      cases hwait : tables.waits.get? ⟨work.id, version, taskRef⟩ with
      | none => rfl
      | some children => simpa [inWait, h.id hchild] using h.waits hwait
    have hready : ready tables none work = true :=
      (ready_iff hawaits).2 ⟨rfl, hwaiting, hcancel, ⟨child, hchild, hof, hbefore child hmem⟩, hbefore⟩
    by_contra hneither
    push Not at hneither
    obtain ⟨hlocked, hfew⟩ := hneither
    rw [← hid] at hkept hlocked
    exact hkept (resumable_of_ready (JsMap.mem_values_iff.2 ⟨_, hwork⟩) hready hlocked hfew)

/-! ## Recovery -/

theorem statusText_open (status : WorkStatus) :
    ["queued", "leased", "waiting"].contains (statusText status) = status.isOpen := by
  cases status <;> decide

theorem activeChild_iff {tables : FanInTables} {parent : JobRow} {taskRef : String} {version : Int} :
    activeChild tables parent taskRef version = false
      ↔ ∀ child ∈ awaited tables parent taskRef version, child.status.isOpen = false := by
  rw [← no_open_iff, activeChild]
  cases hwait : tables.waits.get? ⟨parent.id, version, taskRef⟩ <;>
    simp [JsMap.has, hwait, inWait]

theorem childStatus_eq_some {tables : FanInTables} {parent : JobRow} {taskRef status : String}
    {version : Int} : childStatus tables parent taskRef version = some status
      ↔ ∃ child, tables.works.get? taskRef = some child ∧ isChildOf parent child version = true
        ∧ statusText child.status = status := by
  simp only [childStatus, Option.map_eq_some_iff, Option.filter_eq_some_iff, and_assoc]

/-- `recoverWait` leaves a wait alone exactly when it is over by the query that resumes. -/
theorem childSettled_iff {tables : FanInTables} {parent : JobRow} {outcome : GoalOutcome}
    {taskRef : String} (hstatus : outcome.status = .delegated taskRef) {version : Nat}
    {answers : (op : RecoverOp) → Except Failure op.Value}
    (hchild : answers (.selectChild taskRef version)
      = .ok (childStatus tables parent taskRef version))
    (hactive : answers (.selectActiveChild taskRef version)
      = .ok (activeChild tables parent taskRef version)) :
    ∃ settled, ((Recovery.childSettled outcome version).exec answers).2 = .ok settled
      ∧ (settled = true ↔ Over tables parent taskRef version) := by
  unfold Recovery.childSettled
  simp only [hstatus, Recovery.await, Program.perform, Program.await_bind, Program.exec, hchild,
    Program.ok_bind]
  cases hfound : childStatus tables parent taskRef version with
  | none =>
      refine ⟨false, rfl, ?_⟩
      simp only [Bool.false_eq_true, false_iff]
      rintro ⟨⟨child, hget, hof, -⟩, -⟩
      rw [childStatus_eq_some.2 ⟨child, hget, hof, rfl⟩] at hfound
      cases hfound
  | some status =>
      obtain ⟨child, hget, hof, rfl⟩ := childStatus_eq_some.1 hfound
      simp only [statusText_open]
      cases hopen : child.status.isOpen with
      | true =>
          refine ⟨false, rfl, ?_⟩
          simp only [Bool.false_eq_true, false_iff]
          rintro ⟨⟨other, hother, -, hended⟩, -⟩
          obtain rfl := Option.some.inj (hother.symm.trans hget)
          rw [hopen] at hended
          cases hended
      | false =>
          simp only [Bool.false_eq_true, if_false, Program.exec, hactive, Program.ok_bind]
          refine ⟨!activeChild tables parent taskRef version, rfl, ?_⟩
          rw [Bool.not_eq_true', activeChild_iff]
          exact ⟨fun hall => ⟨⟨child, hget, hof, hopen⟩, hall⟩, fun h => h.2⟩

/-! ## Fan-in -/

/-- What holds of parked parents in a state, and of the next statement. -/
structure WakesWhenOver (tables : FanInTables) : Prop where
  resumed : ∀ {event tables' id parent parent' taskRef version},
    system.step tables event tables' → tables.works.get? id = some parent →
    parent.status = .waiting → awaits parent = some (taskRef, version) →
    tables'.works.get? id = some parent' → parent'.status = .queued →
    ∀ child ∈ awaited tables parent taskRef version, child.status.isOpen = false
  waiting : ∀ {now locked id parent taskRef version},
    (resumeReady now tables none locked).works.get? id = some parent →
    parent.status = .waiting → awaits parent = some (taskRef, version) →
    (∀ child ∈ awaited (resumeReady now tables none locked) parent taskRef version,
      child.status.isOpen = false) →
    id ∈ locked ∨ 128 < (tables.works.values.filter (ready tables none)).length
  recovered : ∀ {parent outcome taskRef version answers},
    outcome.status = .delegated taskRef → outcome.requestVersion = Int.ofNat version →
    parent.status = .waiting → parent.cancelRequestedAt = none → parent.goalOutcome = some outcome →
    answers (.selectChild taskRef version) = .ok (childStatus tables parent taskRef version) →
    answers (.selectActiveChild taskRef version)
      = .ok (activeChild tables parent taskRef version) →
    ((Recovery.childSettled outcome version).exec answers).2 = .ok (ready tables none parent)

/-- Any order of completions, cancellations, parking and resuming, beside any other code that
    leaves parked works alone. -/
theorem fan_in_wakes {tables : FanInTables} (h : system.Reachable tables) :
    WakesWhenOver tables := by
  have hinv := reachable_anchored h
  constructor
  · intro event tables' id parent parent' taskRef version hstep hparent hwaiting hawaits hparent' hqueued
    exact (resumed_over hinv hstep hparent hwaiting hawaits hparent' hqueued).2
  · intro now locked id parent taskRef version hparent hwaiting hawaits hended
    exact still_waiting hinv hparent hwaiting hawaits hended
  · intro parent outcome taskRef version answers hstatus hversion hwaiting hcancel houtcome hchild hactive
    obtain ⟨settled, hexec, hiff⟩ := childSettled_iff hstatus hchild hactive
    have hawaits : awaits parent = some (taskRef, (version : Int)) := by
      simp [awaits, delegatedTo, houtcome, hstatus, hversion]
    have hready : settled = true ↔ ready tables none parent = true := by
      rw [hiff, ready_iff hawaits]
      exact ⟨fun hover => ⟨rfl, hwaiting, hcancel, hover⟩, fun h => h.2.2.2⟩
    rw [hexec, Bool.eq_iff_iff.2 hready]

private def task (id : String) (meta_ : Json) (status : WorkStatus) : JobRow :=
  { Jobs.EnqueueWorkInput.row
      { id := id, tenantId := "t1", agentId := "a1", sessionId := "s1", threadId := none,
        kind := "turn", lane := .collaboration, triggerRef := "m1", principalId := some "u1",
        meta_ := some meta_, conversation := none } 0 with
    status := status, leaseTokenHash := some "k1", leaseExpiresAt := some 10 }

private def parentTask : JobRow := task "p1" (.obj []) .leased

private def childTask : JobRow :=
  task "c1" (.obj [("parentRequestVersion", .num 1), ("parentWorkId", .str "p1")]) .succeeded

private def handedOver : FanInTables where
  works := (JsMap.empty.set "p1" parentTask).set "c1" childTask
  waits := JsMap.empty
  dependencies := []
  results := JsMap.empty
  validated := []

private def handover : GoalOutcome := ⟨.delegated "c1", .notRun, 1, none, none⟩

private def parkedTables : FanInTables :=
  settle 1 { handedOver with validated := [⟨"p1", 1, "c1"⟩] } "p1" 0 "k1" .waiting none (some handover)

/-- The child had finished before the parent parked; the next call resumes the parent. -/
theorem parked_late_wakes : system.Reachable parkedTables ∧ WakesWhenOver parkedTables
    ∧ (parkedTables.works.get? "p1").map (·.status) = some .waiting
    ∧ ((resumeReady 2 parkedTables none []).works.get? "p1").map (·.status) = some .queued := by
  have hstart : system.start handedOver := by
    refine ⟨rfl, rfl, ?_⟩
    intro id work hwork
    simp only [handedOver, JsMap.get?_set, JsMap.get?_empty] at hwork
    split at hwork
    · rename_i hid
      cases hwork
      exact ⟨hid.symm, by decide⟩
    · split at hwork
      · rename_i hid
        cases hwork
        exact ⟨hid.symm, by decide⟩
      · cases hwork
  have hvalidate : system.step handedOver (.validate "p1" "c1" 1)
      { handedOver with validated := [⟨"p1", 1, "c1"⟩] } :=
    ⟨parentTask, rfl, by decide +kernel, rfl⟩
  have hpark : system.step { handedOver with validated := [⟨"p1", 1, "c1"⟩] }
      (.settle 1 "p1" 0 "k1" .waiting none (some handover)) parkedTables := by
    refine ⟨?_, rfl⟩
    intro _ taskRef version hdelegated
    cases hdelegated
    exact List.mem_singleton_self _
  have hreach := ((TransitionSystem.Reachable.of_start hstart).next hvalidate).next hpark
  exact ⟨hreach, fan_in_wakes hreach, by decide +kernel, by decide +kernel⟩

end FanIn

end LingxiOS
