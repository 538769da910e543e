-- SUMMARY: How far a cancellation reaches, and what it spares.
import LingxiOS.Base.Forest
import LingxiOS.WorkStore.Progress

/-! # Cancellation

Works form a forest through `parentWorkId`. A request to cancel searches all the
rows for the descendants of its work; a settlement asks every child to cancel in
turn, and a child that is settled already answers without looking at its own
children. Rows are listed in the order they were enqueued, so where parents are
enqueued first one pass of the search finds everything below a row. -/

namespace LingxiOS

/-- Cancelled, or asked to stop. -/
def WorkRow.Stopped (row : WorkRow) : Prop :=
  row.status = .cancelled ∨ row.cancelRequestedAt ≠ none

/-- A row's place in the forest of works. -/
structure Kin where
  id : String
  tenantId : String
  principalId : Option String
  meta_ : Option JsonObject

def WorkRow.kin (row : WorkRow) : Kin := ⟨row.id, row.tenantId, row.principalId, row.meta_⟩

/-- `isChildOf`, read off the places of the two rows. -/
def Kin.IsChildOf (child parent : Kin) : Prop :=
  JsonObject.getString? child.meta_ "parentWorkId" = some parent.id
    ∧ child.tenantId = parent.tenantId ∧ child.principalId = parent.principalId

theorem WorkRow.isChildOf_iff {child row : WorkRow} :
    child.isChildOf row = true ↔ child.kin.IsChildOf row.kin := by
  simp [WorkRow.isChildOf, Kin.IsChildOf, WorkRow.kin, and_assoc]

namespace WorkStore

variable {opts : WorkStoreOptions} {t₀ : Int}

/-! ## The forest of works -/

/-- The second row is stored as a child of the first. -/
def Child (s : WorkStore) (parent child : String) : Prop :=
  ∃ p c, s.rows.get? parent = some p ∧ s.rows.get? child = some c ∧ c.kin.IsChildOf p.kin

theorem child_of_kin {s t : WorkStore}
    (h : ∀ id, (t.rows.get? id).map WorkRow.kin = (s.rows.get? id).map WorkRow.kin)
    {p c : String} (hchild : s.Child p c) : t.Child p c := by
  obtain ⟨pr, cr, hpr, hcr, hlink⟩ := hchild
  have hp := h p
  have hc := h c
  rw [hpr] at hp
  rw [hcr] at hc
  obtain ⟨pr', hpr', hpkin⟩ := Option.map_eq_some_iff.1 hp
  obtain ⟨cr', hcr', hckin⟩ := Option.map_eq_some_iff.1 hc
  exact ⟨pr', cr', hpr', hcr', by rwa [hckin, hpkin]⟩

/-- Parents stand before their children. -/
def Kinship (s : WorkStore) : Prop :=
  Forest.Ordered Kin.IsChildOf (s.rows.values.map WorkRow.kin)

/-- What the search for the descendants of a row looks at. -/
def familyView (row : WorkRow) : Forest.View Kin String where
  key := Kin.id
  parent kin := jsString (JsonObject.get? kin.meta_ "parentWorkId")
  eligible kin := decide (kin.tenantId = row.tenantId ∧ kin.principalId = row.principalId)

theorem descendantPass_eq (row : WorkRow) (rows : List WorkRow) (found : List String) :
    descendantPass row rows found = (familyView row).pass (rows.map WorkRow.kin) found := by
  unfold descendantPass Forest.View.pass
  rw [List.foldl_map]
  congr 1
  funext found child
  simp [Forest.View.visit, familyView, WorkRow.kin, and_assoc]

theorem descendantsFrom_eq (row : WorkRow) (rows : List WorkRow) (depth : Nat)
    (found : List String) : descendantsFrom row rows depth found
      = (familyView row).search (rows.map WorkRow.kin) depth found := by
  induction depth generalizing found with
  | zero => rfl
  | succ depth ih =>
      simp only [descendantsFrom, Forest.View.search, descendantPass_eq, ih]

theorem keys_kin {s : WorkStore} (hids : s.IdsMatch) :
    (s.rows.values.map WorkRow.kin).map Kin.id = s.rows.keys := by
  simp only [JsMap.values, JsMap.keys, List.map_map]
  apply List.map_congr_left
  intro e he
  exact hids e.1 e.2 (JsMap.get?_eq_some_iff.2 he)

theorem sound_family {s : WorkStore} (hids : s.IdsMatch) (hkin : s.Kinship) (row : WorkRow) :
    Forest.Sound (familyView row) Kin.IsChildOf (s.rows.values.map WorkRow.kin) where
  ordered := hkin
  nodup := by
    rw [show (familyView row).key = Kin.id from rfl, keys_kin hids]
    exact s.rows.nodup
  parent := by
    intro n m hlink
    simp [familyView, jsString, JsonObject.getString?_eq_some_iff.1 hlink.1, Json.toJsString]
  eligible := by
    intro n m hlink hm
    simpa [familyView, hlink.2.1, hlink.2.2] using hm

theorem mem_kin {s : WorkStore} {id : String} {row : WorkRow} (hrow : s.rows.get? id = some row) :
    row.kin ∈ s.rows.values.map WorkRow.kin :=
  List.mem_map_of_mem (JsMap.mem_values_iff.2 ⟨id, hrow⟩)

/-- What a search from a stored row finds is closed under going to a child. -/
theorem descendants_closed {s : WorkStore} (hids : s.IdsMatch) (hkin : s.Kinship) {id : String}
    {row : WorkRow} (hrow : s.rows.get? id = some row) {p c : String} (hchild : s.Child p c)
    (hp : p ∈ descendantsFrom row s.rows.values 64 [id]) :
    c ∈ descendantsFrom row s.rows.values 64 [id] := by
  obtain ⟨pr, cr, hpr, hcr, hlink⟩ := hchild
  have heligible : Forest.Eligible (familyView row) (s.rows.values.map WorkRow.kin) [id] := by
    intro kin hkinMem hkey
    obtain ⟨r, hr, rfl⟩ := List.mem_map.1 hkinMem
    obtain ⟨k, hk⟩ := JsMap.mem_values_iff.1 hr
    have hid : r.id = id := List.mem_singleton.1 hkey
    have hkey : k = id := (hids k r hk).symm.trans hid
    subst hkey
    obtain rfl := Option.some.inj (hk.symm.trans hrow)
    simp [familyView, WorkRow.kin]
  rw [descendantsFrom_eq] at hp ⊢
  have hclosed := Forest.closed_search (sound_family hids hkin row) heligible 63
  have hfound := hclosed pr.kin (mem_kin hpr) cr.kin (mem_kin hcr) hlink
  rw [show (familyView row).key = Kin.id from rfl, show pr.kin.id = p from hids p pr hpr,
    show cr.kin.id = c from hids c cr hcr] at hfound
  exact hfound hp

/-- No row is among its own descendants. -/
theorem Kinship.acyclic {s : WorkStore} (hids : s.IdsMatch) (hkin : s.Kinship) {p c : String}
    (h : Relation.TransGen s.Child p c) : p ≠ c := by
  have hlater : s.rows.keys.idxOf p < s.rows.keys.idxOf c := by
    induction h with
    | single hchild =>
        obtain ⟨pr, cr, hpr, hcr, hlink⟩ := hchild
        have hlt := hkin.idxOf_lt (sound_family hids hkin pr).nodup (mem_kin hpr) (mem_kin hcr) hlink
        rwa [show (familyView pr).key = Kin.id from rfl, keys_kin hids,
          show pr.kin.id = p from hids p pr hpr,
          show cr.kin.id = _ from hids _ cr hcr] at hlt
    | tail _ hchild ih =>
        obtain ⟨pr, cr, hpr, hcr, hlink⟩ := hchild
        have hlt := hkin.idxOf_lt (sound_family hids hkin pr).nodup (mem_kin hpr) (mem_kin hcr) hlink
        rw [show (familyView pr).key = Kin.id from rfl, keys_kin hids,
          show pr.kin.id = _ from hids _ pr hpr,
          show cr.kin.id = _ from hids _ cr hcr] at hlt
        exact ih.trans hlt
  rintro rfl
  exact lt_irrefl _ hlater

/-! ## Sweeps -/

theorem kin_cancelRow (now : Int) (row : WorkRow) : (cancelRow now row).kin = row.kin := by
  unfold cancelRow
  split
  · rfl
  · split
    · rfl
    · rfl

/-- Some rows were cancelled, with every row below them; the others are as they
    were. -/
structure Sweep (s t : WorkStore) (now : Int) (hit : Set String) : Prop where
  hit_rows : ∀ id ∈ hit, t.rows.get? id = (s.rows.get? id).map (cancelRow now)
  kept_rows : ∀ id, id ∉ hit → t.rows.get? id = s.rows.get? id
  closed : ∀ {p c}, s.Child p c → p ∈ hit → c ∈ hit

namespace Sweep

variable {s t u : WorkStore} {now : Int} {hit hit' : Set String}

theorem refl (s : WorkStore) (now : Int) : Sweep s s now ∅ :=
  ⟨fun _ h => h.elim, fun _ _ => rfl, fun _ h => h.elim⟩

theorem map_kin (h : Sweep s t now hit) (id : String) :
    (t.rows.get? id).map WorkRow.kin = (s.rows.get? id).map WorkRow.kin := by
  by_cases hid : id ∈ hit
  · rw [h.hit_rows id hid, Option.map_map]
    congr 1
    funext row
    exact kin_cancelRow now row
  · rw [h.kept_rows id hid]

/-- A sweep leaves the forest as it is. -/
theorem child (h : Sweep s t now hit) {p c : String} (hchild : s.Child p c) : t.Child p c :=
  child_of_kin h.map_kin hchild

/-- One sweep after the other, at one instant. -/
theorem trans (h : Sweep s t now hit) (h' : Sweep t u now hit') :
    Sweep s u now (hit ∪ hit') where
  hit_rows := by
    intro id hid
    by_cases hlast : id ∈ hit'
    · rw [h'.hit_rows id hlast]
      by_cases hfirst : id ∈ hit
      · rw [h.hit_rows id hfirst, Option.map_map]
        congr 1
        funext row
        exact cancelRow_idem now row
      · rw [h.kept_rows id hfirst]
    · rw [h'.kept_rows id hlast, h.hit_rows id (hid.resolve_right hlast)]
  kept_rows := by
    intro id hid
    rw [h'.kept_rows id fun hlast => hid (.inr hlast), h.kept_rows id fun hfirst => hid (.inl hfirst)]
  closed := by
    rintro p c hchild (hp | hp)
    · exact .inl (h.closed hchild hp)
    · exact .inr (h'.closed (h.child hchild) hp)

/-- With a row, all its descendants are hit. -/
theorem descendants (h : Sweep s t now hit) {p c : String} (hp : p ∈ hit)
    (hdesc : Relation.ReflTransGen s.Child p c) : c ∈ hit := by
  induction hdesc with
  | refl => exact hp
  | tail _ hchild ih => exact h.closed hchild ih

/-- A row that was open when it was hit is stopped. -/
theorem stopped (h : Sweep s t now hit) {id : String} (hid : id ∈ hit) {row : WorkRow}
    (hrow : s.rows.get? id = some row) (hopen : row.status.isOpen = true) :
    ∃ row', t.rows.get? id = some row' ∧ row'.Stopped := by
  refine ⟨cancelRow now row, by rw [h.hit_rows id hid, hrow]; rfl, .inr ?_⟩
  unfold cancelRow
  rw [hopen]
  split
  · contradiction
  · split
    · simp
    · simp

end Sweep

theorem kin_cancelRows (rows : JsMap String WorkRow) (ids : List String) (now : Int) :
    (cancelRows rows ids now).values.map WorkRow.kin = rows.values.map WorkRow.kin := by
  induction ids generalizing rows with
  | nil => rfl
  | cons id ids ih => exact (ih _).trans (JsMap.map_values_modify (kin_cancelRow now) rows id)

theorem kin_requestCancel (s : WorkStore) (id : String) (now : Int) :
    (s.requestCancel id now).2.rows.values.map WorkRow.kin = s.rows.values.map WorkRow.kin := by
  unfold requestCancel
  split
  · rfl
  · split
    · rfl
    · exact kin_cancelRows _ _ _

theorem kin_cancelChildren (s : WorkStore) (row : WorkRow) (now : Int) :
    (s.cancelChildren row now).rows.values.map WorkRow.kin = s.rows.values.map WorkRow.kin := by
  unfold cancelChildren
  generalize s.rows.values.filter _ = children
  induction children generalizing s with
  | nil => rfl
  | cons child children ih => exact (ih _).trans (kin_requestCancel s child.id now)

section

variable {s : WorkStore} {now : Int}

/-- A request that is not refused sweeps its row and everything below it. -/
theorem requestCancel_sweep (now : Int) (hids : s.IdsMatch) (hkin : s.Kinship) {id : String} {row : WorkRow}
    (hrow : s.rows.get? id = some row) (hopen : row.status.isOpen = true) :
    ∃ hit, id ∈ hit ∧ Sweep s (s.requestCancel id now).2 now hit := by
  refine ⟨fun id' => id' ∈ descendantsFrom row s.rows.values 64 [id], ?_, ?_, ?_, ?_⟩
  · exact subset_descendantsFrom _ _ _ _ (List.mem_singleton.2 rfl)
  · intro id' hid'
    have hmem : id' ∈ descendantsFrom row s.rows.values 64 [id] := hid'
    simp [requestCancel, hrow, hopen, get?_cancelRows, hmem]
  · intro id' hid'
    have hnotin : id' ∉ descendantsFrom row s.rows.values 64 [id] := hid'
    simp [requestCancel, hrow, hopen, get?_cancelRows, hnotin]
  · intro p c hchild hp
    exact descendants_closed hids hkin hrow hchild hp

theorem requestCancel_refused {id : String}
    (h : ∀ row, s.rows.get? id = some row → row.status.isOpen = false) :
    (s.requestCancel id now).2 = s := by
  unfold requestCancel
  split
  · rfl
  · rename_i row hrow
    simp [h row hrow]

/-- Cancelling some rows one after the other sweeps each that was open. -/
theorem requestCancels_sweep {t : WorkStore} {hit : Set String} (children : List WorkRow)
    (hsweep : Sweep s t now hit) (hids : t.IdsMatch) (hkin : t.Kinship) :
    ∃ hit', hit ⊆ hit' ∧
      Sweep s (children.foldl (fun t child => (t.requestCancel child.id now).2) t) now hit' ∧
      ∀ child ∈ children, ∀ row, s.rows.get? child.id = some row → row.status.isOpen = true →
        child.id ∈ hit' := by
  induction children generalizing t hit with
  | nil => exact ⟨hit, Set.Subset.refl hit, hsweep, by simp⟩
  | cons child children ih =>
      have hids' := (requestCancel_sameLeases t child.id now).idsMatch hids
      have hkin' : (t.requestCancel child.id now).2.Kinship := by
        rw [Kinship, kin_requestCancel]
        exact hkin
      -- Either the child is open when its turn comes, or an earlier sweep ended it.
      obtain ⟨hit₁, hsub₁, hsweep₁, hchild⟩ : ∃ hit₁, hit ⊆ hit₁ ∧
          Sweep s (t.requestCancel child.id now).2 now hit₁ ∧
          ∀ row, s.rows.get? child.id = some row → row.status.isOpen = true →
            child.id ∈ hit₁ := by
        by_cases hturn : ∀ row, t.rows.get? child.id = some row → row.status.isOpen = false
        · refine ⟨hit, Set.Subset.refl hit, by rwa [requestCancel_refused hturn], ?_⟩
          intro row hrow hopen
          by_contra hnotin
          have hkept := hsweep.kept_rows _ hnotin
          rw [hrow] at hkept
          rw [hturn row hkept] at hopen
          cases hopen
        · simp only [not_forall, Bool.not_eq_false] at hturn
          obtain ⟨row, hrow, hopen⟩ := hturn
          obtain ⟨hit₁, hmem, hown⟩ := requestCancel_sweep now hids hkin hrow hopen
          exact ⟨hit ∪ hit₁, Set.subset_union_left, hsweep.trans hown, fun _ _ _ => .inr hmem⟩
      obtain ⟨hit₂, hsub₂, hsweep₂, hrest⟩ := ih hsweep₁ hids' hkin'
      refine ⟨hit₂, hsub₁.trans hsub₂, hsweep₂, ?_⟩
      intro child' hmem row hrow hopen
      rcases List.mem_cons.1 hmem with rfl | hmem
      · exact hsub₂ (hchild row hrow hopen)
      · exact hrest child' hmem row hrow hopen

/-- Cancelling the children of a row sweeps every child that is open. -/
theorem cancelChildren_sweep (now : Int) (hids : s.IdsMatch) (hkin : s.Kinship) (row : WorkRow) :
    ∃ hit, Sweep s (s.cancelChildren row now) now hit ∧
      ∀ id child, s.rows.get? id = some child → child.isChildOf row = true →
        child.status.isOpen = true → id ∈ hit := by
  obtain ⟨hit, -, hsweep, hchildren⟩ :=
    requestCancels_sweep (s.rows.values.filter (fun child => child.isChildOf row))
      (Sweep.refl s now) hids hkin
  refine ⟨hit, hsweep, ?_⟩
  intro id child hchild hlink hopen
  have hmem : child ∈ s.rows.values.filter (fun child => child.isChildOf row) :=
    List.mem_filter.2 ⟨JsMap.mem_values_iff.2 ⟨id, hchild⟩, hlink⟩
  have hid : child.id = id := hids id child hchild
  rw [← hid] at hchild ⊢
  exact hchildren child hmem child hchild hopen

end

/-! ## The forest along a run -/

/-- A work is enqueued before its children, and is not its own child. -/
def ParentFirst (s : Timed) (e : Label) : Prop :=
  ∀ now later input randomUUID answer, e = .call now later (.enqueue input randomUUID) answer →
    let id := input.id.getD randomUUID
    s.store.rows.get? id = none →
    (∀ id' row, s.store.rows.get? id' = some row →
      ¬ row.kin.IsChildOf (newRow input id now).kin) ∧
    ¬ (newRow input id now).kin.IsChildOf (newRow input id now).kin

section

variable {s : WorkStore} {now later : Int}

private theorem kin_set {id : String} {row r : WorkRow} (hrow : s.rows.get? id = some row)
    (hkin : r.kin = row.kin) :
    (s.rows.set id r).values.map WorkRow.kin = s.rows.values.map WorkRow.kin :=
  JsMap.map_values_set hrow hkin

theorem kin_settle (proof : LeaseProof) (status : WorkStatus) (goalOutcome : Option GoalOutcome)
    (error : Option String) :
    (s.settle proof status goalOutcome error now later).2.rows.values.map WorkRow.kin
      = s.rows.values.map WorkRow.kin := by
  unfold settle
  cases hlease : s.validLease proof now with
  | none => rfl
  | some row =>
      have hset := kin_set (r := settledRow row status goalOutcome error)
        (validLease_eq_some_iff.1 hlease).1 rfl
      dsimp only
      split
      · rfl
      · dsimp only
        split
        · rwa [releaseSessionLease_rows]
        · rwa [kin_cancelChildren, releaseSessionLease_rows]

/-- Only an enqueue changes the forest. -/
theorem kin_exec (hids : s.IdsMatch) {call : Call}
    (hcall : ∀ input randomUUID, call ≠ .enqueue input randomUUID) :
    (exec opts s now later call).2.rows.values.map WorkRow.kin
      = s.rows.values.map WorkRow.kin := by
  cases call with
  | enqueue input randomUUID => exact absurd rfl (hcall input randomUUID)
  | claim request token =>
      simp only [exec, Prod.map_snd, id_eq, claim_rows]
      cases hclaimed : s.claimedRow request now with
      | none => rfl
      | some row => exact kin_set (claimedRow_spec 0 hids hclaimed).1 rfl
  | heartbeat proof =>
      simp only [exec, Prod.map_snd, id_eq, heartbeat]
      cases hlease : s.validLease proof now with
      | none => rfl
      | some row => exact kin_set (validLease_eq_some_iff.1 hlease).1 rfl
  | getLeased proof => rfl
  | yieldWork proof =>
      simp only [exec, Prod.map_snd, id_eq, yieldWork]
      cases hlease : s.validLease proof now with
      | none => rfl
      | some row =>
          dsimp only
          split
          · rfl
          · rw [releaseSessionLease_rows]
            exact kin_set (validLease_eq_some_iff.1 hlease).1 rfl
  | complete proof completion =>
      simp only [exec, Prod.map_snd, id_eq, complete]
      split
      · rfl
      · exact kin_settle proof _ _ _
  | wait proof goalOutcome => exact kin_settle proof _ _ _
  | requestCancel target => exact kin_requestCancel s target later
  | requestPreempt target =>
      simp only [exec, Prod.map_snd, id_eq, requestPreempt]
      cases hrow : s.rows.get? target with
      | none => rfl
      | some row =>
          dsimp only
          split
          · rfl
          · exact kin_set hrow rfl
  | addSteer target text randomUUID =>
      simp only [exec, Prod.map_snd, id_eq, addSteer]
      cases hrow : s.rows.get? target with
      | none => rfl
      | some row =>
          dsimp only
          split
          · rfl
          · rw [kin_cancelChildren]
            exact kin_set hrow rfl

end

theorem Kinship.step {s s' : Timed} {e : Label} (hids : s.store.IdsMatch)
    (hkin : s.store.Kinship) (hok : ParentFirst s e) (hstep : Step opts s e s') :
    s'.store.Kinship := by
  cases hstep with
  | tick hlater => exact hkin
  | @call now later call hnow hlater =>
      by_cases henqueue : ∃ input randomUUID, call = .enqueue input randomUUID
      · obtain ⟨input, randomUUID, rfl⟩ := henqueue
        simp only [exec, Prod.map_snd, id_eq, enqueue]
        cases hrow : s.store.rows.get? (input.id.getD randomUUID) with
        | some existing =>
            dsimp only
            split
            · exact hkin
            · exact hkin
        | none =>
            obtain ⟨hothers, hself⟩ := hok now later input randomUUID _ rfl hrow
            rw [Kinship, JsMap.values_set_of_none _ hrow, List.map_append]
            apply Forest.Ordered.concat hkin
            · intro kin hmem
              obtain ⟨row, hvalue, rfl⟩ := List.mem_map.1 hmem
              obtain ⟨id', hrow'⟩ := JsMap.mem_values_iff.1 hvalue
              exact hothers id' row hrow'
            · exact hself
      · rw [Kinship, kin_exec hids fun input randomUUID h => henqueue ⟨input, randomUUID, h⟩]
        exact hkin

/-! ## A row that is to stop -/

/-- What no step does to a row that is to stop. A claim that repeats an earlier
    request only repeats its answer. -/
structure Spared (s : Timed) (e : Label) (id : String) : Prop where
  claimed : ∀ {now later request token work}, s.store.priorClaim request = none →
    e = .call now later (.claim request token) (.claimed (.ok (some work))) → work.id ≠ id
  parked : ∀ {now later proof goalOutcome},
    e = .call now later (.wait proof goalOutcome) (.accepted true) → proof.id ≠ id
  steered : ∀ {now later target text randomUUID},
    e = .call now later (.addSteer target text randomUUID) (.accepted true) → target ≠ id
  settled : ∀ {now later proof completion},
    e = .call now later (.complete proof completion) (.completed (.ok true)) → proof.id = id →
    completion.status = .failed ∨ completion.status = .cancelled

theorem stopped_cancelRow {row : WorkRow} (now : Int) (h : row.Stopped) :
    (cancelRow now row).Stopped := by
  unfold cancelRow
  split
  · exact h
  · split
    · exact .inr (by simp)
    · exact .inl rfl

/-- Under a lease a row that is to stop carries the request. -/
theorem asked_of_validLease {s : WorkStore} {proof : LeaseProof} {now : Int} {row : WorkRow}
    (hlease : s.validLease proof now = some row) (h : row.Stopped) :
    row.cancelRequestedAt ≠ none := by
  obtain ⟨-, hlive, -⟩ := validLease_eq_some_iff.1 hlease
  have hleased : row.status = .leased := by simpa [grantOf] using hlive.1
  rcases h with hcancelled | hasked
  · rw [hleased] at hcancelled
    cases hcancelled
  · exact hasked

theorem not_stopped_of_claimedRow {s : WorkStore} {request : ClaimRequest} {now : Int}
    {row : WorkRow} (h : s.claimedRow request now = some row) : ¬ row.Stopped := by
  have hclaimable := claimable_of_claimedRow h
  rintro (hcancelled | hasked)
  · have hstatus := hclaimable.claimable
    simp [claimable, hcancelled] at hstatus
  · exact hasked hclaimable.unstopped

/-- No call takes a request to stop back. -/
theorem RowChange.stopped {s : WorkStore} {now later : Int} {id : String} {call : Call}
    {row : WorkRow} {stored : Option WorkRow}
    (h : RowChange opts s now later id call (some row) stored) (hstopped : row.Stopped) :
    ∃ row', stored = some row' ∧ row'.Stopped := by
  cases h with
  | kept => exact ⟨row, rfl, hstopped⟩
  | cancelled => exact ⟨_, rfl, stopped_cancelRow later hstopped⟩
  | leased hclaimed => exact absurd hstopped (not_stopped_of_claimedRow hclaimed)
  | extended => exact ⟨_, rfl, hstopped⟩
  | yielded _ hlease =>
      have hasked := asked_of_validLease hlease hstopped
      exact ⟨_, rfl, .inr hasked⟩
  | settled _ _ hlease =>
      have hasked := asked_of_validLease hlease hstopped
      exact ⟨_, rfl, .inr hasked⟩
  | preempted => exact ⟨_, rfl, hstopped⟩
  | steered hopen hcancel =>
      rcases hstopped with hcancelled | hasked
      · rw [hcancelled] at hopen
        cases hopen
      · exact absurd hcancel hasked

/-- A row that is to stop settles as failed or cancelled only. -/
theorem settlementRefused_of_stopped {row : WorkRow} {status : WorkStatus}
    (goalOutcome : Option GoalOutcome) (hasked : row.cancelRequestedAt ≠ none)
    (hfailed : status ≠ .failed) (hcancelled : status ≠ .cancelled) :
    settlementRefused row status goalOutcome = true := by
  simp [settlementRefused, hfailed, hcancelled, Option.isSome_iff_ne_none.2 hasked]

theorem settle_accepted {s : WorkStore} {proof : LeaseProof} {status : WorkStatus}
    {goalOutcome : Option GoalOutcome} {error : Option String} {now later : Int}
    (h : (s.settle proof status goalOutcome error now later).1 = true) :
    ∃ row, s.validLease proof now = some row ∧
      settlementRefused row status goalOutcome = false := by
  unfold settle at h
  cases hlease : s.validLease proof now with
  | none => simp [hlease] at h
  | some row =>
      cases hrefused : settlementRefused row status goalOutcome with
      | true => simp [hlease, hrefused] at h
      | false => exact ⟨row, rfl, hrefused⟩

/-- A completion that is accepted settles its row to an end. -/
theorem complete_accepted {s : WorkStore} {proof : LeaseProof} {completion : WorkCompletion}
    {now later : Int} (h : (s.complete proof completion now later).1 = .ok true) :
    workStatusOf completion ≠ .waiting ∧
      (s.settle proof (workStatusOf completion) completion.goalOutcome completion.error now
        later).1 = true := by
  by_cases hwaiting : workStatusOf completion = .waiting
  · simp [complete, hwaiting] at h
  · refine ⟨hwaiting, ?_⟩
    simpa [complete, hwaiting] using h

theorem spared_of_stopped {s s' : Timed} {e : Label} (hids : s.store.IdsMatch)
    (hstep : Step opts s e s') {id : String} {row : WorkRow}
    (hrow : s.store.rows.get? id = some row) (hstopped : row.Stopped) : Spared s e id := by
  have hasked : ∀ {proof : LeaseProof} {now row'}, s.store.validLease proof now = some row' →
      proof.id = id → row'.cancelRequestedAt ≠ none := by
    intro proof now row' hlease hid
    have hget := (validLease_eq_some_iff.1 hlease).1
    rw [hid, hrow] at hget
    exact asked_of_validLease hlease (Option.some.inj hget ▸ hstopped)
  constructor
  · rintro now later request token work hfresh rfl hid
    obtain ⟨-, -, hanswer, -⟩ := step_call_iff.1 hstep
    have hclaimed : ∃ row', s.store.claimedRow request now = some row' ∧ row'.id = work.id := by
      simp only [exec, claim, claimedRow, hfresh, claimFresh, Prod.map_fst] at hanswer ⊢
      split at hanswer
      · simp at hanswer
      · rename_i row' rest hcandidates
        refine ⟨row', by simp [hcandidates], ?_⟩
        obtain rfl : work = _ := by simpa using hanswer
        rfl
    obtain ⟨row', hclaimed, hid'⟩ := hclaimed
    have hget := (claimedRow_spec 0 hids hclaimed).1
    rw [hid', hid, hrow] at hget
    exact not_stopped_of_claimedRow hclaimed (Option.some.inj hget ▸ hstopped)
  · rintro now later proof goalOutcome rfl hid
    obtain ⟨-, -, hanswer, -⟩ := step_call_iff.1 hstep
    have hsettled : (s.store.wait proof goalOutcome now later).1 = true :=
      (Answer.accepted.inj hanswer).symm
    obtain ⟨row', hlease, haccepted⟩ := settle_accepted hsettled
    rw [settlementRefused_of_stopped _ (hasked hlease hid) (by simp) (by simp)] at haccepted
    cases haccepted
  · rintro now later target text randomUUID rfl rfl
    obtain ⟨-, -, hanswer, -⟩ := step_call_iff.1 hstep
    simp only [exec, addSteer, hrow, Prod.map_fst] at hanswer
    rcases hstopped with hcancelled | hrequested
    · simp [hcancelled, WorkStatus.isOpen] at hanswer
    · simp [Option.isSome_iff_ne_none.2 hrequested] at hanswer
  · rintro now later proof completion rfl hid
    obtain ⟨-, -, hanswer, -⟩ := step_call_iff.1 hstep
    have hcompleted : (s.store.complete proof completion now later).1 = .ok true :=
      (Answer.completed.inj hanswer).symm
    obtain ⟨-, hsettled⟩ := complete_accepted hcompleted
    obtain ⟨row', hlease, haccepted⟩ := settle_accepted hsettled
    by_contra hended
    have hstatus : completion.status = .completed := by
      cases hcase : completion.status <;> simp_all
    have hne : workStatusOf completion ≠ .failed ∧ workStatusOf completion ≠ .cancelled := by
      unfold workStatusOf
      rw [hstatus]
      dsimp only
      constructor <;> split <;> simp
    rw [settlementRefused_of_stopped _ (hasked hlease hid) hne.1 hne.2] at haccepted
    cases haccepted

/-! ## How far a step reaches -/

/-- If the row was open before the step, it is stopped after it. -/
def Stops (s s' : Timed) (id : String) : Prop :=
  ∀ row, s.store.rows.get? id = some row → row.status.isOpen = true →
    ∃ row', s'.store.rows.get? id = some row' ∧ row'.Stopped

/-- A cancellation stops its row and everything below it, a settlement
    everything below its row. -/
structure ReachesBelow (s s' : Timed) (e : Label) : Prop where
  cancelled : ∀ {now later id}, e = .call now later (.requestCancel id) (.accepted true) →
    ∀ {d}, Relation.ReflTransGen s.store.Child id d → Stops s s' d
  settled : ∀ {now later proof completion},
    e = .call now later (.complete proof completion) (.completed (.ok true)) →
    ∀ {d}, Relation.TransGen s.store.Child proof.id d → Stops s s' d

/-- When a completion takes effect, no child that is settled already has an open
    row below it that was not asked to stop. -/
def SettledChildrenDone (s : Timed) (e : Label) : Prop :=
  ∀ now later proof completion answer row, e = .call now later (.complete proof completion) answer →
    workStatusOf completion ≠ .waiting → s.store.validLease proof now = some row →
    settlementRefused row (workStatusOf completion) completion.goalOutcome = false →
    ∀ c child d below, s.store.Child proof.id c → s.store.rows.get? c = some child →
      child.status.isOpen = false → Relation.TransGen s.store.Child c d →
      s.store.rows.get? d = some below → below.status.isOpen = true →
      below.cancelRequestedAt ≠ none

section

variable {s s' : Timed} {e : Label}

theorem cancel_reaches (hids : s.store.IdsMatch) (hkin : s.store.Kinship)
    (hstep : Step opts s e s') {now later : Int} {id d : String}
    (he : e = .call now later (.requestCancel id) (.accepted true))
    (hbelow : Relation.ReflTransGen s.store.Child id d) : Stops s s' d := by
  intro row hrow hopen
  subst he
  obtain ⟨-, -, hanswer, rfl⟩ := step_call_iff.1 hstep
  have haccepted : (s.store.requestCancel id later).1 = true :=
    (Answer.accepted.inj hanswer).symm
  obtain ⟨root, hroot, hrootOpen⟩ : ∃ root, s.store.rows.get? id = some root ∧
      root.status.isOpen = true := by
    unfold requestCancel at haccepted
    split at haccepted
    · cases haccepted
    · rename_i root hroot
      refine ⟨root, hroot, ?_⟩
      cases hrootOpen : root.status.isOpen with
      | true => rfl
      | false => simp [hrootOpen] at haccepted
  obtain ⟨hit, hid, hsweep⟩ := requestCancel_sweep later hids hkin hroot hrootOpen
  exact hsweep.stopped (hsweep.descendants hid hbelow) hrow hopen

theorem settlement_reaches (hids : s.store.IdsMatch) (hkin : s.store.Kinship)
    (hdone : SettledChildrenDone s e) (hstep : Step opts s e s') {now later : Int}
    {proof : LeaseProof} {completion : WorkCompletion} {d : String}
    (he : e = .call now later (.complete proof completion) (.completed (.ok true)))
    (hbelow : Relation.TransGen s.store.Child proof.id d) : Stops s s' d := by
  intro row hrow hopen
  subst he
  obtain ⟨-, -, hanswer, rfl⟩ := step_call_iff.1 hstep
  have hcompleted : (s.store.complete proof completion now later).1 = .ok true :=
    (Answer.completed.inj hanswer).symm
  obtain ⟨hwaiting, hsettled⟩ := complete_accepted hcompleted
  obtain ⟨parent, hlease, haccepted⟩ := settle_accepted hsettled
  have hparent := (validLease_eq_some_iff.1 hlease).1
  obtain ⟨c, hchild, hrest⟩ := Relation.TransGen.head'_iff.1 hbelow
  obtain ⟨pr, child, hpr, hcr, hlink⟩ := id hchild
  obtain rfl := Option.some.inj (hparent.symm.trans hpr)
  cases hchildOpen : child.status.isOpen with
  | false =>
      -- Nothing is asked of a settled child, so what is below it was asked before.
      have hproper : Relation.TransGen s.store.Child c d := by
        rcases Relation.reflTransGen_iff_eq_or_transGen.1 hrest with rfl | hproper
        · rw [hcr] at hrow
          rw [Option.some.inj hrow, hopen] at hchildOpen
          cases hchildOpen
        · exact hproper
      have hasked := hdone now later proof completion _ parent rfl hwaiting hlease haccepted
        c child d row hchild hcr hchildOpen hproper hrow hopen
      have hchange := exec_row opts now later d hids (.complete proof completion)
      rw [hrow] at hchange
      exact hchange.stopped (.inr hasked)
  | true =>
      let settled := settledRow parent (workStatusOf completion) completion.goalOutcome
        completion.error
      let mid : WorkStore := ({ s.store with rows := s.store.rows.set proof.id settled } :
        WorkStore).releaseSessionLease settled proof.fence
      have hmidRows : mid.rows = s.store.rows.set proof.id settled :=
        releaseSessionLease_rows _ _ _
      have hmidKin : mid.rows.values.map WorkRow.kin = s.store.rows.values.map WorkRow.kin := by
        rw [hmidRows]
        exact kin_set hparent rfl
      have hmidIds : mid.IdsMatch := 
        hids.set settled (show parent.id = proof.id from hids _ _ hparent) hmidRows
      have hmidKinship : mid.Kinship := by
        rw [Kinship, hmidKin]
        exact hkin
      have hkept : ∀ id, id ≠ proof.id → mid.rows.get? id = s.store.rows.get? id := by
        intro id hid
        rw [hmidRows, JsMap.get?_set_of_ne _ hid]
      have hfamily : ∀ id, (mid.rows.get? id).map WorkRow.kin
          = (s.store.rows.get? id).map WorkRow.kin := by
        intro id
        by_cases hid : id = proof.id
        · subst hid
          rw [hmidRows, JsMap.get?_set_self, hparent]
          rfl
        · rw [hkept id hid]
      have hchildKept := hkept c (hkin.acyclic hids (.single hchild)).symm
      have hrowKept := hkept d (hkin.acyclic hids hbelow).symm
      obtain ⟨hit, hsweep, hchildren⟩ :=
        cancelChildren_sweep later hmidIds hmidKinship settled
      have hhit : c ∈ hit := by
        apply hchildren c child (hchildKept.trans hcr) _ hchildOpen
        exact WorkRow.isChildOf_iff.2 hlink
      have hhitBelow : d ∈ hit :=
        hsweep.descendants hhit (Relation.ReflTransGen.mono (fun _ _ h => child_of_kin hfamily h) _ _ hrest)
      have hafter : (exec opts s.store now later (.complete proof completion)).2
          = mid.cancelChildren settled later := by
        simp [exec, complete, hwaiting, settle, hlease, haccepted, mid, settled]
      rw [hafter]
      exact hsweep.stopped hhitBelow (hrowKept.trans hrow) hopen

end

/-- The steps of a run in which parents are enqueued first and no settlement
    passes by what is below a settled child. -/
def Orderly (s : Timed) (e : Label) : Prop := ParentFirst s e ∧ SettledChildrenDone s e

theorem kinship_of_run {ok : Timed → Label → Prop} (hok : ∀ {s e}, ok s e → ParentFirst s e)
    {s₀ s : Timed} {es : List Label} (hstart : (system opts t₀).start s₀)
    (hrun : ((system opts t₀).restrict ok).Run s₀ es s) :
    s.store.IdsMatch ∧ s.store.Kinship := by
  refine hrun.preserves (I := fun s => s.store.IdsMatch ∧ s.store.Kinship) ?_ ?_
  · rintro s e s' ⟨hids, hkin⟩ ⟨hmeets, hstep⟩
    exact ⟨((refinement opts t₀).step hids hstep).1, hkin.step hids (hok hmeets) hstep⟩
  · obtain rfl : s₀ = ⟨init, t₀⟩ := hstart
    exact ⟨((refinement opts t₀).start rfl).1, .nil, by simp [init, JsMap.values, JsMap.empty]⟩

/-- Every step reaches the whole subtree, and a row that is to stop stays so and
    is spared by every later step. -/
theorem cancellation_final {s₀ s t t' : Timed} {es fs : List Label} {e : Label}
    (hstart : (system opts t₀).start s₀)
    (hrun : ((system opts t₀).restrict Orderly).Run s₀ es s)
    (hlater : ((system opts t₀).restrict Orderly).Run s fs t)
    (hstep : ((system opts t₀).restrict Orderly).step t e t') :
    ReachesBelow t t' e ∧
      ∀ id row, s.store.rows.get? id = some row → row.Stopped →
        (∃ row', t.store.rows.get? id = some row' ∧ row'.Stopped) ∧ Spared t e id := by
  obtain ⟨hids, hkin⟩ := kinship_of_run (fun h => h.1) hstart (hrun.trans hlater)
  obtain ⟨⟨-, hdone⟩, hstep⟩ := hstep
  refine ⟨⟨?_, ?_⟩, ?_⟩
  · intro now later id he d hbelow
    exact cancel_reaches hids hkin hstep he hbelow
  · intro now later proof completion he d hbelow
    exact settlement_reaches hids hkin hdone hstep he hbelow
  · intro id row hrow hstopped
    have hstart' := (kinship_of_run (fun h => h.1) hstart hrun).1
    have hstays : t.store.IdsMatch ∧ ∃ row', t.store.rows.get? id = some row' ∧ row'.Stopped := by
      refine hlater.preserves (I := fun t => t.store.IdsMatch ∧
        ∃ row', t.store.rows.get? id = some row' ∧ row'.Stopped) ?_ ⟨hstart', row, hrow, hstopped⟩
      rintro u f u' ⟨hids, row', hrow', hstopped'⟩ ⟨-, hcall⟩
      refine ⟨((refinement opts t₀).step hids hcall).1, ?_⟩
      cases hcall with
      | tick => exact ⟨row', hrow', hstopped'⟩
      | @call now later call =>
          have hchange := exec_row opts now later id hids call
          rw [hrow'] at hchange
          exact hchange.stopped hstopped'
    obtain ⟨-, row', hrow', hstopped'⟩ := hstays
    exact ⟨⟨row', hrow', hstopped'⟩, spared_of_stopped hids hstep hrow' hstopped'⟩

/-! ### A work enqueued below a settled child -/

private def treeOptions : WorkStoreOptions := ⟨1000, fun token => "digest of " ++ token⟩

private def treeInput (id sessionId : String) (parent : Option String) : EnqueueWorkInput :=
  ⟨some id, "t", "a", sessionId, none, "turn", .interactive, "m", none, none, none,
    parent.map (fun parent => [("parentWorkId", .str parent)])⟩

/-- A root, under way, and its child. -/
private def treeStarted : List (Int × Call) :=
  [(0, .enqueue (treeInput "root" "s1" none) ""), (1, .claim { workerId := "worker" } "t1"),
    (2, .enqueue (treeInput "child" "s2" (some "root")) "")]

/-- The child settles, and gets a child of its own afterwards. -/
private def treeGrown : List (Int × Call) :=
  treeStarted ++
    [(3, .claim { workerId := "worker" } "t2"),
      (4, .complete ⟨"child", 1, "digest of t2"⟩ { status := .completed }),
      (5, .enqueue (treeInput "grandchild" "s3" (some "child")) "")]

theorem parentFirst_of_check {s : Timed} {now later : Int} {input : EnqueueWorkInput}
    {randomUUID : String} {answer : Answer}
    (h : (input.meta_ :: s.store.rows.values.map WorkRow.meta_).all
      (fun meta_ => JsonObject.getString? meta_ "parentWorkId"
        != some (input.id.getD randomUUID)) = true) :
    ParentFirst s (.call now later (.enqueue input randomUUID) answer) := by
  intro now' later' input' randomUUID' answer' he id _
  cases he
  simp only [List.all_cons, Bool.and_eq_true, List.all_map, List.all_eq_true, bne_iff_ne, ne_eq,
    Function.comp_apply] at h
  obtain ⟨hself, hothers⟩ := h
  refine ⟨?_, fun hlink => hself hlink.1⟩
  intro id' row hrow hlink
  exact hothers row (JsMap.mem_values_iff.2 ⟨id', hrow⟩) hlink.1

theorem parentFirst_of_ne {s : Timed} {now later : Int} {call : Call} {answer : Answer}
    (h : ∀ input randomUUID, call ≠ .enqueue input randomUUID) :
    ParentFirst s (.call now later call answer) := by
  rintro now' later' input randomUUID answer' he
  cases he
  exact absurd rfl (h input randomUUID)

private theorem treeGrown_run : ((system treeOptions 0).restrict ParentFirst).Run ⟨init, 0⟩
    (Timed.trace treeOptions ⟨init, 0⟩ treeGrown)
    (Timed.play treeOptions ⟨init, 0⟩ treeGrown) := by
  apply run_play_restrict (by simp [InOrder, treeGrown, treeStarted])
  exact ⟨parentFirst_of_check (by decide +kernel), parentFirst_of_ne (by simp),
    parentFirst_of_check (by decide +kernel), parentFirst_of_ne (by simp), parentFirst_of_ne (by simp),
    parentFirst_of_check (by decide +kernel), trivial⟩

/-- The store before the root settles. -/
private def treeStore : Timed := Timed.play treeOptions ⟨init, 0⟩ treeGrown

private theorem tree_child : treeStore.store.Child "root" "child" :=
  ⟨_, _, rfl, rfl, rfl, rfl, rfl⟩

private theorem tree_grandchild : treeStore.store.Child "child" "grandchild" :=
  ⟨_, _, rfl, rfl, rfl, rfl, rfl⟩

private theorem tree_settles : ((system treeOptions 0).restrict ParentFirst).step treeStore
    (.call 6 6 (.complete ⟨"root", 1, "digest of t1"⟩ { status := .completed })
      (.completed (.ok true)))
    ⟨(exec treeOptions treeStore.store 6 6
      (.complete ⟨"root", 1, "digest of t1"⟩ { status := .completed })).2, 6⟩ :=
  ⟨parentFirst_of_ne (by simp), step_call_iff.2 ⟨by decide, le_rfl, rfl, rfl⟩⟩

/-- The grandchild after that is still in the queue, and nobody asked it to stop. -/
private theorem tree_missed {row : WorkRow}
    (h : (exec treeOptions treeStore.store 6 6
      (.complete ⟨"root", 1, "digest of t1"⟩ { status := .completed })).2.rows.get? "grandchild"
        = some row) : ¬ row.Stopped := by
  have hkept : (((exec treeOptions treeStore.store 6 6
      (.complete ⟨"root", 1, "digest of t1"⟩ { status := .completed })).2.rows.get?
        "grandchild").map (fun row => (row.status, row.cancelRequestedAt)))
          = some (.queued, none) := by decide +kernel
  rw [h, Option.map_some, Option.some.injEq, Prod.mk.injEq] at hkept
  rintro (hcancelled | hasked)
  · rw [hkept.1] at hcancelled
    cases hcancelled
  · exact hasked hkept.2

/-- The root settles: its child answers the request to cancel with a refusal,
    and the grandchild stays in the queue. -/
theorem settlement_misses_grandchild :
    ¬ ∀ (opts : WorkStoreOptions) (t₀ : Int) (s₀ s t t' : Timed) (es fs : List Label) (e : Label),
      (system opts t₀).start s₀ → ((system opts t₀).restrict ParentFirst).Run s₀ es s →
      ((system opts t₀).restrict ParentFirst).Run s fs t →
      ((system opts t₀).restrict ParentFirst).step t e t' →
      ReachesBelow t t' e ∧
        ∀ id row, s.store.rows.get? id = some row → row.Stopped →
          (∃ row', t.store.rows.get? id = some row' ∧ row'.Stopped) ∧ Spared t e id := by
  intro h
  obtain ⟨hreaches, -⟩ := h treeOptions 0 ⟨init, 0⟩ treeStore treeStore _ _ [] _ rfl
    treeGrown_run (.refl _) tree_settles
  have hbelow : Relation.TransGen treeStore.store.Child "root" "grandchild" :=
    .tail (.single tree_child) tree_grandchild
  have hopen : treeStore.store.rows.get? "grandchild" = some _ := rfl
  obtain ⟨row', hrow', hstopped⟩ := hreaches.settled rfl hbelow _ hopen rfl
  exact tree_missed hrow' hstopped

/-! ### A work stopped below a settled child -/

/-- The grandchild is claimed, and asked to stop. -/
private def treeStopped : List (Int × Call) :=
  treeGrown ++ [(6, .claim { workerId := "worker" } "t3"), (7, .requestCancel "grandchild")]

private theorem done_of_ne {s : Timed} {now later : Int} {call : Call} {answer : Answer}
    (h : ∀ proof completion, call ≠ .complete proof completion) :
    SettledChildrenDone s (.call now later call answer) := by
  rintro now' later' proof completion answer' row he
  cases he
  exact absurd rfl (h proof completion)

/-- Every open work with a parent was asked to stop, or no work with a parent is settled. -/
private theorem done_of_check {s : Timed} {now later : Int} {proof : LeaseProof}
    {completion : WorkCompletion} {answer : Answer}
    (h : (s.store.rows.values.all fun row => (JsonObject.getString? row.meta_ "parentWorkId").isNone
        || !row.status.isOpen || row.cancelRequestedAt.isSome) = true
      ∨ (s.store.rows.values.all fun row => (JsonObject.getString? row.meta_ "parentWorkId").isNone
        || row.status.isOpen) = true) :
    SettledChildrenDone s (.call now later (.complete proof completion) answer) := by
  rintro now' later' proof' completion' answer' row he - - - c child d below hchild hrow hsettled
    hbelow hbelowRow hopen
  cases he
  have hlinked : ∀ {id id' link}, s.store.Child id id' → s.store.rows.get? id' = some link →
      JsonObject.getString? link.meta_ "parentWorkId" ≠ none ∧ link ∈ s.store.rows.values := by
    rintro id id' link ⟨pr, child, -, hget, hlink, -⟩ hget'
    obtain rfl := Option.some.inj (hget.symm.trans hget')
    refine ⟨?_, JsMap.mem_values_iff.2 ⟨id', hget⟩⟩
    intro hnone
    rw [WorkRow.kin, hnone] at hlink
    cases hlink
  rcases h with hasked | hopened
  · obtain ⟨x, -, hlast⟩ := Relation.TransGen.tail'_iff.1 hbelow
    obtain ⟨hparent, hmem⟩ := hlinked hlast hbelowRow
    have hcheck := List.all_eq_true.1 hasked below hmem
    simpa [hparent, hopen, Option.isSome_iff_ne_none] using hcheck
  · obtain ⟨hparent, hmem⟩ := hlinked hchild hrow
    have hcheck := List.all_eq_true.1 hopened child hmem
    simp [hparent, hsettled] at hcheck

/-- The root settles when its child is settled and the grandchild asked to stop. -/
theorem cancellation_final_child :
    Stops (Timed.play treeOptions ⟨init, 0⟩ treeStopped)
      ⟨(exec treeOptions (Timed.play treeOptions ⟨init, 0⟩ treeStopped).store 8 8
        (.complete ⟨"root", 1, "digest of t1"⟩ { status := .completed })).2, 8⟩ "grandchild" := by
  have hrun : ((system treeOptions 0).restrict Orderly).Run ⟨init, 0⟩
      (Timed.trace treeOptions ⟨init, 0⟩ treeStopped)
      (Timed.play treeOptions ⟨init, 0⟩ treeStopped) := by
    apply run_play_restrict (by simp [InOrder, treeStopped, treeGrown, treeStarted])
    exact ⟨⟨parentFirst_of_check (by decide +kernel), done_of_ne (by simp)⟩,
      ⟨parentFirst_of_ne (by simp), done_of_ne (by simp)⟩,
      ⟨parentFirst_of_check (by decide +kernel), done_of_ne (by simp)⟩,
      ⟨parentFirst_of_ne (by simp), done_of_ne (by simp)⟩,
      ⟨parentFirst_of_ne (by simp), done_of_check (.inr (by decide +kernel))⟩,
      ⟨parentFirst_of_check (by decide +kernel), done_of_ne (by simp)⟩,
      ⟨parentFirst_of_ne (by simp), done_of_ne (by simp)⟩,
      ⟨parentFirst_of_ne (by simp), done_of_ne (by simp)⟩, trivial⟩
  have hstep : ((system treeOptions 0).restrict Orderly).step
      (Timed.play treeOptions ⟨init, 0⟩ treeStopped)
      (.call 8 8 (.complete ⟨"root", 1, "digest of t1"⟩ { status := .completed })
        (.completed (.ok true))) _ :=
    ⟨⟨parentFirst_of_ne (by simp), done_of_check (.inl (by decide +kernel))⟩,
      step_call_iff.2 ⟨by decide, le_rfl, rfl, rfl⟩⟩
  have hbelow : Relation.TransGen (Timed.play treeOptions ⟨init, 0⟩ treeStopped).store.Child
      "root" "grandchild" := by
    apply Relation.TransGen.tail (b := "child") (.single _)
    · exact ⟨_, _, rfl, rfl, rfl, rfl, rfl⟩
    · exact ⟨_, _, rfl, rfl, rfl, rfl, rfl⟩
  exact (cancellation_final rfl hrun (.refl _) hstep).1.settled rfl hbelow

end WorkStore

end LingxiOS
