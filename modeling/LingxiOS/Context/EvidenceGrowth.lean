-- SUMMARY: What one recorded read adds to an evidence snapshot.
import LingxiOS.Context.Evidence

/-! # Evidence Growth

A read appends items that carry its key, and afterwards the snapshot quotes every
source the read returned, or is full. So a read that is folded in again changes
nothing. -/

namespace LingxiOS

variable {sha256 : String → String} {snapshot snapshot' : EvidenceSnapshot}
  {items added : List EvidenceItem} {sources : List SourceEvidence} {source : SourceEvidence}
  {actionKey action : String} {result : HostActionResult}

/-! ## Promoted sources -/

theorem quotes_append (h : quotes items source = true) :
    quotes (items ++ added) source = true := by
  unfold quotes at h ⊢
  rw [List.any_append, h, Bool.true_or]

theorem quotes_promote : quotes (items ++ [promote items actionKey source]) source = true := by
  simp [quotes, promote, EvidenceItem.isTruncated]

/-- Sources that are all quoted are not promoted. -/
theorem promoteAll_of_quoted
    (h : 200 ≤ items.length ∨ ∀ source ∈ sources, quotes items source = true) :
    promoteAll actionKey items sources = items := by
  induction sources with
  | nil => rfl
  | cons source rest ih =>
      unfold promoteAll
      split
      · rfl
      · rename_i hroom
        have hquoted := h.resolve_left hroom
        rw [if_pos (hquoted source List.mem_cons_self)]
        exact ih (.inr fun other hmem => hquoted other (List.mem_cons_of_mem _ hmem))

theorem promoteAll_added (actionKey : String) (items : List EvidenceItem)
    (sources : List SourceEvidence) : ∃ added,
    promoteAll actionKey items sources = items ++ added
      ∧ ∀ item ∈ added, item.actionKey = some actionKey := by
  induction sources generalizing items with
  | nil => exact ⟨[], (List.append_nil _).symm, nofun⟩
  | cons source rest ih =>
      unfold promoteAll
      split
      · exact ⟨[], (List.append_nil _).symm, nofun⟩
      · split
        · exact ih items
        · obtain ⟨added, hadded, hkeyed⟩ := ih (items ++ [promote items actionKey source])
          refine ⟨promote items actionKey source :: added, ?_, ?_⟩
          · rw [hadded, List.append_assoc, List.singleton_append]
          · exact List.forall_mem_cons.mpr ⟨rfl, hkeyed⟩

/-- After the loop every source is quoted, unless the snapshot is full. -/
theorem promoteAll_quotes (actionKey : String) (items : List EvidenceItem)
    (sources : List SourceEvidence) :
    200 ≤ (promoteAll actionKey items sources).length
      ∨ ∀ source ∈ sources, quotes (promoteAll actionKey items sources) source = true := by
  induction sources generalizing items with
  | nil => exact .inr nofun
  | cons source rest ih =>
      have hkept : ∀ items', quotes items' source = true →
          200 ≤ (promoteAll actionKey items' rest).length
            ∨ ∀ other ∈ source :: rest, quotes (promoteAll actionKey items' rest) other = true := by
        intro items' hquoted
        obtain ⟨added, hadded, -⟩ := promoteAll_added actionKey items' rest
        rcases ih items' with hfull | hrest
        · exact .inl hfull
        · refine .inr (List.forall_mem_cons.mpr ⟨?_, hrest⟩)
          rw [hadded]
          exact quotes_append hquoted
      unfold promoteAll
      split
      · rename_i hfull
        exact .inl hfull
      · split
        · rename_i hquoted
          exact hkept items hquoted
        · exact hkept _ quotes_promote

theorem promoteAll_eq_self_iff : promoteAll actionKey items sources = items ↔
    200 ≤ items.length ∨ ∀ source ∈ sources, quotes items source = true := by
  constructor
  · intro h
    have hquotes := promoteAll_quotes actionKey items sources
    rwa [h] at hquotes
  · exact promoteAll_of_quoted

theorem promoteAll_idem : promoteAll actionKey (promoteAll actionKey items sources) sources
    = promoteAll actionKey items sources :=
  promoteAll_of_quoted (promoteAll_quotes actionKey items sources)

/-! ## What one read adds -/

/-- The items one action appended to a snapshot. -/
structure GrownBy (actionKey : String) (snapshot snapshot' : EvidenceSnapshot)
    (added : List EvidenceItem) : Prop where
  items : snapshot'.items = snapshot.items ++ added
  keyed : ∀ item ∈ added, item.actionKey = some actionKey
  same : added = [] → snapshot' = snapshot

namespace GrownBy

theorem refl (actionKey : String) (snapshot : EvidenceSnapshot) :
    GrownBy actionKey snapshot snapshot [] :=
  ⟨(List.append_nil _).symm, nofun, fun _ => rfl⟩

theorem trans {snapshot'' : EvidenceSnapshot} {added' : List EvidenceItem}
    (h : GrownBy actionKey snapshot snapshot' added)
    (h' : GrownBy actionKey snapshot' snapshot'' added') :
    GrownBy actionKey snapshot snapshot'' (added ++ added') := by
  constructor
  · rw [h'.items, h.items, List.append_assoc]
  · intro item hmem
    rcases List.mem_append.mp hmem with hmem | hmem
    · exact h.keyed item hmem
    · exact h'.keyed item hmem
  · intro hnone
    obtain ⟨hadded, hadded'⟩ := List.append_eq_nil_iff.mp hnone
    rw [h'.same hadded', h.same hadded]

theorem eq_self_iff (h : GrownBy actionKey snapshot snapshot' added) :
    snapshot' = snapshot ↔ added = [] := by
  constructor
  · intro heq
    have hitems := h.items
    rw [heq] at hitems
    exact List.self_eq_append_right.mp hitems
  · exact h.same

end GrownBy

theorem grownSnapshot_grownBy (hkeyed : ∀ item ∈ added, item.actionKey = some actionKey)
    (hadded : added ≠ []) (h : grownSnapshot sha256 (snapshot.items ++ added) = .ok snapshot') :
    GrownBy actionKey snapshot snapshot' added :=
  ⟨grownSnapshot_items h, hkeyed, fun hnone => absurd hnone hadded⟩

theorem appendResearchEvidence_grownBy
    (h : appendResearchEvidence sha256 snapshot actionKey result = .ok snapshot') :
    ∃ added, GrownBy actionKey snapshot snapshot' added := by
  unfold appendResearchEvidence at h
  split at h
  · cases h
    exact ⟨[], .refl _ _⟩
  · dsimp only at h
    split at h
    · cases h
      exact ⟨[], .refl _ _⟩
    · exact ⟨_, grownSnapshot_grownBy (by simp) (List.cons_ne_nil _ _) h⟩

theorem appendSources_grownBy
    (h : appendSources sha256 snapshot actionKey result = .ok snapshot') :
    ∃ added, GrownBy actionKey snapshot snapshot' added := by
  obtain ⟨added, hadded, hkeyed⟩ := promoteAll_added actionKey snapshot.items result.evidence
  unfold appendSources at h
  rw [hadded] at h
  split at h
  · cases h
    exact ⟨[], .refl _ _⟩
  · split at h
    · cases h
    · dsimp only at h
      split at h
      · cases h
        exact ⟨[], .refl _ _⟩
      · rename_i hlength
        refine ⟨added, grownSnapshot_grownBy hkeyed ?_ h⟩
        rintro rfl
        simp at hlength

theorem appendReadEvidence_grownBy
    (h : appendReadEvidence sha256 snapshot actionKey result action = .ok snapshot') :
    ∃ added, GrownBy actionKey snapshot snapshot' added := by
  unfold appendReadEvidence at h
  split at h
  · obtain ⟨read, hread, hsources⟩ := Except.bind_ok h
    obtain ⟨added, hadded⟩ := appendResearchEvidence_grownBy hread
    obtain ⟨added', hadded'⟩ := appendSources_grownBy hsources
    exact ⟨_, hadded.trans hadded'⟩
  · exact appendSources_grownBy h

/-! ## Reading again -/

/-- The read brings no source that the items lack: it was not a success, it returned
    none, the snapshot is full, or every one is quoted already. -/
def bringsNothing (items : List EvidenceItem) (result : HostActionResult) : Bool :=
  !result.ok || result.isUnknown || result.approval.isSome || result.directive.isSome
    || decide (200 ≤ items.length) || result.evidence.all (quotes items)

/-- The sources of a read leave the snapshot alone exactly when they bring nothing. -/
theorem appendSources_eq_self_iff
    (h : appendSources sha256 snapshot actionKey result = .ok snapshot') :
    snapshot' = snapshot ↔ bringsNothing snapshot.items result = true := by
  unfold appendSources at h
  split at h
  · rename_i hskipped
    cases h
    refine iff_of_true rfl ?_
    simp only [Bool.or_eq_true, List.isEmpty_iff] at hskipped
    unfold bringsNothing
    rcases hskipped with (((hskipped | hskipped) | hskipped) | hskipped) | hskipped <;>
      simp [hskipped]
  · rename_i hskipped
    simp only [Bool.or_eq_true, not_or, Bool.not_eq_true] at hskipped
    obtain ⟨⟨⟨⟨hok, hunknown⟩, happroval⟩, hdirective⟩, -⟩ := hskipped
    have hbrings : bringsNothing snapshot.items result = true
        ↔ promoteAll actionKey snapshot.items result.evidence = snapshot.items := by
      rw [promoteAll_eq_self_iff]
      simp [bringsNothing, hunknown, happroval, hdirective, hok]
    split at h
    · cases h
    · dsimp only at h
      rw [hbrings]
      split at h
      · rename_i hlength
        cases h
        obtain ⟨added, hadded, -⟩ := promoteAll_added actionKey snapshot.items result.evidence
        refine iff_of_true rfl ?_
        rw [hadded, List.length_append, Nat.add_eq_left, List.length_eq_zero_iff] at hlength
        rw [hadded, hlength, List.append_nil]
      · rename_i hlength
        refine iff_of_false ?_ ?_
        · rintro rfl
          exact hlength (congrArg List.length (grownSnapshot_items h)).symm
        · exact fun heq => hlength (congrArg List.length heq)

/-- The sources that were promoted, if the snapshot takes the grown items. -/
theorem grown_items (h : (if (promoteAll actionKey snapshot.items sources).length
      = snapshot.items.length then .ok snapshot
    else grownSnapshot sha256 (promoteAll actionKey snapshot.items sources)) = .ok snapshot') :
    snapshot'.items = promoteAll actionKey snapshot.items sources := by
  split at h
  · rename_i hlength
    cases h
    obtain ⟨added, hadded, -⟩ := promoteAll_added actionKey snapshot.items sources
    rw [hadded, List.length_append, Nat.add_eq_left, List.length_eq_zero_iff] at hlength
    rw [hadded, hlength, List.append_nil]
  · exact grownSnapshot_items h

theorem appendSources_idem (h : appendSources sha256 snapshot actionKey result = .ok snapshot') :
    appendSources sha256 snapshot' actionKey result = .ok snapshot' := by
  unfold appendSources at h ⊢
  split at h
  · rename_i hskipped
    exact if_pos hskipped
  · rename_i hskipped
    rw [if_neg hskipped]
    split at h
    · cases h
    · rename_i hfew
      rw [if_neg hfew]
      dsimp only at h ⊢
      have hitems := grown_items h
      rw [if_pos]
      rw [hitems, promoteAll_idem]

/-- Once the web read is in the snapshot, or the snapshot is full, it is skipped. -/
theorem appendResearchEvidence_idem {snapshot'' : EvidenceSnapshot}
    (h : appendResearchEvidence sha256 snapshot actionKey result = .ok snapshot')
    (hgrown : snapshot'.items <+: snapshot''.items) :
    appendResearchEvidence sha256 snapshot'' actionKey result = .ok snapshot'' := by
  obtain ⟨added, hadded⟩ := hgrown
  unfold appendResearchEvidence at h ⊢
  split at h
  · rfl
  · dsimp only at h ⊢
    rw [if_pos]
    rw [← hadded, List.any_append, List.length_append]
    simp only [Bool.or_eq_true, decide_eq_true_eq]
    split at h
    · rename_i hknown
      cases h
      simp only [Bool.or_eq_true, decide_eq_true_eq] at hknown
      rcases hknown with hknown | hfull
      · exact .inl (.inl hknown)
      · exact .inr (Nat.le_add_right_of_le hfull)
    · left
      left
      rw [grownSnapshot_items h, List.any_append]
      simp

/-- A read that is folded in again changes nothing. -/
theorem appendReadEvidence_idem
    (h : appendReadEvidence sha256 snapshot actionKey result action = .ok snapshot') :
    appendReadEvidence sha256 snapshot' actionKey result action = .ok snapshot' := by
  unfold appendReadEvidence at h ⊢
  split at h
  · rename_i haction
    rw [if_pos haction]
    obtain ⟨read, hread, hsources⟩ := Except.bind_ok h
    obtain ⟨added, hadded⟩ := appendSources_grownBy hsources
    have hagain := appendResearchEvidence_idem hread ⟨added, hadded.items.symm⟩
    rw [hagain, Except.ok_bind]
    exact appendSources_idem hsources
  · rename_i haction
    rw [if_neg haction]
    exact appendSources_idem h

end LingxiOS
