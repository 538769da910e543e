-- SUMMARY: An evidence snapshot after reads, in either order.
import LingxiOS.Context.EvidenceGrowth
import Mathlib.Data.List.Perm.Subperm

/-! # Order of Reads

Markers are found by search, so a new one is never in use. Two reads under different keys
quote the same excerpts in either order, until the snapshot is full. -/

namespace LingxiOS

variable {sha256 : String → String} {snapshot snapshot' : EvidenceSnapshot}
  {items checked added : List EvidenceItem} {item : EvidenceItem} {sources : List SourceEvidence}
  {source : SourceEvidence} {actionKey action : String} {result : HostActionResult}

/-! ## Markers -/

theorem toList_markerOf (n : Nat) : (markerOf n).toList = 'S' :: Nat.toDigits 10 n := by
  simp [markerOf, Nat.toString_eq_repr, Nat.toList_repr]

theorem markerOf_inj {m n : Nat} (h : markerOf m = markerOf n) : m = n := by
  have hlist := congrArg String.toList h
  rw [toList_markerOf, toList_markerOf, List.cons.injEq] at hlist
  exact Text.toDigits_inj hlist.2

/-- The digits of a positive number do not start with a zero. -/
theorem head_toDigits {n : Nat} (h : 0 < n) :
    ∃ d rest, Nat.toDigits 10 n = d :: rest ∧ d ≠ '0' := by
  induction n using Nat.strongRecOn with
  | ind n ih =>
      rw [Nat.toDigits_eq_if (by decide)]
      by_cases hsmall : n < 10
      case pos =>
        refine ⟨n.digitChar, [], if_pos hsmall, fun hzero => ?_⟩
        have hcode := congrArg Char.toNat hzero
        rw [Nat.toNat_digitChar_of_lt_ten hsmall] at hcode
        change 48 + n = 48 at hcode
        omega
      case neg =>
        obtain ⟨d, rest, hdigits, hd⟩ := ih (n / 10) (by omega) (by omega)
        exact ⟨d, _, by rw [if_neg hsmall, hdigits]; rfl, hd⟩

theorem isMarker_markerOf {n : Nat} (h : 0 < n) : isMarker (markerOf n) = true := by
  obtain ⟨d, rest, hdigits, hd⟩ := head_toDigits h
  have hall : ∀ c ∈ d :: rest, Text.isDigit c = true := by
    intro c hc
    have hdigit := Nat.isDigit_of_mem_toDigits (by decide) (by decide) (hdigits ▸ hc)
    simpa [Text.isDigit, Char.isDigit, Char.le_def] using hdigit
  rw [isMarker, toList_markerOf, hdigits]
  simp only [Bool.and_eq_true, bne_iff_ne, List.all_eq_true]
  exact ⟨⟨hall d List.mem_cons_self, hd⟩, fun c hc => hall c (List.mem_cons_of_mem _ hc)⟩

/-- The search ends at a number that no item carries. -/
theorem freshMarker_spec (items : List EvidenceItem) : ∃ n, 0 < n
    ∧ freshMarker items = markerOf n ∧ ∀ item ∈ items, item.marker ≠ markerOf n := by
  have hpresent : ∃ n ∈ (List.range (items.length + 1)).map (· + 1),
      (!items.any fun item => item.marker == markerOf n) = true := by
    by_contra hnone
    have hsubset : (((List.range (items.length + 1)).map (· + 1)).map markerOf)
        ⊆ items.map EvidenceItem.marker := by
      intro marker hmarker
      obtain ⟨n, hn, rfl⟩ := List.mem_map.1 hmarker
      have hused := not_and.1 (not_exists.1 hnone n) hn
      simp only [Bool.not_eq_true', Bool.not_eq_false, List.any_eq_true, beq_iff_eq] at hused
      obtain ⟨item, hitem, hcarries⟩ := hused
      exact List.mem_map.2 ⟨item, hitem, hcarries⟩
    have hnodup : (((List.range (items.length + 1)).map (· + 1)).map markerOf).Nodup :=
      (List.nodup_range.map fun _ _ h => Nat.succ.inj h).map fun _ _ => markerOf_inj
    have hlength := (hnodup.subperm hsubset).length_le
    simp only [List.length_map, List.length_range] at hlength
    omega
  obtain ⟨n, hn⟩ := Option.isSome_iff_exists.1 (List.find?_isSome.2 hpresent)
  have hmem := List.mem_of_find?_eq_some hn
  have hunused := List.find?_some hn
  simp only [List.mem_map, List.mem_range] at hmem
  obtain ⟨m, -, rfl⟩ := hmem
  refine ⟨m + 1, Nat.succ_pos m, ?_, fun item hitem => ?_⟩
  · simp only [freshMarker]
    rw [hn]
    rfl
  · simp only [Bool.not_eq_true', List.any_eq_false, beq_iff_eq] at hunused
    exact hunused item hitem

/-- Added items whose markers are new, each to those before it too. -/
structure Fresh (items added : List EvidenceItem) : Prop where
  unused : ∀ item ∈ added, ∀ other ∈ items, other.marker ≠ item.marker
  distinct : (added.map EvidenceItem.marker).Nodup

theorem Fresh.nil (items : List EvidenceItem) : Fresh items [] := ⟨nofun, List.nodup_nil⟩

theorem Fresh.singleton (h : item.marker = freshMarker items) : Fresh items [item] := by
  obtain ⟨n, -, hmarker, hunused⟩ := freshMarker_spec items
  refine ⟨fun other hother => ?_, List.nodup_singleton _⟩
  obtain rfl := List.mem_singleton.1 hother
  rw [h, hmarker]
  exact hunused

theorem Fresh.append {added' : List EvidenceItem} (h : Fresh items added)
    (h' : Fresh (items ++ added) added') : Fresh items (added ++ added') where
  unused := by
    intro item hitem other hother
    rcases List.mem_append.1 hitem with hitem | hitem
    · exact h.unused item hitem other hother
    · exact h'.unused item hitem other (List.mem_append_left _ hother)
  distinct := by
    rw [List.map_append]
    refine h.distinct.append h'.distinct fun marker hmarker hmarker' => ?_
    obtain ⟨other, hother, rfl⟩ := List.mem_map.1 hmarker
    obtain ⟨item, hitem, heq⟩ := List.mem_map.1 hmarker'
    exact h'.unused item hitem other (List.mem_append_right _ hother) heq.symm

/-! ## Acceptance -/

/-- What `snapshotEvidence` accepts under an identifier that is not blank. -/
def AcceptedItems (items : List EvidenceItem) : Prop :=
  items.length ≤ 200 ∧ checkEvidenceItems [] items = .ok ()

theorem checkEvidenceItems_append (checked items added : List EvidenceItem) :
    checkEvidenceItems checked (items ++ added)
      = checkEvidenceItems checked items >>= fun _ => checkEvidenceItems (checked ++ items) added := by
  induction items generalizing checked with
  | nil => simp [checkEvidenceItems]
  | cons item rest ih =>
      simp only [List.cons_append, checkEvidenceItems]
      cases checkEvidenceItem item with
      | error e => rfl
      | ok _ =>
          simp only [ih, List.append_assoc, List.cons_append, List.nil_append]
          split
          case isTrue => rfl
          case isFalse =>
            split
            case isTrue => rfl
            case isFalse => rfl

/-- An item under a new marker needs its own checks only. -/
theorem AcceptedItems.snoc (h : AcceptedItems items) (hroom : items.length < 200)
    (hitem : checkEvidenceItem item = .ok ()) (hfresh : item.marker = freshMarker items) :
    AcceptedItems (items ++ [item]) := by
  have hunused := (Fresh.singleton hfresh).unused item List.mem_cons_self
  have hconflict : (items.any fun other =>
      other.marker == item.marker && other.source != item.source) = false := by
    refine List.any_eq_false.2 fun other hother => ?_
    simp [hunused other hother]
  have hduplicate : (items.any fun other =>
      other.marker == item.marker && other.chunkId == item.chunkId) = false := by
    refine List.any_eq_false.2 fun other hother => ?_
    simp [hunused other hother]
  refine ⟨by rw [List.length_append]; exact hroom, ?_⟩
  rw [checkEvidenceItems_append, h.2]
  simp [checkEvidenceItems, hitem, hconflict, hduplicate]

theorem snapshotEvidence_eq_ok_iff {id : String} : snapshotEvidence id items = .ok snapshot
    ↔ Text.isBlank id = false ∧ AcceptedItems items ∧ snapshot = ⟨1, id, items⟩ := by
  unfold snapshotEvidence AcceptedItems
  split
  case isTrue h =>
    simp only [Bool.or_eq_true, decide_eq_true_eq] at h
    refine iff_of_false nofun fun ⟨hid, hitems, _⟩ => ?_
    rcases h with h | h
    · rw [hid] at h
      cases h
    · omega
  case isFalse h =>
    simp only [Bool.or_eq_true, decide_eq_true_eq, not_or, Bool.not_eq_true] at h
    cases hcheck : checkEvidenceItems [] items with
    | error e => simp
    | ok _ => simp [h.1, Nat.not_lt.1 h.2, eq_comm]

theorem grownSnapshot_eq_ok_iff : grownSnapshot sha256 items = .ok snapshot
    ↔ AcceptedItems items ∧ snapshot
      = ⟨1, "evidence:" ++ sha256 (Json.arr (items.map EvidenceItem.toJson)).canonical, items⟩ := by
  have hid (text : String) : Text.isBlank ("evidence:" ++ text) = false := by
    rw [Text.isBlank, String.toList_append]
    rfl
  rw [grownSnapshot, snapshotEvidence_eq_ok_iff]
  simp only [hid, true_and]

/-! ## What a read adds -/

/-- A snapshot that grew by items under new markers. -/
structure Extended (snapshot snapshot' : EvidenceSnapshot) : Prop where
  kept : ∃ added, snapshot'.items = snapshot.items ++ added ∧ Fresh snapshot.items added
  accepted : snapshotEvidence snapshot'.id snapshot'.items = .ok snapshot'
  room : snapshot'.items.length ≤ 200

theorem Extended.refl (hvalid : snapshotEvidence snapshot.id snapshot.items = .ok snapshot) :
    Extended snapshot snapshot :=
  ⟨⟨[], (List.append_nil _).symm, .nil _⟩, hvalid, (snapshotEvidence_eq_ok_iff.1 hvalid).2.1.1⟩

theorem Extended.trans {snapshot'' : EvidenceSnapshot} (h : Extended snapshot snapshot')
    (h' : Extended snapshot' snapshot'') : Extended snapshot snapshot'' := by
  obtain ⟨added, hadded, hfresh⟩ := h.kept
  obtain ⟨added', hadded', hfresh'⟩ := h'.kept
  rw [hadded] at hadded' hfresh'
  exact ⟨⟨added ++ added', by rw [hadded', List.append_assoc], hfresh.append hfresh'⟩,
    h'.accepted, h'.room⟩

theorem grownSnapshot_extended (hfresh : Fresh snapshot.items added)
    (h : grownSnapshot sha256 (snapshot.items ++ added) = .ok snapshot') :
    Extended snapshot snapshot' := by
  refine ⟨⟨added, grownSnapshot_items h, hfresh⟩, snapshotEvidence_idem h, ?_⟩
  rw [grownSnapshot_items h]
  exact (grownSnapshot_eq_ok_iff.1 h).1.1

theorem fresh_promoteAll (h : promoteAll actionKey items sources = items ++ added) :
    Fresh items added := by
  induction sources generalizing items added with
  | nil =>
      obtain rfl := List.self_eq_append_right.1 h
      exact .nil items
  | cons source rest ih =>
      unfold promoteAll at h
      split at h
      · obtain rfl := List.self_eq_append_right.1 h
        exact .nil items
      · split at h
        · exact ih h
        · obtain ⟨added', hadded, -⟩ :=
            promoteAll_added actionKey (items ++ [promote items actionKey source]) rest
          have hrest := ih hadded
          rw [hadded, List.append_assoc, List.append_cancel_left_eq] at h
          obtain rfl := h
          exact (Fresh.singleton rfl).append hrest

theorem appendSources_extended (hvalid : snapshotEvidence snapshot.id snapshot.items = .ok snapshot)
    (h : appendSources sha256 snapshot actionKey result = .ok snapshot') :
    Extended snapshot snapshot' := by
  obtain ⟨added, hadded, -⟩ := promoteAll_added actionKey snapshot.items result.evidence
  unfold appendSources at h
  split at h
  · cases h
    exact .refl hvalid
  · split at h
    · cases h
    · dsimp only at h
      split at h
      · cases h
        exact .refl hvalid
      · rw [hadded] at h
        exact grownSnapshot_extended (fresh_promoteAll hadded) h

theorem appendResearchEvidence_extended
    (hvalid : snapshotEvidence snapshot.id snapshot.items = .ok snapshot)
    (h : appendResearchEvidence sha256 snapshot actionKey result = .ok snapshot') :
    Extended snapshot snapshot' := by
  unfold appendResearchEvidence at h
  split at h
  · cases h
    exact .refl hvalid
  · dsimp only at h
    split at h
    · cases h
      exact .refl hvalid
    · exact grownSnapshot_extended (Fresh.singleton rfl) h

theorem appendReadEvidence_extended
    (hvalid : snapshotEvidence snapshot.id snapshot.items = .ok snapshot)
    (h : appendReadEvidence sha256 snapshot actionKey result action = .ok snapshot') :
    Extended snapshot snapshot' := by
  unfold appendReadEvidence at h
  split at h
  · obtain ⟨read, hread, hsources⟩ := Except.bind_ok h
    have hextended := appendResearchEvidence_extended hvalid hread
    exact hextended.trans (appendSources_extended hextended.accepted hsources)
  · exact appendSources_extended hvalid h

/-- The result is no success, its outcome is unknown, or it ends the turn. -/
def HostActionResult.withheld (result : HostActionResult) : Bool :=
  !result.ok || result.isUnknown || result.directive.isSome

theorem appendReadEvidence_withheld
    (h : result.withheld = true ∨ (result.approval.isSome = true ∧ action ≠ "research.read")) :
    appendReadEvidence sha256 snapshot actionKey result action = .ok snapshot := by
  have hsources : appendSources sha256 snapshot actionKey result = .ok snapshot := by
    refine if_pos ?_
    rcases h with h | ⟨h, -⟩
    · simp only [HostActionResult.withheld, Bool.or_eq_true] at h
      rcases h with (h | h) | h <;> simp [h]
    · simp [h]
  unfold appendReadEvidence
  split
  case isTrue haction =>
    have hwithheld := h.resolve_right fun hpending => hpending.2 haction
    have hvalue : researchValue result = none := if_pos hwithheld
    rw [appendResearchEvidence, hvalue]
    exact hsources
  case isFalse => exact hsources

/-! ## When a read is folded in -/

/-- The key and the sources of a read that a snapshot can take. -/
structure Promotable (actionKey : String) (result : HostActionResult) : Prop where
  key : Text.isBlank actionKey = false ∧ Text.length actionKey ≤ 2000
  few : result.evidence.length ≤ 8
  sources : ∀ source ∈ result.evidence, checkEvidenceItem (promote [] actionKey source) = .ok ()

theorem isMarker_freshMarker (items : List EvidenceItem) : isMarker (freshMarker items) = true := by
  obtain ⟨n, hn, hmarker, -⟩ := freshMarker_spec items
  rw [hmarker]
  exact isMarker_markerOf hn

/-- The checks of an item do not depend on which marker it has. -/
theorem checkEvidenceItem_promote (items : List EvidenceItem) (actionKey : String)
    (source : SourceEvidence) : checkEvidenceItem (promote items actionKey source)
      = checkEvidenceItem (promote [] actionKey source) := by
  have hmarker (items : List EvidenceItem) :
      isMarker (promote items actionKey source).marker = true := isMarker_freshMarker items
  unfold checkEvidenceItem
  rw [hmarker items, hmarker []]
  rfl

theorem accepted_promoteAll (h : AcceptedItems items)
    (hsources : ∀ source ∈ sources, checkEvidenceItem (promote [] actionKey source) = .ok ()) :
    AcceptedItems (promoteAll actionKey items sources) := by
  induction sources generalizing items with
  | nil => exact h
  | cons source rest ih =>
      obtain ⟨hsource, hrest⟩ := List.forall_mem_cons.1 hsources
      unfold promoteAll
      split
      · exact h
      · rename_i hroom
        split
        · exact ih h hrest
        · have hitem := (checkEvidenceItem_promote items actionKey source).trans hsource
          exact ih (h.snoc (Nat.lt_of_not_le hroom) hitem rfl) hrest

theorem appendSources_returns (hitems : AcceptedItems snapshot.items)
    (h : Promotable actionKey result) :
    ∃ snapshot', appendSources sha256 snapshot actionKey result = .ok snapshot' := by
  unfold appendSources
  split
  · exact ⟨_, rfl⟩
  · rw [if_neg (Nat.not_lt.2 h.few)]
    dsimp only
    split
    · exact ⟨_, rfl⟩
    · exact ⟨_, grownSnapshot_eq_ok_iff.2 ⟨accepted_promoteAll hitems h.sources, rfl⟩⟩

theorem takeUnits_length (limit : Nat) (chars : List Char) :
    ((Text.takeUnits limit chars).map Text.charUnits).sum ≤ limit := by
  induction chars generalizing limit with
  | nil => exact Nat.zero_le _
  | cons c rest ih =>
      have hrest := ih (limit - Text.charUnits c)
      rw [Text.takeUnits]
      split
      case isTrue h =>
        rw [List.map_cons, List.sum_cons]
        omega
      case isFalse => exact Nat.zero_le _

/-- An address starts with `http`. -/
theorem toList_of_isHttpUrl {url : String} (h : Text.isHttpUrl url = true) :
    ∃ rest, url.toList = 'h' :: 't' :: 't' :: 'p' :: rest := by
  simp only [Text.isHttpUrl, Text.hasPrefix, Bool.or_eq_true, List.isPrefixOf_iff_prefix] at h
  rcases h with ⟨rest, hrest⟩ | ⟨rest, hrest⟩
  · exact ⟨_, hrest.symm⟩
  · exact ⟨_, hrest.symm⟩

theorem isHttpUrlAnyCase_of_isHttpUrl {url : String} (h : Text.isHttpUrl url = true) :
    Text.isHttpUrlAnyCase url = true := by
  simp only [Text.isHttpUrlAnyCase, Text.isHttpUrl, Text.hasPrefix, Bool.or_eq_true,
    List.isPrefixOf_iff_prefix, String.toList_ofList] at h ⊢
  exact h.imp (fun hstart => hstart.map Text.foldCase) fun hstart => hstart.map Text.foldCase

/-- The item of a web read passes its checks under a key an item can have. -/
theorem checkEvidenceItem_research {text finalUrl digest : String} {truncated : Bool}
    (hkey : Text.isBlank actionKey = false ∧ Text.length actionKey ≤ 2000)
    (h : researchValue result = some (text, finalUrl, digest, truncated))
    (items : List EvidenceItem) (flag : Option Bool) :
    checkEvidenceItem
      { marker := freshMarker items, actionKey := some actionKey
        sourceId := finalUrl, sourceVersion := "sha256:" ++ digest, chunkId := actionKey
        title := Text.slice 2000 finalUrl, excerpt := text, url := some finalUrl
        truncated := flag } = .ok () := by
  have htext : Text.isBlank text = false ∧ Text.length text ≤ 65536
      ∧ Text.isHttpUrl finalUrl = true := by
    unfold researchValue at h
    split at h
    · cases h
    · split at h
      · cases h
      · split at h
        case h_1 =>
          split at h
          · cases h
          case isFalse hchecks =>
            simp only [Option.some.injEq, Prod.mk.injEq] at h
            obtain ⟨rfl, rfl, -⟩ := h
            simp only [Bool.or_eq_true, decide_eq_true_eq, not_or, Bool.not_eq_true,
              Bool.not_eq_eq_eq_not, Bool.not_true, Nat.not_lt, Bool.not_eq_false] at hchecks
            exact ⟨hchecks.1.1.1, hchecks.1.1.2, hchecks.1.2⟩
        case h_2 => cases h
  obtain ⟨hblank, hlength, hurl⟩ := htext
  obtain ⟨rest, hrest⟩ := toList_of_isHttpUrl hurl
  have hsource : Text.isBlank finalUrl = false := by rw [Text.isBlank, hrest]; rfl
  have hversion : Text.isBlank ("sha256:" ++ digest) = false := by
    rw [Text.isBlank, String.toList_append]
    rfl
  have htitle : Text.isBlank (Text.slice 2000 finalUrl) = false := by
    rw [Text.isBlank, Text.slice, String.toList_ofList, hrest]
    rfl
  have htitle' : Text.length (Text.slice 2000 finalUrl) ≤ 2000 := by
    rw [Text.length, Text.slice, String.toList_ofList]
    exact takeUnits_length _ _
  rw [checkEvidenceItem, isMarker_freshMarker]
  simp [hsource, hversion, hkey.1, htitle, hblank, Nat.not_lt.2 hlength, Nat.not_lt.2 htitle',
    Nat.not_lt.2 hkey.2, isHttpUrlAnyCase_of_isHttpUrl hurl]

theorem appendResearchEvidence_returns (hitems : AcceptedItems snapshot.items)
    (hkey : Text.isBlank actionKey = false ∧ Text.length actionKey ≤ 2000) :
    ∃ snapshot', appendResearchEvidence sha256 snapshot actionKey result = .ok snapshot' := by
  unfold appendResearchEvidence
  split
  · exact ⟨_, rfl⟩
  · rename_i text finalUrl digest truncated hvalue
    dsimp only
    split
    · exact ⟨_, rfl⟩
    · rename_i hnew
      simp only [Bool.or_eq_true, decide_eq_true_eq, not_or, Nat.not_le] at hnew
      exact ⟨_, grownSnapshot_eq_ok_iff.2 ⟨hitems.snoc hnew.2
        (checkEvidenceItem_research hkey hvalue _ _) rfl, rfl⟩⟩

theorem appendReadEvidence_returns
    (hvalid : snapshotEvidence snapshot.id snapshot.items = .ok snapshot)
    (h : Promotable actionKey result) : ∃ snapshot',
      appendReadEvidence sha256 snapshot actionKey result action = .ok snapshot' := by
  have hitems := (snapshotEvidence_eq_ok_iff.1 hvalid).2.1
  unfold appendReadEvidence
  split
  · obtain ⟨read, hread⟩ := @appendResearchEvidence_returns sha256 _ _ result hitems h.key
    have hextended := appendResearchEvidence_extended hvalid hread
    rw [hread, Except.ok_bind]
    exact appendSources_returns (snapshotEvidence_eq_ok_iff.1 hextended.accepted).2.1 h
  · exact appendSources_returns hitems h

/-! ## Excerpts -/

/-- An excerpt of a source, however it is marked. -/
structure Excerpt where
  sourceId : String
  sourceVersion : String
  excerpt : String
  truncated : Bool
  deriving DecidableEq

def EvidenceItem.quoted (item : EvidenceItem) : Excerpt :=
  ⟨item.sourceId, item.sourceVersion, item.excerpt, item.isTruncated⟩

def SourceEvidence.quoted (source : SourceEvidence) : Excerpt :=
  ⟨source.sourceId, source.sourceVersion, source.excerpt, source.truncated.getD false⟩

/-- The source excerpts of a snapshot. -/
def excerpts (items : List EvidenceItem) : Set Excerpt := {x | ∃ item ∈ items, item.quoted = x}

@[simp] theorem mem_excerpts_append {x : Excerpt} :
    x ∈ excerpts (items ++ added) ↔ x ∈ excerpts items ∨ x ∈ excerpts added := by
  simp [excerpts, or_and_right, exists_or]

@[simp] theorem mem_excerpts_singleton {x : Excerpt} :
    x ∈ excerpts [item] ↔ item.quoted = x := by
  simp [excerpts, eq_comm]

theorem quoted_mem_of_quotes (h : quotes items source = true) : source.quoted ∈ excerpts items := by
  simp only [quotes, List.any_eq_true, Bool.and_eq_true, beq_iff_eq] at h
  obtain ⟨item, hitem, ⟨⟨⟨hid, hversion⟩, -⟩, hexcerpt⟩, htruncated⟩ := h
  refine ⟨item, hitem, ?_⟩
  simp only [EvidenceItem.quoted, SourceEvidence.quoted, hid, hversion, hexcerpt, htruncated]

theorem mem_excerpts_promoteAll {x : Excerpt}
    (hroom : (promoteAll actionKey items sources).length < 200) :
    x ∈ excerpts (promoteAll actionKey items sources)
      ↔ x ∈ excerpts items ∨ ∃ source ∈ sources, source.quoted = x := by
  induction sources generalizing items with
  | nil => simp [promoteAll]
  | cons source rest ih =>
      have hlt := (le_promoteAll_length actionKey items (source :: rest)).trans_lt hroom
      rw [promoteAll, if_neg (Nat.not_le.2 hlt)] at hroom ⊢
      split at hroom
      · rename_i hquotes
        rw [if_pos hquotes, ih hroom]
        have hknown := quoted_mem_of_quotes hquotes
        simp only [List.exists_mem_cons_iff]
        grind
      · rename_i hquotes
        have hquoted : (promote items actionKey source).quoted = source.quoted := rfl
        rw [if_neg hquotes, ih hroom, mem_excerpts_append, mem_excerpts_singleton, hquoted,
          List.exists_mem_cons_iff, or_assoc]

/-- Some item carries the key. -/
def keyed (actionKey : String) (items : List EvidenceItem) : Bool :=
  items.any fun item => item.actionKey == some actionKey

/-- The excerpt of a web read. -/
def webExcerpt (result : HostActionResult) : Option Excerpt :=
  (researchValue result).map fun (text, finalUrl, digest, truncated) =>
    ⟨finalUrl, "sha256:" ++ digest, text, truncated⟩

/-- The excerpts a read brings to a snapshot in which its key is used or not. -/
def Brings (used : Bool) (result : HostActionResult) (action : String) (x : Excerpt) : Prop :=
  (action = "research.read" ∧ used = false ∧ webExcerpt result = some x)
  ∨ (result.withheld = false ∧ result.approval = none ∧ ∃ source ∈ result.evidence, source.quoted = x)

theorem mem_excerpts_appendSources {x : Excerpt}
    (h : appendSources sha256 snapshot actionKey result = .ok snapshot')
    (hroom : snapshot'.items.length < 200) : x ∈ excerpts snapshot'.items
      ↔ x ∈ excerpts snapshot.items ∨ (result.withheld = false ∧ result.approval = none
        ∧ ∃ source ∈ result.evidence, source.quoted = x) := by
  unfold appendSources at h
  split at h
  case isTrue hskipped =>
    cases h
    refine (or_iff_left ?_).symm
    rintro ⟨hwithheld, happroval, source, hsource, -⟩
    simp only [HostActionResult.withheld, Bool.or_eq_false_iff] at hwithheld
    simp [hwithheld, happroval, List.ne_nil_of_mem hsource] at hskipped
  case isFalse hskipped =>
    have htaken : result.withheld = false ∧ result.approval = none := by
      simp only [Bool.or_eq_true, not_or, Bool.not_eq_true] at hskipped
      obtain ⟨⟨⟨⟨hok, hunknown⟩, happroval⟩, hdirective⟩, -⟩ := hskipped
      exact ⟨by simp [HostActionResult.withheld, hok, hunknown, hdirective],
        Option.isNone_iff_eq_none.1 (by rw [← Option.not_isSome, happroval]; rfl)⟩
    split at h
    · cases h
    · dsimp only at h
      rw [grown_items h] at hroom ⊢
      rw [mem_excerpts_promoteAll hroom]
      simp only [htaken, true_and]

theorem mem_excerpts_appendResearchEvidence {x : Excerpt}
    (h : appendResearchEvidence sha256 snapshot actionKey result = .ok snapshot')
    (hroom : snapshot'.items.length < 200) : x ∈ excerpts snapshot'.items
      ↔ x ∈ excerpts snapshot.items
        ∨ (keyed actionKey snapshot.items = false ∧ webExcerpt result = some x) := by
  unfold appendResearchEvidence at h
  split at h
  · rename_i hvalue
    cases h
    simp [webExcerpt, hvalue]
  · rename_i text finalUrl digest truncated hvalue
    have hweb : webExcerpt result = some ⟨finalUrl, "sha256:" ++ digest, text, truncated⟩ := by
      rw [webExcerpt, hvalue]
      rfl
    dsimp only at h
    rw [hweb, Option.some.injEq]
    split at h
    · rename_i hknown
      cases h
      refine (or_iff_left_of_imp ?_).symm
      rintro ⟨hunused, rfl⟩
      simp only [Bool.or_eq_true, decide_eq_true_eq, Nat.not_le.2 hroom, or_false,
        List.any_eq_true, Bool.and_eq_true, beq_iff_eq] at hknown
      obtain ⟨item, hitem, hkey | hsame⟩ := hknown
      · have huse := List.any_eq_false.1 hunused item hitem
        simp [hkey] at huse
      · obtain ⟨⟨⟨hid, hversion⟩, hexcerpt⟩, htruncated⟩ := hsame
        exact ⟨item, hitem, by simp only [EvidenceItem.quoted, hid, hversion, hexcerpt, htruncated]⟩
    · rename_i hnew
      have hunused : keyed actionKey snapshot.items = false := by
        refine List.any_eq_false.2 fun item hitem hkey => hnew ?_
        rw [Bool.or_eq_true]
        exact .inl (List.any_eq_true.2 ⟨item, hitem, by rw [hkey]; rfl⟩)
      have hquoted : (if truncated then some true else none).getD false = truncated := by
        cases truncated <;> rfl
      rw [grownSnapshot_items h, mem_excerpts_append, mem_excerpts_singleton]
      simp only [EvidenceItem.quoted, EvidenceItem.isTruncated, hquoted, hunused, true_and]

/-- A read with room left adds the excerpts it brings. -/
theorem mem_excerpts_appendReadEvidence {x : Excerpt}
    (h : appendReadEvidence sha256 snapshot actionKey result action = .ok snapshot')
    (hroom : snapshot'.items.length < 200) : x ∈ excerpts snapshot'.items
      ↔ x ∈ excerpts snapshot.items ∨ Brings (keyed actionKey snapshot.items) result action x := by
  unfold appendReadEvidence at h
  split at h
  case isTrue haction =>
    obtain ⟨read, hread, hsources⟩ := Except.bind_ok h
    have hread_room : read.items.length < 200 := by
      rcases appendSources_grows hsources with rfl | hgrows
      · exact hroom
      · exact hgrows.trans hroom
    rw [mem_excerpts_appendSources hsources hroom,
      mem_excerpts_appendResearchEvidence hread hread_room, or_assoc]
    simp only [Brings, haction, true_and]
  case isFalse haction =>
    rw [mem_excerpts_appendSources h hroom]
    simp only [Brings, haction, false_and, false_or]

/-- A read does not use the key of another one. -/
theorem keyed_appendReadEvidence {otherKey : String} (hkeys : otherKey ≠ actionKey)
    (h : appendReadEvidence sha256 snapshot actionKey result action = .ok snapshot') :
    keyed otherKey snapshot'.items = keyed otherKey snapshot.items := by
  obtain ⟨added, hgrown⟩ := appendReadEvidence_grownBy h
  have hadded : keyed otherKey added = false := by
    refine List.any_eq_false.2 fun item hitem => ?_
    rw [hgrown.keyed item hitem]
    simpa using Ne.symm hkeys
  rw [hgrown.items, keyed, List.any_append]
  exact (congrArg _ hadded).trans (Bool.or_false _)

/-! ## Stability -/

/-- A read that is taken extends the snapshot under new markers and is not taken again; two
    reads under different keys quote the same excerpts in either order while there is room. -/
theorem appendReadEvidence_stable (sha256 : String → String) {snapshot : EvidenceSnapshot}
    (hvalid : snapshotEvidence snapshot.id snapshot.items = .ok snapshot) :
    (∀ actionKey result action, Promotable actionKey result → ∃ snapshot',
      appendReadEvidence sha256 snapshot actionKey result action = .ok snapshot')
    ∧ (∀ actionKey result action snapshot',
      appendReadEvidence sha256 snapshot actionKey result action = .ok snapshot' →
      Extended snapshot snapshot'
        ∧ appendReadEvidence sha256 snapshot' actionKey result action = .ok snapshot')
    ∧ (∀ actionKey (result : HostActionResult) action,
      result.withheld = true ∨ (result.approval.isSome = true ∧ action ≠ "research.read") →
      appendReadEvidence sha256 snapshot actionKey result action = .ok snapshot)
    ∧ ∀ keyA resultA actionA keyB resultB actionB a ab b ba, keyA ≠ keyB →
      appendReadEvidence sha256 snapshot keyA resultA actionA = .ok a →
      appendReadEvidence sha256 a keyB resultB actionB = .ok ab →
      appendReadEvidence sha256 snapshot keyB resultB actionB = .ok b →
      appendReadEvidence sha256 b keyA resultA actionA = .ok ba →
      ab.items.length < 200 → ba.items.length < 200 →
      excerpts ab.items = excerpts ba.items := by
  refine ⟨fun _ _ _ => appendReadEvidence_returns hvalid,
    fun _ _ _ _ h => ⟨appendReadEvidence_extended hvalid h, appendReadEvidence_idem h⟩,
    fun _ _ _ => appendReadEvidence_withheld, ?_⟩
  intro keyA resultA actionA keyB resultB actionB a ab b ba hkeys ha hab hb hba hroom hroom'
  have hshorter {snapshot snapshot' : EvidenceSnapshot} {actionKey action : String}
      {result : HostActionResult}
      (h : appendReadEvidence sha256 snapshot actionKey result action = .ok snapshot')
      (hlt : snapshot'.items.length < 200) : snapshot.items.length < 200 := by
    rcases appendReadEvidence_grows h with rfl | hgrows
    · exact hlt
    · exact hgrows.trans hlt
  ext x
  rw [mem_excerpts_appendReadEvidence hab hroom,
    mem_excerpts_appendReadEvidence ha (hshorter hab hroom),
    mem_excerpts_appendReadEvidence hba hroom',
    mem_excerpts_appendReadEvidence hb (hshorter hba hroom'),
    keyed_appendReadEvidence (Ne.symm hkeys) ha, keyed_appendReadEvidence hkeys hb, or_assoc,
    or_assoc]
  exact or_congr_right or_comm

private def blankSnapshot : EvidenceSnapshot := ⟨1, "evidence", []⟩

private def excerptOf (sourceId : String) : SourceEvidence where
  sourceId := sourceId
  sourceVersion := "1"
  chunkId := "c"
  title := "t"
  excerpt := "e"

private def readOf (sources : List SourceEvidence) : HostActionResult where
  ok := true
  evidence := sources

private def webRead (finalUrl : String) : HostActionResult where
  ok := true
  value := some (.obj [("text", .str "e"), ("finalUrl", .str finalUrl),
    ("sha256", .str (String.ofList (List.replicate 64 '0')))])

/-- Items of one excerpt under different markers. -/
private def filledItems : Nat → List EvidenceItem
  | 0 => []
  | n + 1 => filledItems n ++ [promote (filledItems n) "old" (excerptOf "old")]

/-- Two items, and one more for each key that was read. -/
private def readUnder (keys : List String) : EvidenceSnapshot :=
  ⟨1, "evidence:0", keys.foldl (fun items key => items ++ [promote items key (excerptOf key)])
    (filledItems 2)⟩

/-- Two reads on top of two items, in either order. -/
theorem appendReadEvidence_stable_read :
    let read (snapshot : EvidenceSnapshot) (key : String) :=
      appendReadEvidence (fun _ => "0") snapshot key (readOf [excerptOf key]) "docs.read"
    ∃ a ab b ba, read (readUnder []) "a" = .ok a ∧ read a "b" = .ok ab
      ∧ read (readUnder []) "b" = .ok b ∧ read b "a" = .ok ba
      ∧ Extended (readUnder []) a ∧ excerpts ab.items = excerpts ba.items := by
  have hstable := @appendReadEvidence_stable (fun _ => "0") (readUnder []) (by decide +kernel)
  have ha : appendReadEvidence (fun _ => "0") (readUnder []) "a" (readOf [excerptOf "a"]) "docs.read"
      = .ok (readUnder ["a"]) := by decide +kernel
  have hab : appendReadEvidence (fun _ => "0") (readUnder ["a"]) "b" (readOf [excerptOf "b"])
      "docs.read" = .ok (readUnder ["a", "b"]) := by decide +kernel
  have hb : appendReadEvidence (fun _ => "0") (readUnder []) "b" (readOf [excerptOf "b"]) "docs.read"
      = .ok (readUnder ["b"]) := by decide +kernel
  have hba : appendReadEvidence (fun _ => "0") (readUnder ["b"]) "a" (readOf [excerptOf "a"])
      "docs.read" = .ok (readUnder ["b", "a"]) := by decide +kernel
  exact ⟨_, _, _, _, ha, hab, hb, hba, (hstable.2.1 _ _ _ _ ha).1,
    hstable.2.2.2 _ _ _ _ _ _ _ _ _ _ (by decide) ha hab hb hba (by decide) (by decide)⟩

/-! ### Reads that are refused, and reads that do not commute -/

private def webQuote (finalUrl : String) : Excerpt :=
  ⟨finalUrl, "sha256:" ++ String.ofList (List.replicate 64 '0'), "e", false⟩

private theorem filledItems_accepted (n : Nat) (h : n ≤ 200) :
    (filledItems n).length = n ∧ AcceptedItems (filledItems n)
      ∧ ∀ item ∈ filledItems n, item.sourceId = "old" := by
  induction n with
  | zero => exact ⟨rfl, ⟨Nat.zero_le _, rfl⟩, nofun⟩
  | succ n ih =>
      obtain ⟨hlength, haccepted, hold⟩ := ih (by omega)
      have hitem : checkEvidenceItem (promote (filledItems n) "old" (excerptOf "old")) = .ok () :=
        (checkEvidenceItem_promote _ _ _).trans (by decide +kernel)
      refine ⟨by rw [filledItems, List.length_append, hlength]; rfl,
        haccepted.snoc (by omega) hitem rfl, fun item hmem => ?_⟩
      rcases List.mem_append.1 hmem with hmem | hmem
      · exact hold item hmem
      · rw [List.mem_singleton.1 hmem]
        rfl

private theorem append_last (hlength : snapshot.items.length = 199)
    (haccepted : AcceptedItems snapshot.items) (hold : ∀ item ∈ snapshot.items, item.sourceId = "old")
    {source : SourceEvidence} (hnew : source.sourceId ≠ "old")
    (h : Promotable actionKey (readOf [source])) : ∃ snapshot',
      appendReadEvidence (fun _ => "0") snapshot actionKey (readOf [source]) "docs.read" = .ok snapshot'
      ∧ snapshot'.items.length = 200
      ∧ excerpts snapshot'.items = {x | x ∈ excerpts snapshot.items ∨ x = source.quoted} := by
  obtain ⟨snapshot', hread⟩ := @appendSources_returns (fun _ => "0") snapshot _ _ haccepted h
  have hquotes : quotes snapshot.items source = false := by
    refine List.any_eq_false.2 fun item hitem => ?_
    simp [hold item hitem, Ne.symm hnew]
  have hpromoted : promoteAll actionKey snapshot.items [source]
      = snapshot.items ++ [promote snapshot.items actionKey source] := by
    rw [promoteAll, if_neg (by omega), if_neg (by simp [hquotes]), promoteAll]
  have hitems : snapshot'.items = snapshot.items ++ [promote snapshot.items actionKey source] :=
    hpromoted ▸ grown_items hread
  refine ⟨snapshot', by rwa [appendReadEvidence, if_neg (by decide)], ?_, ?_⟩
  · rw [hitems, List.length_append, hlength]
    rfl
  · ext x
    rw [hitems, mem_excerpts_append, mem_excerpts_singleton]
    exact or_congr_right eq_comm

private theorem append_full (hfull : snapshot.items.length = 200) (source : SourceEvidence) :
    appendReadEvidence (fun _ => "0") snapshot actionKey (readOf [source]) "docs.read" = .ok snapshot := by
  have hpromoted : promoteAll actionKey snapshot.items [source] = snapshot.items :=
    promoteAll_of_quoted (.inl hfull.ge)
  rw [appendReadEvidence, if_neg (by decide), appendSources]
  simp only [readOf, hpromoted, if_true]
  rfl

/-- The excerpts two reads leave, if both are taken. -/
private theorem reads_ok {x : Except String EvidenceSnapshot}
    {f : EvidenceSnapshot → Except String EvidenceSnapshot} {list : List Excerpt}
    (h : (x >>= f).toOption.map (fun s => s.items.map EvidenceItem.quoted) = some list) :
    ∃ a ab, x = .ok a ∧ f a = .ok ab ∧ excerpts ab.items = {x | x ∈ list} := by
  cases hx : x with
  | error e => simp [hx, Except.toOption] at h
  | ok a =>
      rw [hx, Except.ok_bind] at h
      cases hf : f a with
      | error e => simp [hf, Except.toOption] at h
      | ok ab =>
          rw [hf] at h
          obtain rfl := Option.some.inj h
          refine ⟨a, ab, rfl, hf, ?_⟩
          ext x
          exact List.mem_map.symm

private def nearlyFull : EvidenceSnapshot := ⟨1, "evidence", filledItems 199⟩

/-- Of two web reads under one key the first is kept. -/
private theorem webReads_quoted :
    let read (snapshot : EvidenceSnapshot) (result : HostActionResult) :=
      appendReadEvidence (fun _ => "0") snapshot "k" result "research.read"
    let quoted (x : Except String EvidenceSnapshot) :=
      x.toOption.map fun s => s.items.map EvidenceItem.quoted
    quoted (.ok blankSnapshot >>= (read · { webRead "https://a" with approval := some "p" }))
        = some [webQuote "https://a"]
      ∧ quoted (read blankSnapshot (webRead "https://a") >>= (read · (webRead "https://b")))
        = some [webQuote "https://a"]
      ∧ quoted (read blankSnapshot (webRead "https://b") >>= (read · (webRead "https://a")))
        = some [webQuote "https://b"] := by
  decide +kernel

/-- Nine excerpts are refused, a web read that waits for an approval adds its page, and two reads
    under one key, or two that find room for one excerpt, do not commute. -/
theorem appendReadEvidence_unstable :
    (∃ error, appendReadEvidence (fun _ => "0") blankSnapshot "k" (readOf (List.replicate 9 (excerptOf "a")))
        "docs.read" = .error error)
    ∧ (∃ snapshot', appendReadEvidence (fun _ => "0") blankSnapshot "k"
        { webRead "https://a" with approval := some "p" } "research.read" = .ok snapshot'
        ∧ snapshot'.items ≠ [])
    ∧ (∃ a ab b ba,
      appendReadEvidence (fun _ => "0") blankSnapshot "k" (webRead "https://a") "research.read" = .ok a
      ∧ appendReadEvidence (fun _ => "0") a "k" (webRead "https://b") "research.read" = .ok ab
      ∧ appendReadEvidence (fun _ => "0") blankSnapshot "k" (webRead "https://b") "research.read" = .ok b
      ∧ appendReadEvidence (fun _ => "0") b "k" (webRead "https://a") "research.read" = .ok ba
      ∧ excerpts ab.items ≠ excerpts ba.items)
    ∧ snapshotEvidence nearlyFull.id nearlyFull.items = .ok nearlyFull
    ∧ ∃ a ab b ba,
      appendReadEvidence (fun _ => "0") nearlyFull "a" (readOf [excerptOf "a"]) "docs.read" = .ok a
      ∧ appendReadEvidence (fun _ => "0") a "b" (readOf [excerptOf "b"]) "docs.read" = .ok ab
      ∧ appendReadEvidence (fun _ => "0") nearlyFull "b" (readOf [excerptOf "b"]) "docs.read" = .ok b
      ∧ appendReadEvidence (fun _ => "0") b "a" (readOf [excerptOf "a"]) "docs.read" = .ok ba
      ∧ excerpts ab.items ≠ excerpts ba.items := by
  obtain ⟨hlength, haccepted, hold⟩ := filledItems_accepted 199 (by decide)
  obtain ⟨hpending, hfirst, hsecond⟩ := webReads_quoted
  refine ⟨⟨_, rfl⟩, ?pending, ?sameKey, ?valid, ?full⟩
  case pending =>
    obtain ⟨start, snapshot', hstart, hread, hquoted⟩ := reads_ok hpending
    cases hstart
    refine ⟨snapshot', hread, fun hnil => ?_⟩
    have hmem : webQuote "https://a" ∈ excerpts snapshot'.items := hquoted ▸ List.mem_cons_self
    obtain ⟨item, hitem, -⟩ := hmem
    exact List.ne_nil_of_mem hitem hnil
  case sameKey =>
    obtain ⟨a, ab, ha, hab, hquoted⟩ := reads_ok hfirst
    obtain ⟨b, ba, hb, hba, hquoted'⟩ := reads_ok hsecond
    refine ⟨a, ab, b, ba, ha, hab, hb, hba, fun heq => ?_⟩
    rw [hquoted, hquoted'] at heq
    have hmem : webQuote "https://a" ∈ [webQuote "https://b"] :=
      (Set.ext_iff.1 heq _).1 List.mem_cons_self
    exact absurd hmem (by decide)
  case valid => exact snapshotEvidence_eq_ok_iff.2 ⟨by decide +kernel, haccepted, rfl⟩
  case full =>
    obtain ⟨a, ha, hfull, hquoted⟩ := @append_last nearlyFull "a" hlength haccepted hold
      (excerptOf "a") (by decide) ⟨by decide +kernel, by decide, by decide +kernel⟩
    obtain ⟨b, hb, hfull', hquoted'⟩ := @append_last nearlyFull "b" hlength haccepted hold
      (excerptOf "b") (by decide) ⟨by decide +kernel, by decide, by decide +kernel⟩
    refine ⟨a, a, b, b, ha, append_full hfull _, hb, append_full hfull' _, fun heq => ?_⟩
    rw [hquoted, hquoted'] at heq
    have hmem := (Set.ext_iff.1 heq (excerptOf "a").quoted).1 (.inr rfl)
    rcases hmem with ⟨item, hitem, hsame⟩ | hsame
    · have hsource : item.sourceId = "a" := congrArg Excerpt.sourceId hsame
      rw [hold item hitem] at hsource
      exact absurd hsource (by decide)
    · exact absurd hsame (by decide)

end LingxiOS
