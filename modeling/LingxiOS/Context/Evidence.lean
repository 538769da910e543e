-- SUMMARY: Evidence snapshots: what is accepted as one, and how recorded reads extend it.
import LingxiOS.Base.Checks
import LingxiOS.Protocol.Actions

/-! # Evidence

Source excerpts a run may cite. A snapshot starts with what the context
provider retrieved and grows by the excerpts of recorded reads; every item an
action added carries the key of that action. -/

namespace LingxiOS

structure EvidenceItem where
  marker : String
  sourceId : String
  sourceVersion : String
  chunkId : String
  title : String
  excerpt : String
  url : Option String := none
  truncated : Option Bool := none
  actionKey : Option String := none
  deriving DecidableEq

structure EvidenceSnapshot where
  version : Nat
  id : String
  items : List EvidenceItem
  deriving DecidableEq

/-! ## Acceptance -/

/-- `/^S[1-9]\d*$/`. -/
def isMarker (marker : String) : Bool :=
  match marker.toList with
  | 'S' :: d :: rest => Text.isDigit d && d != '0' && rest.all Text.isDigit
  | _ => false

/-- The part of an item that must agree between all items of one marker. -/
def EvidenceItem.source (item : EvidenceItem) : String × String × String :=
  (item.sourceId, item.sourceVersion, item.title)

/-- The checks of one item that look at nothing else. -/
def checkEvidenceItem (item : EvidenceItem) : Except String Unit :=
  if !isMarker item.marker
      || [item.sourceId, item.sourceVersion, item.chunkId, item.title, item.excerpt].any Text.isBlank
      || 65536 < Text.length item.excerpt || 2000 < Text.length item.title then
    .error "invalid evidence item"
  else if item.actionKey.any (fun key => Text.isBlank key || 2000 < Text.length key) then
    .error "invalid evidence action key"
  else if item.url.any (fun url => !Text.isHttpUrlAnyCase url) then .error "invalid evidence URL"
  else .ok ()

/-- The loop of `snapshotEvidence`, over the items already checked. -/
def checkEvidenceItems (checked : List EvidenceItem) : List EvidenceItem → Except String Unit
  | [] => .ok ()
  | item :: rest =>
      match checkEvidenceItem item with
      | .error error => .error error
      | .ok () =>
          if checked.any (fun other => other.marker == item.marker && other.source != item.source) then
            .error "conflicting evidence marker"
          else if checked.any (fun other =>
              other.marker == item.marker && other.chunkId == item.chunkId) then
            .error "duplicate evidence chunk"
          else checkEvidenceItems (checked ++ [item]) rest

def snapshotEvidence (id : String) (items : List EvidenceItem) : Except String EvidenceSnapshot :=
  if Text.isBlank id || 200 < items.length then .error "invalid evidence snapshot"
  else match checkEvidenceItems [] items with
    | .error error => .error error
    | .ok () => .ok ⟨1, id, items⟩

/-- A snapshot is what it was made from. -/
theorem snapshotEvidence_eq_ok {id : String} {items : List EvidenceItem}
    {snapshot : EvidenceSnapshot} (h : snapshotEvidence id items = .ok snapshot) :
    snapshot = ⟨1, id, items⟩ := by
  unfold snapshotEvidence at h
  split at h
  · cases h
  · split at h
    · cases h
    · exact (Except.ok.inj h).symm

/-- Taking a snapshot of a snapshot gives it back. -/
theorem snapshotEvidence_idem {id : String} {items : List EvidenceItem}
    {snapshot : EvidenceSnapshot} (h : snapshotEvidence id items = .ok snapshot) :
    snapshotEvidence snapshot.id snapshot.items = .ok snapshot := by
  obtain rfl := snapshotEvidence_eq_ok h
  exact h

/-! ## Growth -/

/-- The text a snapshot's items are identified by. -/
def EvidenceItem.toJson (item : EvidenceItem) : Json :=
  .obj ([("marker", .str item.marker), ("sourceId", .str item.sourceId),
      ("sourceVersion", .str item.sourceVersion), ("chunkId", .str item.chunkId),
      ("title", .str item.title), ("excerpt", .str item.excerpt)]
    ++ (item.url.map (fun url => ("url", Json.str url))).toList
    ++ (item.truncated.map (fun truncated => ("truncated", Json.bool truncated))).toList
    ++ (item.actionKey.map (fun key => ("actionKey", Json.str key))).toList)

/-- The snapshot of grown items, named by their digest. -/
def grownSnapshot (sha256 : String → String) (items : List EvidenceItem) :
    Except String EvidenceSnapshot :=
  snapshotEvidence ("evidence:" ++ sha256 (Json.arr (items.map EvidenceItem.toJson)).canonical) items

def markerOf (number : Nat) : String := "S" ++ toString number

/-- The first marker no item carries. -/
def freshMarker (items : List EvidenceItem) : String :=
  let numbers := (List.range (items.length + 1)).map (· + 1)
  markerOf ((numbers.find? (fun number =>
    !items.any (fun item => item.marker == markerOf number))).getD (items.length + 1))

def EvidenceItem.isTruncated (item : EvidenceItem) : Bool := item.truncated.getD false

/-- An item already quotes the same excerpt of the same source. -/
def quotes (items : List EvidenceItem) (source : SourceEvidence) : Bool :=
  items.any (fun item => item.sourceId == source.sourceId
    && item.sourceVersion == source.sourceVersion && item.chunkId == source.chunkId
    && item.excerpt == source.excerpt && item.isTruncated == source.truncated.getD false)

/-- The item a returned source becomes. -/
def promote (items : List EvidenceItem) (actionKey : String) (source : SourceEvidence) :
    EvidenceItem where
  marker := freshMarker items
  sourceId := source.sourceId
  sourceVersion := source.sourceVersion
  chunkId := source.chunkId
  title := source.title
  excerpt := source.excerpt
  url := source.url
  truncated := source.truncated
  actionKey := some actionKey

/-- Promote the returned sources one by one, until the snapshot is full. -/
def promoteAll (actionKey : String) (items : List EvidenceItem) :
    List SourceEvidence → List EvidenceItem
  | [] => items
  | source :: rest =>
      if 200 ≤ items.length then items
      else if quotes items source then promoteAll actionKey items rest
      else promoteAll actionKey (items ++ [promote items actionKey source]) rest

/-- The text, address and digest of a recorded web read, when it has all three. -/
def researchValue (result : HostActionResult) : Option (String × String × String × Bool) :=
  if !result.ok || result.isUnknown || result.directive.isSome then none
  else match result.value with
    | none => none
    | some value =>
        match value.field "text", value.field "finalUrl", value.field "sha256" with
        | some (.str text), some (.str finalUrl), some (.str digest) =>
            if Text.isBlank text || 65536 < Text.length text || !Text.isHttpUrl finalUrl
                || !Text.isSha256Hex digest then none
            else
              let truncated := match value.field "truncated" with
                | some (.bool b) => b
                | _ => false
              some (text, finalUrl, digest, truncated)
        | _, _, _ => none

/-- Promote only the text actually returned by a successful recorded read. -/
def appendResearchEvidence (sha256 : String → String) (snapshot : EvidenceSnapshot)
    (actionKey : String) (result : HostActionResult) : Except String EvidenceSnapshot :=
  match researchValue result with
  | none => .ok snapshot
  | some (text, finalUrl, digest, truncated) =>
      let known := snapshot.items.any (fun item => item.actionKey == some actionKey
        || (item.sourceId == finalUrl && item.sourceVersion == "sha256:" ++ digest
          && item.excerpt == text && item.isTruncated == truncated))
      if known || 200 ≤ snapshot.items.length then .ok snapshot
      else
        let item : EvidenceItem :=
          { marker := freshMarker snapshot.items, actionKey := some actionKey
            sourceId := finalUrl, sourceVersion := "sha256:" ++ digest, chunkId := actionKey
            title := Text.slice 2000 finalUrl, excerpt := text, url := some finalUrl
            truncated := if truncated then some true else none }
        grownSnapshot sha256 (snapshot.items ++ [item])

/-- Promote the sources a successful read returned. -/
def appendSources (sha256 : String → String) (snapshot : EvidenceSnapshot) (actionKey : String)
    (result : HostActionResult) : Except String EvidenceSnapshot :=
  if !result.ok || result.isUnknown || result.approval.isSome || result.directive.isSome
      || result.evidence.isEmpty then
    .ok snapshot
  else if 8 < result.evidence.length then .error "read evidence exceeds the per-action limit"
  else
    let items := promoteAll actionKey snapshot.items result.evidence
    if items.length = snapshot.items.length then .ok snapshot else grownSnapshot sha256 items

def appendReadEvidence (sha256 : String → String) (snapshot : EvidenceSnapshot)
    (actionKey : String) (result : HostActionResult) (action : String) :
    Except String EvidenceSnapshot :=
  if action = "research.read" then do
    let snapshot ← appendResearchEvidence sha256 snapshot actionKey result
    appendSources sha256 snapshot actionKey result
  else appendSources sha256 snapshot actionKey result

/-! ### Growth -/

theorem grownSnapshot_items {sha256 : String → String} {items : List EvidenceItem}
    {snapshot : EvidenceSnapshot} (h : grownSnapshot sha256 items = .ok snapshot) :
    snapshot.items = items := by
  rw [snapshotEvidence_eq_ok h]

theorem le_promoteAll_length (actionKey : String) (items : List EvidenceItem)
    (sources : List SourceEvidence) :
    items.length ≤ (promoteAll actionKey items sources).length := by
  induction sources generalizing items with
  | nil => exact Nat.le_refl _
  | cons source rest ih =>
      unfold promoteAll
      split
      · exact Nat.le_refl _
      · split
        · exact ih items
        · have hrest := ih (items ++ [promote items actionKey source])
          rw [List.length_append] at hrest
          exact Nat.le_trans (Nat.le_add_right _ _) hrest

/-- A snapshot never shrinks, and one that changes grows. -/
theorem appendResearchEvidence_grows {sha256 : String → String}
    {snapshot snapshot' : EvidenceSnapshot} {actionKey : String} {result : HostActionResult}
    (h : appendResearchEvidence sha256 snapshot actionKey result = .ok snapshot') :
    snapshot' = snapshot ∨ snapshot.items.length < snapshot'.items.length := by
  unfold appendResearchEvidence at h
  split at h
  · exact .inl (Except.ok.inj h).symm
  · dsimp only at h
    split at h
    · exact .inl (Except.ok.inj h).symm
    · right
      rw [grownSnapshot_items h, List.length_append]
      exact Nat.lt_succ_self _

theorem appendSources_grows {sha256 : String → String} {snapshot snapshot' : EvidenceSnapshot}
    {actionKey : String} {result : HostActionResult}
    (h : appendSources sha256 snapshot actionKey result = .ok snapshot') :
    snapshot' = snapshot ∨ snapshot.items.length < snapshot'.items.length := by
  unfold appendSources at h
  split at h
  · exact .inl (Except.ok.inj h).symm
  · split at h
    · cases h
    · dsimp only at h
      split at h
      · exact .inl (Except.ok.inj h).symm
      · rename_i hlength
        have hpromoted := le_promoteAll_length actionKey snapshot.items result.evidence
        right
        rw [grownSnapshot_items h]
        omega

theorem appendReadEvidence_grows {sha256 : String → String}
    {snapshot snapshot' : EvidenceSnapshot} {actionKey action : String} {result : HostActionResult}
    (h : appendReadEvidence sha256 snapshot actionKey result action = .ok snapshot') :
    snapshot' = snapshot ∨ snapshot.items.length < snapshot'.items.length := by
  unfold appendReadEvidence at h
  split at h
  · obtain ⟨read, hread, hsources⟩ := Except.bind_ok h
    rcases appendResearchEvidence_grows hread with rfl | hgrown
    · exact appendSources_grows hsources
    · rcases appendSources_grows hsources with rfl | hgrown'
      · exact .inr hgrown
      · exact .inr (Nat.lt_trans hgrown hgrown')
  · exact appendSources_grows h

end LingxiOS
