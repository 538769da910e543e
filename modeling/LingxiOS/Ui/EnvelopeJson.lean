-- SUMMARY: The text of an envelope, and what is displayed of it.
import LingxiOS.Protocol.JsonShape
import LingxiOS.Ui.Segments

/-! # Envelopes as Text

An envelope reaches its reader as JSON. The members that are not displayed travel with the
others; only their names matter. -/

namespace LingxiOS.Citations

open JsonText Stringify Scan

/-! ## Shapes -/

def sourceShape : Shape CitationSource where
  write source := .obj
    (given "sourceId" (some (stringShape.write source.sourceId))
      ++ given "sourceVersion" (some (stringShape.write source.sourceVersion))
      ++ given "chunkIds" (some ((listShape stringShape).write source.chunkIds))
      ++ given "truncated" (if source.truncated then some (flagShape.write true) else none))
  read
    | .obj members => do
        let sourceId ← stringShape.member "sourceId" members
        let sourceVersion ← stringShape.member "sourceVersion" members
        let chunkIds ← (listShape stringShape).member "chunkIds" members
        let truncated ← flagShape.optional "truncated" members
        return { sourceId, sourceVersion, chunkIds, truncated := truncated.getD false }
    | _ => none
  Fits _ := True
  read_write source _ := by
    obtain ⟨sourceId, sourceVersion, chunkIds, truncated⟩ := source
    cases truncated <;> simp [Shape.member, Shape.optional]
  write_over source _ := by
    refine overMembers_append.2 ⟨overMembers_append.2 ⟨overMembers_append.2 ⟨?_, ?_⟩, ?_⟩, ?_⟩
    · exact given_some_over (by decide) (stringShape.write_over _ trivial)
    · exact given_some_over (by decide) (stringShape.write_over _ trivial)
    · exact given_some_over (by decide) ((listShape stringShape).write_over _ fun _ _ => trivial)
    · refine given_over (by decide) fun v hv => ?_
      split at hv
      · obtain rfl := Option.some.inj hv
        trivial
      · cases hv

def annotationShape : Shape RecordedCitation where
  write entry := .obj
    (given "start" (some (naturalShape.write entry.start))
      ++ given "end" (some (naturalShape.write entry.stop))
      ++ given "text" (some (textShape.write entry.text))
      ++ given "markers" (some ((listShape textShape).write entry.markers))
      ++ given "sources" (some ((listShape sourceShape).write entry.sources))
      ++ given "support" (some (stringShape.write entry.support)))
  read
    | .obj members => do
        let start ← naturalShape.member "start" members
        let stop ← naturalShape.member "end" members
        let text ← textShape.member "text" members
        let markers ← (listShape textShape).member "markers" members
        let sources ← (listShape sourceShape).member "sources" members
        let support ← stringShape.member "support" members
        return { start, stop, text, markers, sources, support }
    | _ => none
  Fits entry := entry.start < 2 ^ 53 ∧ entry.stop < 2 ^ 53
    ∧ textShape.Fits entry.text ∧ (listShape textShape).Fits entry.markers
  read_write entry h := by
    obtain ⟨hstart, hstop, htext, hmarkers⟩ := h
    have hsources := (listShape sourceShape).read_write entry.sources fun _ _ => trivial
    simp [Shape.member, naturalShape.read_write _ hstart, naturalShape.read_write _ hstop,
      textShape.read_write _ htext, (listShape textShape).read_write _ hmarkers, hsources]
  write_over entry h := by
    obtain ⟨hstart, hstop, htext, hmarkers⟩ := h
    refine overMembers_append.2 ⟨overMembers_append.2 ⟨overMembers_append.2 ⟨overMembers_append.2
      ⟨overMembers_append.2 ⟨?_, ?_⟩, ?_⟩, ?_⟩, ?_⟩, ?_⟩
    · exact given_some_over (by decide) (naturalShape.write_over _ hstart)
    · exact given_some_over (by decide) (naturalShape.write_over _ hstop)
    · exact given_some_over (by decide) (textShape.write_over _ htext)
    · exact given_some_over (by decide) ((listShape textShape).write_over _ hmarkers)
    · exact given_some_over (by decide) ((listShape sourceShape).write_over _ fun _ _ => trivial)
    · exact given_some_over (by decide) (stringShape.write_over _ trivial)

def itemShape : Shape EvidenceItem where
  write item := .obj
    (given "marker" (some (stringShape.write item.marker))
      ++ given "sourceId" (some (stringShape.write item.sourceId))
      ++ given "sourceVersion" (some (stringShape.write item.sourceVersion))
      ++ given "chunkId" (some (stringShape.write item.chunkId))
      ++ given "title" (some (stringShape.write item.title))
      ++ given "excerpt" (some (stringShape.write item.excerpt))
      ++ given "url" (item.url.map stringShape.write)
      ++ given "truncated" (item.truncated.map flagShape.write)
      ++ given "actionKey" (item.actionKey.map stringShape.write))
  read
    | .obj members => do
        let marker ← stringShape.member "marker" members
        let sourceId ← stringShape.member "sourceId" members
        let sourceVersion ← stringShape.member "sourceVersion" members
        let chunkId ← stringShape.member "chunkId" members
        let title ← stringShape.member "title" members
        let excerpt ← stringShape.member "excerpt" members
        let url ← stringShape.optional "url" members
        let truncated ← flagShape.optional "truncated" members
        let actionKey ← stringShape.optional "actionKey" members
        return { marker, sourceId, sourceVersion, chunkId, title, excerpt, url, truncated, actionKey }
    | _ => none
  Fits _ := True
  read_write item _ := by
    have hurl := stringShape.optional_write fun (url : String) (_ : url ∈ item.url) => trivial
    have htruncated := flagShape.optional_write fun (flag : Bool) (_ : flag ∈ item.truncated) => trivial
    have hactionKey := stringShape.optional_write fun (key : String) (_ : key ∈ item.actionKey) => trivial
    simp [Shape.member, Shape.optional, hurl, htruncated, hactionKey]
  write_over item _ := by
    have hstring (name s : String) (hname : ∀ u ∈ literal name, u < 0x10000) :=
      given_some_over hname (stringShape.write_over s trivial)
    refine overMembers_append.2 ⟨overMembers_append.2 ⟨overMembers_append.2 ⟨overMembers_append.2
      ⟨overMembers_append.2 ⟨overMembers_append.2 ⟨overMembers_append.2 ⟨overMembers_append.2
      ⟨?_, ?_⟩, ?_⟩, ?_⟩, ?_⟩, ?_⟩, ?_⟩, ?_⟩, ?_⟩
    · exact hstring "marker" _ (by decide)
    · exact hstring "sourceId" _ (by decide)
    · exact hstring "sourceVersion" _ (by decide)
    · exact hstring "chunkId" _ (by decide)
    · exact hstring "title" _ (by decide)
    · exact hstring "excerpt" _ (by decide)
    · exact given_over (by decide) (stringShape.over_map fun _ _ => trivial)
    · exact given_over (by decide) (flagShape.over_map fun _ _ => trivial)
    · exact given_over (by decide) (stringShape.over_map fun _ _ => trivial)

/-- The members of an envelope that are not displayed. -/
structure Unread where
  members : Members
  units : Value.OverMembers (· < 0x10000) members
  unread : ∀ m ∈ members, ∀ name ∈ ["body", "citations", "citationEvidence", "presentations"],
    m.1 ≠ literal name

@[simp] theorem Unread.find (unread : Unread) {name : String}
    (h : name ∈ ["body", "citations", "citationEvidence", "presentations"]) :
    Stringify.find name unread.members = none :=
  find_eq_none fun m hm => unread.unread m hm name h

/-- An envelope as `createResponseEnvelope` orders its members; the presentations come last. -/
def envelopeShape (version versions others : Unread) : Shape DisplayEnvelope where
  write envelope := .obj
    (version.members
      ++ given "body" (some (textShape.write envelope.body))
      ++ versions.members
      ++ given "citations" (some ((listShape annotationShape).write envelope.citations))
      ++ given "citationEvidence" (envelope.citationEvidence.map (listShape itemShape).write)
      ++ others.members
      ++ given "presentations" (envelope.presentations.map (listShape valueShape).write))
  read
    | .obj members => do
        let body ← textShape.member "body" members
        let citations ← (listShape annotationShape).member "citations" members
        let citationEvidence ← (listShape itemShape).optional "citationEvidence" members
        let presentations ← (listShape valueShape).optional "presentations" members
        return { body, citations, citationEvidence, presentations }
    | _ => none
  Fits envelope := textShape.Fits envelope.body
    ∧ (listShape annotationShape).Fits envelope.citations
    ∧ ∀ components ∈ envelope.presentations, (listShape valueShape).Fits components
  read_write envelope h := by
    obtain ⟨hbody, hcitations, hpresentations⟩ := h
    have hevidence := (listShape itemShape).optional_write
      fun (items : List EvidenceItem) (_ : items ∈ envelope.citationEvidence) _ _ => trivial
    simp [Shape.member, Shape.optional, textShape.read_write _ hbody,
      (listShape annotationShape).read_write _ hcitations, hevidence,
      (listShape valueShape).optional_write hpresentations]
  write_over envelope h := by
    obtain ⟨hbody, hcitations, hpresentations⟩ := h
    refine overMembers_append.2 ⟨overMembers_append.2 ⟨overMembers_append.2 ⟨overMembers_append.2
      ⟨overMembers_append.2 ⟨overMembers_append.2 ⟨version.units, ?_⟩, versions.units⟩, ?_⟩, ?_⟩,
      others.units⟩, ?_⟩
    · exact given_some_over (by decide) (textShape.write_over _ hbody)
    · exact given_some_over (by decide) ((listShape annotationShape).write_over _ hcitations)
    · exact given_over (by decide) ((listShape itemShape).over_map fun _ _ _ _ => trivial)
    · exact given_over (by decide) ((listShape valueShape).over_map hpresentations)

/-! ## Envelopes that were created -/

/-- A body is a string: 16-bit units, and fewer than can be counted exactly. -/
structure Body where
  text : Units
  units : ∀ u ∈ text, u < 0x10000
  length_lt : text.length < 2 ^ 53

variable {ρ : Type} {others : Except String ρ} {body : Body} {evidence : EvidenceSnapshot}
  {envelope : ResponseEnvelope ρ}

/-- What was cut from a body can be written as the body can. -/
theorem annotation_fits (h : createResponseEnvelope others body.text evidence = .ok envelope)
    {entry : CitationAnnotation} (hentry : entry ∈ envelope.citations) :
    annotationShape.Fits ⟨entry, "not_assessed"⟩ := by
  obtain ⟨hcitations, -, -⟩ := createResponseEnvelope_eq_ok h
  obtain ⟨hspan, hstop, group, hwell, hslice, hmarkers⟩ := citation_link hcitations hentry
  have hbody := body.length_lt
  refine ⟨by dsimp only; omega, by dsimp only; omega, fun u hu => ?_, fun marker hmarker u hu => ?_⟩
  · have hmem : u ∈ (body.text.drop entry.start).take (entry.stop - entry.start) := by
      rw [hslice]
      simp only [List.mem_append]
      exact .inl (.inl (.inl (.inr hu)))
    exact body.units u (List.mem_of_mem_drop (List.mem_of_mem_take hmem))
  · have hmarker : marker ∈ splitMarkers group := by
      rw [← List.mem_eraseDups, ← hmarkers]
      exact hmarker
    rcases mem_marker (hwell.markers marker hmarker) hu with rfl | hdecimal
    · decide
    · simp only [isDecimal, Bool.and_eq_true, decide_eq_true_eq] at hdecimal
      omega

/-- Every envelope that was created is displayed in full, with the presentations that were added
    to it, and after it was read back from its text as well. -/
theorem responseSegments_displays {ρ : Type} {others : Except String ρ} {body : Body}
    {evidence : EvidenceSnapshot} {envelope : ResponseEnvelope ρ}
    (h : createResponseEnvelope others body.text evidence = .ok envelope)
    (presentations : Option (List JsValue)) (version versions rest : Unread) :
    ∃ segments,
      let shown := display envelope (presentations.map fun components => components.map Subtype.val)
      responseSegments shown = .ok segments
        ∧ ((parse (print jsStyle Number.text ((envelopeShape version versions rest).write shown))).bind
            (envelopeShape version versions rest).read).map responseSegments = some (.ok segments)
        ∧ Displays body.text ((presentations.getD []).map Subtype.val) segments := by
  obtain ⟨segments, hsegments, hdisplays⟩ := responseSegments_created h body.length_lt
    (presentations.map fun components => components.map Subtype.val)
  refine ⟨segments, hsegments, ?_, ?_⟩
  · have hfits : (envelopeShape version versions rest).Fits
        (display envelope (presentations.map fun components => components.map Subtype.val)) := by
      refine ⟨?_, List.forall_mem_map.2 fun entry hentry => annotation_fits h hentry,
        fun components hcomponents v hv => ?_⟩
      · change ∀ u ∈ envelope.body, u < 0x10000
        rw [createResponseEnvelope_body h]
        exact body.units
      · obtain ⟨given, -, rfl⟩ := Option.mem_map.1 hcomponents
        obtain ⟨component, -, rfl⟩ := List.mem_map.1 hv
        exact component.2
    rw [Shape.parse_write _ hfits, Option.map_some, hsegments]
  · cases presentations with
    | none => exact hdisplays
    | some components => exact hdisplays

/-- Two links side by side, the first with a bracket in its label. -/
private def linkedBody : Body where
  text := literal "As [a [b](#cite-S1)[c](#cite-S1,S1) say."
  units := by decide
  length_lt := by decide

private def linkedSnapshot : EvidenceSnapshot where
  version := 1
  id := "e"
  items := [{ marker := "S1", sourceId := "a", sourceVersion := "1", chunkId := "c", title := "t",
              excerpt := "e" }]

private def nothingUnread : Unread where
  members := []
  units := trivial
  unread := by simp

theorem responseSegments_displays_linked : ∃ envelope segments,
    createResponseEnvelope (.ok ()) linkedBody.text linkedSnapshot = .ok envelope
      ∧ responseSegments (display envelope (some [.null])) = .ok segments
      ∧ Displays linkedBody.text [.null] segments := by
  have hcreated : (createResponseEnvelope (.ok ()) linkedBody.text linkedSnapshot).toOption.isSome
      = true := by decide +kernel
  cases hcreate : createResponseEnvelope (.ok ()) linkedBody.text linkedSnapshot with
  | error e => simp [hcreate, Except.toOption] at hcreated
  | ok envelope =>
      obtain ⟨segments, hsegments, -, hdisplays⟩ := responseSegments_displays hcreate
        (some [⟨.null, trivial⟩]) nothingUnread nothingUnread nothingUnread
      exact ⟨envelope, segments, rfl, hsegments, hdisplays⟩

end LingxiOS.Citations
