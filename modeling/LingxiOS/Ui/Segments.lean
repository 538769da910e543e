-- SUMMARY: The segments a response is displayed in.
import LingxiOS.Base.JsonGrammar
import LingxiOS.Base.TextCoding
import LingxiOS.Context.EvidenceOrder
import LingxiOS.Outcome.Citations

/-! # Response Segments

The reader of an envelope checks its citations again, against the body and the excerpts it
carries, and cuts the body at them. -/

namespace LingxiOS.Citations

open JsonText Stringify Scan

/-! ## The reader -/

/-- A presentation is shown as the JSON it is. -/
abbrev TrustedPresentation := Value Number

/-- An annotation with what it says of its support. -/
structure RecordedCitation extends CitationAnnotation where
  support : String
  deriving DecidableEq

/-- What `responseSegments` reads of an envelope. -/
structure DisplayEnvelope where
  body : Units
  citations : List RecordedCitation
  /-- Absent on historical results. -/
  citationEvidence : Option (List EvidenceItem)
  presentations : Option (List TrustedPresentation)

inductive ResponseSegment where
  | text (text : Units)
  | citation (text : Units) (entry : RecordedCitation)
  | presentation (component : TrustedPresentation)

/-- `body.slice(start, stop)`. -/
def slice (body : Units) (start stop : Nat) : Units := (body.drop start).take (stop - start)

/-- `Number.isSafeInteger(n)`. -/
def isSafe (n : Nat) : Bool := n < 2 ^ 53

/-- `/^\[([^\]\n]+)\]\(#cite-(S[1-9]\d*(?:,S[1-9]\d*)*)\)$/`. -/
def wholeLink (text : Units) : Option Link :=
  (linkHere text).bind fun link => if link.source = text then some link else none

/-- The checks of an annotation against the excerpts. -/
def checkExcerpts (body : Units) (evidence : List EvidenceItem) (entry : RecordedCitation) :
    Except String Unit :=
  match wholeLink (slice body entry.start entry.stop) with
  | none => .error "citation text does not match its Markdown span"
  | some link =>
      if link.label ≠ entry.text ∨ [44].intercalate (splitMarkers link.group).eraseDups
          ≠ [44].intercalate entry.markers then
        .error "citation text does not match its Markdown span"
      else do
        let sources ← citationSources entry.markers evidence
        if entry.support ≠ "not_assessed" ∨ sources ≠ entry.sources then
          .error "citation excerpts do not match recorded sources"
        else .ok ()

def textSegment (body : Units) (start stop : Nat) : List ResponseSegment :=
  if start < stop then [.text (slice body start stop)] else []

/-- The loop over the citations: the segments up to where the last one ends. -/
def citationSegments (body : Units) (evidence : Option (List EvidenceItem)) :
    Nat → List RecordedCitation → Except String (List ResponseSegment × Nat)
  | offset, [] => .ok ([], offset)
  | offset, entry :: rest =>
      if !isSafe entry.start || !isSafe entry.stop || entry.start < offset
          || entry.stop ≤ entry.start || body.length < entry.stop then
        .error "invalid citation span"
      else do
        match evidence with
        | none => pure ()
        | some items => checkExcerpts body items entry
        let (segments, last) ← citationSegments body evidence entry.stop rest
        return (textSegment body offset entry.start
          ++ .citation entry.text entry :: segments, last)

def responseSegments (envelope : DisplayEnvelope) : Except String (List ResponseSegment) := do
  let evidence ← envelope.citationEvidence.mapM snapshotCitationEvidence
  let (segments, offset) ← citationSegments envelope.body evidence 0 envelope.citations
  let cited := envelope.citations.flatMap fun entry => entry.markers
  if evidence.any fun items => items.any fun item => !cited.contains (literal item.marker) then
    .error "unreferenced citation evidence"
  else
    return segments ++ textSegment envelope.body offset envelope.body.length
      ++ (envelope.presentations.getD []).map .presentation

/-! ## What is displayed -/

/-- The text behind a segment: a citation stands for its link. -/
def ResponseSegment.source (body : Units) : ResponseSegment → Units
  | .text shown => shown
  | .citation _ entry => slice body entry.start entry.stop
  | .presentation _ => []

def ResponseSegment.component? : ResponseSegment → Option TrustedPresentation
  | .presentation component => some component
  | _ => none

/-- The segments are the whole body, with the presentations behind it in order. -/
structure Displays (body : Units) (presentations : List TrustedPresentation)
    (segments : List ResponseSegment) : Prop where
  body : segments.flatMap (ResponseSegment.source body) = body
  components : segments.filterMap ResponseSegment.component? = presentations

/-- The envelope as it is read, with the presentations that were added to it. -/
def display {ρ : Type} (envelope : ResponseEnvelope ρ)
    (presentations : Option (List TrustedPresentation)) : DisplayEnvelope where
  body := envelope.body
  citations := envelope.citations.map fun entry => ⟨entry, "not_assessed"⟩
  citationEvidence := some envelope.citationEvidence
  presentations := presentations

variable {body : Units} {offset : Nat}

/-! ## Excerpts -/

section Excerpts

variable {items checked : List EvidenceItem} {item : EvidenceItem}

@[simp] theorem citation_citation (item : EvidenceItem) :
    EvidenceItem.citation (EvidenceItem.citation item) = EvidenceItem.citation item := rfl

theorem checkEvidenceItem_citation (h : checkEvidenceItem item = .ok ()) :
    checkEvidenceItem (EvidenceItem.citation item) = .ok () := by
  unfold checkEvidenceItem at h ⊢
  split at h
  case isTrue => cases h
  case isFalse hitem =>
    split at h
    case isTrue => cases h
    case isFalse =>
      exact (if_neg hitem).trans ((if_neg (by simp [EvidenceItem.citation])).trans h)

/-- Items that are accepted are accepted without their action keys. -/
theorem checkEvidenceItems_citation (h : checkEvidenceItems checked items = .ok ()) :
    checkEvidenceItems (checked.map EvidenceItem.citation) (items.map EvidenceItem.citation)
      = .ok () := by
  induction items generalizing checked with
  | nil => rfl
  | cons item rest ih =>
      rw [checkEvidenceItems] at h
      cases hitem : checkEvidenceItem item with
      | error e => simp [hitem] at h
      | ok u =>
          rw [hitem] at h
          dsimp only at h
          split at h
          case isTrue => cases h
          case isFalse hsource =>
            split at h
            case isTrue => cases h
            case isFalse hchunk =>
              have hrest := ih h
              rw [List.map_append] at hrest
              rw [List.map_cons, checkEvidenceItems, checkEvidenceItem_citation hitem]
              dsimp only
              rw [List.any_map, List.any_map]
              exact (if_neg hsource).trans ((if_neg hchunk).trans hrest)

/-- Excerpts that were accepted are accepted again as they are. -/
theorem snapshotCitationEvidence_again (h : snapshotCitationEvidence items = .ok checked) :
    snapshotCitationEvidence checked = .ok checked := by
  obtain ⟨snapshot, hsnapshot, h⟩ := Except.bind_ok h
  obtain ⟨hid, ⟨hlength, hitems⟩, rfl⟩ := snapshotEvidence_eq_ok_iff.1 hsnapshot
  dsimp only at h
  split at h
  case isTrue => cases h
  case isFalse hsize =>
    cases h
    have haccepted : AcceptedItems (items.map EvidenceItem.citation) :=
      ⟨by simpa using hlength, checkEvidenceItems_citation hitems⟩
    have hsame : (items.map EvidenceItem.citation).map EvidenceItem.citation
        = items.map EvidenceItem.citation := by
      simp [Function.comp_def]
    rw [snapshotCitationEvidence, snapshotEvidence_eq_ok_iff.2 ⟨hid, haccepted, rfl⟩,
      Except.ok_bind]
    dsimp only
    rw [hsame, if_neg hsize]

/-- A marker names the same source among the excerpts it has. -/
theorem citationSource_filter {keep : EvidenceItem → Bool} {marker : Units}
    (hkeep : ∀ item ∈ items, literal item.marker = marker → keep item = true) :
    citationSource ((items.filter keep).map EvidenceItem.citation) marker
      = citationSource items marker := by
  have hfilter : ((items.filter keep).map EvidenceItem.citation).filter
        (fun item => literal item.marker == marker)
      = (items.filter fun item => literal item.marker == marker).map EvidenceItem.citation := by
    rw [List.filter_map, List.filter_filter]
    congr 1
    refine List.filter_congr fun item hitem => ?_
    exact Bool.and_eq_left_iff_imp.2 fun hmarker => hkeep item hitem (beq_iff_eq.1 hmarker)
  rw [citationSource, citationSource, hfilter]
  cases items.filter fun item => literal item.marker == marker with
  | nil => rfl
  | cons first others =>
      simp only [List.map_cons, List.map_map, List.any_cons, List.any_map]
      rfl

end Excerpts

/-! ## Annotations -/

section Annotations

variable {evidence : EvidenceSnapshot} {entry : CitationAnnotation} {found : Nat × Link}
  {citations : List CitationAnnotation}

/-- The excerpts of the citations among the evidence. -/
def citedEvidence (evidence : EvidenceSnapshot) (citations : List CitationAnnotation) :
    List EvidenceItem :=
  (evidence.items.filter fun item =>
    (citations.flatMap CitationAnnotation.markers).contains (literal item.marker)).map
      EvidenceItem.citation

theorem annotate_eq_ok (h : annotate evidence found = .ok entry) :
    citationSources entry.markers evidence.items = .ok entry.sources := by
  obtain ⟨sources, hsources, h⟩ := Except.bind_ok h
  cases h
  exact hsources

/-- The sources of a citation are found among the excerpts of all of them. -/
theorem citationSources_cited (hentry : entry ∈ citations) :
    citationSources entry.markers (citedEvidence evidence citations)
      = citationSources entry.markers evidence.items := by
  refine Except.mapM_congr fun marker hmarker => citationSource_filter fun item _ heq => ?_
  rw [List.contains_iff_mem, List.mem_flatMap]
  exact ⟨entry, hentry, heq ▸ hmarker⟩

/-- What was annotated for a link of the body passes the checks of the reader. -/
theorem checkExcerpts_annotate (hfound : found ∈ matchAll linkPattern body)
    (h : annotate evidence found = .ok entry) (hentry : entry ∈ citations) :
    checkExcerpts body (citedEvidence evidence citations) ⟨entry, "not_assessed"⟩ = .ok () := by
  have hannotates := annotate_annotates h
  obtain ⟨hwell, hsource⟩ := link_of_mem_matchAll hfound
  have hslice : slice body entry.start entry.stop = found.2.source := by
    rw [slice, hannotates.start, hannotates.stop, Nat.add_sub_cancel_left]
    exact (List.prefix_iff_eq_take.1 hsource).symm
  have hlink : wholeLink found.2.source = some found.2 := by
    rw [wholeLink, linkHere_source hwell, Option.bind_some, if_pos rfl]
  have hlabel : ¬(found.2.label ≠ entry.text ∨ [44].intercalate (splitMarkers found.2.group).eraseDups
      ≠ [44].intercalate entry.markers) := by
    rw [hannotates.text, hannotates.markers]
    simp
  rw [checkExcerpts]
  dsimp only
  rw [hslice, hlink]
  dsimp only
  rw [if_neg hlabel, citationSources_cited hentry, annotate_eq_ok h, Except.ok_bind]
  simp

end Annotations

/-! ## The walk over a body -/

section Walk

variable {items : List EvidenceItem} {citations : List RecordedCitation}

@[simp] theorem slice_self (body : Units) (i : Nat) : slice body i i = [] := by
  simp [slice]

theorem slice_all (body : Units) : slice body 0 body.length = body := by
  simp [slice]

/-- Neighbouring slices are one slice. -/
theorem slice_append (body : Units) {i j k : Nat} (hij : i ≤ j) (hjk : j ≤ k) :
    slice body i j ++ slice body j k = slice body i k := by
  have hsum : k - i = (j - i) + (k - j) := by omega
  have hdrop : body.drop j = (body.drop i).drop (j - i) := by
    rw [List.drop_drop, Nat.add_sub_cancel' hij]
  rw [slice, slice, slice, hsum, List.take_add, hdrop]

/-- A text segment stands for what it is cut from, empty or not. -/
theorem textSegment_source (body : Units) {i j : Nat} (hij : i ≤ j) :
    (textSegment body i j).flatMap (ResponseSegment.source body) = slice body i j := by
  unfold textSegment
  split
  case isTrue => simp [ResponseSegment.source]
  case isFalse hle =>
    obtain rfl : i = j := by omega
    simp

@[simp] theorem textSegment_component (body : Units) (i j : Nat) :
    (textSegment body i j).filterMap ResponseSegment.component? = [] := by
  unfold textSegment
  split <;> rfl

/-- The segments up to a place are the body up to there. -/
structure Covers (body : Units) (offset last : Nat) (segments : List ResponseSegment) : Prop where
  le : offset ≤ last
  within : last ≤ body.length
  body : segments.flatMap (ResponseSegment.source body) = slice body offset last
  components : segments.filterMap ResponseSegment.component? = []

theorem Covers.nil (h : offset ≤ body.length) : Covers body offset offset [] :=
  ⟨le_rfl, h, (slice_self body offset).symm, rfl⟩

/-- A citation goes before the segments behind it, with the text that leads to it. -/
theorem Covers.cons {entry : RecordedCitation} {last : Nat} {segments : List ResponseSegment}
    (hstart : offset ≤ entry.start) (hspan : entry.start < entry.stop)
    (h : Covers body entry.stop last segments) :
    Covers body offset last
      (textSegment body offset entry.start ++ .citation entry.text entry :: segments) where
  le := by
    have hle := h.le
    omega
  within := h.within
  body := by
    rw [List.flatMap_append, List.flatMap_cons, textSegment_source body hstart, h.body]
    change slice body offset entry.start ++ (slice body entry.start entry.stop ++ _) = _
    rw [slice_append body hspan.le h.le, slice_append body hstart (hspan.le.trans h.le)]
  components := by
    rw [List.filterMap_append, textSegment_component]
    exact h.components

/-- Citations in order whose excerpts are right are walked over to the last of them. -/
theorem citationSegments_covers (hbody : body.length < 2 ^ 53) (hoffset : offset ≤ body.length)
    (horder : citations.Pairwise fun a b => a.stop ≤ b.start)
    (hspans : ∀ entry ∈ citations, offset ≤ entry.start
      ∧ entry.start < entry.stop ∧ entry.stop ≤ body.length)
    (hexcerpts : ∀ entry ∈ citations, checkExcerpts body items entry = .ok ()) :
    ∃ segments last, citationSegments body (some items) offset citations = .ok (segments, last)
      ∧ Covers body offset last segments := by
  induction horder generalizing offset with
  | nil => exact ⟨[], offset, rfl, .nil hoffset⟩
  | @cons entry rest hlater _ ih =>
      obtain ⟨⟨hstart, hspan, hstop⟩, hspans⟩ := List.forall_mem_cons.1 hspans
      obtain ⟨hexcerpt, hexcerpts⟩ := List.forall_mem_cons.1 hexcerpts
      have hrest : ∀ other ∈ rest, entry.stop ≤ other.start ∧ other.start < other.stop
          ∧ other.stop ≤ body.length :=
        fun other hother => ⟨hlater other hother, (hspans other hother).2⟩
      obtain ⟨segments, last, hsegments, hcovers⟩ := ih hstop hrest hexcerpts
      have hvalid : (!isSafe entry.start || !isSafe entry.stop
          || decide (entry.start < offset) || decide (entry.stop ≤ entry.start)
          || decide (body.length < entry.stop)) = false := by
        simp [isSafe]
        omega
      rw [citationSegments, hvalid]
      dsimp only
      rw [hexcerpt, hsegments]
      exact ⟨_, _, rfl, hcovers.cons hstart hspan⟩

end Walk

/-! ## Envelopes that were created -/

section Created

variable {ρ : Type} {others : Except String ρ} {evidence : EvidenceSnapshot}
  {envelope : ResponseEnvelope ρ}

theorem createResponseEnvelope_body
    (h : createResponseEnvelope others body evidence = .ok envelope) : envelope.body = body := by
  unfold createResponseEnvelope at h
  split at h
  case isTrue => cases h
  case isFalse =>
    obtain ⟨rest, -, h⟩ := Except.bind_ok h
    obtain ⟨citations, -, h⟩ := Except.bind_ok h
    split at h
    case isTrue => cases h
    case isFalse =>
      obtain ⟨citationEvidence, -, h⟩ := Except.bind_ok h
      cases h
      rfl

/-- What an envelope quotes is accepted again, and all of it is cited. -/
theorem citationEvidence_created (h : createResponseEnvelope others body evidence = .ok envelope) :
    envelope.citationEvidence = citedEvidence evidence envelope.citations
      ∧ snapshotCitationEvidence envelope.citationEvidence = .ok envelope.citationEvidence
      ∧ ∀ item ∈ envelope.citationEvidence,
        literal item.marker ∈ envelope.citations.flatMap CitationAnnotation.markers := by
  obtain ⟨-, -, hevidence⟩ := createResponseEnvelope_eq_ok h
  have hquoted : envelope.citationEvidence = citedEvidence evidence envelope.citations :=
    snapshotCitationEvidence_eq_ok hevidence
  refine ⟨hquoted, snapshotCitationEvidence_again hevidence, fun item hitem => ?_⟩
  rw [hquoted] at hitem
  obtain ⟨source, hsource, rfl⟩ := List.mem_map.1 hitem
  exact List.contains_iff_mem.1 (List.mem_filter.1 hsource).2

/-- The citations of an envelope pass the checks of the reader against what it quotes. -/
theorem checkExcerpts_created (h : createResponseEnvelope others body evidence = .ok envelope)
    {entry : CitationAnnotation} (hentry : entry ∈ envelope.citations) :
    checkExcerpts body envelope.citationEvidence ⟨entry, "not_assessed"⟩ = .ok () := by
  obtain ⟨hcitations, -, -⟩ := createResponseEnvelope_eq_ok h
  obtain ⟨found, hfound, hannotate⟩ := (Except.exists_of_mapM hcitations).2 entry hentry
  rw [(citationEvidence_created h).1]
  exact checkExcerpts_annotate hfound hannotate hentry

/-- An envelope that was created is displayed in full, whatever presentations were added. -/
theorem responseSegments_created (h : createResponseEnvelope others body evidence = .ok envelope)
    (hbody : body.length < 2 ^ 53) (presentations : Option (List TrustedPresentation)) :
    ∃ segments, responseSegments (display envelope presentations) = .ok segments
      ∧ Displays body (presentations.getD []) segments := by
  obtain ⟨hcitations, -, -⟩ := createResponseEnvelope_eq_ok h
  obtain ⟨-, hagain, hcited⟩ := citationEvidence_created h
  have hsame : envelope.body = body := createResponseEnvelope_body h
  have horder : (display envelope presentations).citations.Pairwise fun a b => a.stop ≤ b.start :=
    List.pairwise_map.2 (citations_in_order hcitations)
  obtain ⟨segments, last, hsegments, hcovers⟩ := @citationSegments_covers body 0
    envelope.citationEvidence (display envelope presentations).citations hbody (Nat.zero_le _)
    horder
    (List.forall_mem_map.2 fun entry hentry =>
      let ⟨hspan, hstop, _⟩ := citation_link hcitations hentry
      ⟨Nat.zero_le _, hspan, hstop⟩)
    (List.forall_mem_map.2 fun entry hentry => checkExcerpts_created h hentry)
  refine ⟨segments ++ textSegment body last body.length
    ++ (presentations.getD []).map .presentation, ?_, ?_, ?_⟩
  · have hreferenced : envelope.citationEvidence.any (fun item =>
        !((display envelope presentations).citations.flatMap fun entry =>
          entry.markers).contains (literal item.marker)) = false := by
      rw [List.any_eq_false]
      intro item hitem
      simpa [display, List.flatMap_map] using hcited item hitem
    have hevidence : (some envelope.citationEvidence).mapM snapshotCitationEvidence
        = .ok (some envelope.citationEvidence) := by
      rw [Option.mapM_some, hagain]
      rfl
    simp only [responseSegments, display, hsame] at hsegments hreferenced ⊢
    rw [hevidence, Except.ok_bind, hsegments, Except.ok_bind]
    dsimp only
    rw [Option.any_some, hreferenced]
    rfl
  · rw [List.flatMap_append, List.flatMap_append, hcovers.body,
      textSegment_source body hcovers.within, slice_append body hcovers.le hcovers.within, slice_all]
    simp [List.flatMap_map, ResponseSegment.source]
  · rw [List.filterMap_append, List.filterMap_append, hcovers.components, textSegment_component]
    simp [List.filterMap_map, Function.comp_def, ResponseSegment.component?]

end Created

end LingxiOS.Citations
