-- SUMMARY: The citations createResponseEnvelope finds in a body.
import LingxiOS.Base.Scan
import LingxiOS.Context.Evidence
import LingxiOS.Protocol.Stringify
import Mathlib.Data.List.TakeWhile

/-! # Citations

A citation is a link to the markers of evidence items. Links are found by one pattern, and
what is left when they are taken out must not name a citation. -/

namespace LingxiOS.Citations

open JsonText Stringify Scan

/-! ## Links -/

/-- `[label](#cite-group)`. -/
structure Link where
  label : Units
  group : Units
  deriving DecidableEq

def Link.source (link : Link) : Units :=
  91 :: (link.label ++ (literal "](#cite-" ++ (link.group ++ [41])))

def isDecimal (u : Nat) : Bool := 48 ≤ u && u ≤ 57

/-- `/^S[1-9]\d*$/`. -/
def isMarkerText : Units → Bool
  | 83 :: d :: rest => isDecimal d && d != 48 && rest.all isDecimal
  | _ => false

/-- `group.split(',')`. -/
def splitMarkers (group : Units) : List Units := group.splitOn 44

/-- `[^\]\n]`. -/
def isLabelUnit (u : Nat) : Bool := u != 93 && u != 10

/-- `/^\[([^\]\n]+)\]\(#cite-(S[1-9]\d*(?:,S[1-9]\d*)*)\)/`: a label has no closing bracket and a
    group no closing parenthesis, so each ends at the first one. -/
def linkHere : Units → Option Link
  | 91 :: rest =>
      let label := rest.takeWhile isLabelUnit
      let behind := rest.dropWhile isLabelUnit
      let group := (behind.drop 8).takeWhile (· != 41)
      if label ≠ [] ∧ (literal "](#cite-").isPrefixOf behind
          ∧ (splitMarkers group).all isMarkerText
          ∧ ((behind.drop 8).dropWhile (· != 41)).head? = some 41 then
        some ⟨label, group⟩
      else none
  | _ => none

structure Link.WellFormed (link : Link) : Prop where
  label_ne : link.label ≠ []
  label_plain : ∀ u ∈ link.label, u ≠ 93 ∧ u ≠ 10
  markers : ∀ marker ∈ splitMarkers link.group, isMarkerText marker = true

theorem linkHere_sound {text : Units} {link : Link} (h : linkHere text = some link) :
    link.WellFormed ∧ link.source <+: text := by
  unfold linkHere at h
  split at h
  case h_2 => cases h
  case h_1 rest =>
    dsimp only at h
    split at h
    case isFalse => cases h
    case isTrue hlink =>
      obtain ⟨hlabel, hopening, hmarkers, hclosing⟩ := hlink
      obtain rfl := Option.some.inj h
      obtain ⟨behind, hbehind⟩ := List.isPrefixOf_iff_prefix.1 hopening
      obtain ⟨last, hlast⟩ := List.head?_eq_some_iff.1 hclosing
      refine ⟨⟨hlabel, fun u hu => ?_, List.all_eq_true.1 hmarkers⟩, last, ?_⟩
      · simpa [isLabelUnit] using List.mem_takeWhile_imp hu
      · have hgroup : behind = behind.takeWhile (· != 41) ++ 41 :: last := by
          rw [← hbehind] at hlast
          change behind.dropWhile _ = _ at hlast
          rw [← hlast, List.takeWhile_append_dropWhile]
        have hsame : ((rest.dropWhile isLabelUnit).drop 8).takeWhile (· != 41)
            = behind.takeWhile (· != 41) := by
          rw [← hbehind]
          rfl
        rw [Link.source, hsame]
        calc 91 :: (rest.takeWhile isLabelUnit ++ (literal "](#cite-"
              ++ (behind.takeWhile (· != 41) ++ [41]))) ++ last
            = 91 :: (rest.takeWhile isLabelUnit ++ (literal "](#cite-" ++ behind)) := by
              conv => rhs; rw [hgroup]
              simp
          _ = 91 :: rest := by rw [hbehind, List.takeWhile_append_dropWhile]

def linkPattern : Matcher Nat Link where
  here := linkHere
  source := Link.source
  sound h := ⟨List.cons_ne_nil _ _, (linkHere_sound h).2⟩

/-! ## The envelope -/

structure CitationSource where
  sourceId : String
  sourceVersion : String
  chunkIds : List String
  /-- Written only if it holds. -/
  truncated : Bool
  deriving DecidableEq

/-- An annotation of `body.slice(start, stop)`; its support is not assessed. -/
structure CitationAnnotation where
  start : Nat
  stop : Nat
  text : Units
  markers : List Units
  sources : List CitationSource
  deriving DecidableEq

/-- What `createResponseEnvelope` fills from the body and the evidence, beside the rest. -/
structure ResponseEnvelope (ρ : Type) where
  body : Units
  evidenceSnapshotId : String
  citations : List CitationAnnotation
  citationEvidence : List EvidenceItem
  rest : ρ

def citationSource (evidence : List EvidenceItem) (marker : Units) : Except String CitationSource :=
  match evidence.filter fun item => literal item.marker == marker with
  | [] => .error ("unknown citation marker: " ++ String.ofList (marker.map Char.ofNat))
  | first :: others =>
      .ok { sourceId := first.sourceId, sourceVersion := first.sourceVersion
            chunkIds := (first :: others).map EvidenceItem.chunkId
            truncated := (first :: others).any EvidenceItem.isTruncated }

def citationSources (markers : List Units) (evidence : List EvidenceItem) :
    Except String (List CitationSource) :=
  markers.mapM (citationSource evidence)

/-- Public source material: an item without its action key. -/
def EvidenceItem.citation (item : EvidenceItem) : EvidenceItem := { item with actionKey := none }

def snapshotCitationEvidence (items : List EvidenceItem) : Except String (List EvidenceItem) := do
  let snapshot ← snapshotEvidence "citation-evidence" items
  let checked := snapshot.items.map EvidenceItem.citation
  if 256 * 1024 < (Json.arr (checked.map EvidenceItem.toJson)).stringify.utf8ByteSize then
    .error ("Cited excerpts exceed 256 KiB. Read narrower source ranges and cite those markers; "
      ++ "do not replace excerpts with invented summaries.")
  else .ok checked

def annotate (evidence : EvidenceSnapshot) (found : Nat × Link) :
    Except String CitationAnnotation := do
  let markers := (splitMarkers found.2.group).eraseDups
  let sources ← citationSources markers evidence.items
  return { start := found.1, stop := found.1 + found.2.source.length, text := found.2.label
           markers := markers, sources := sources }

/-- The body without its links. -/
def withoutLinks (body : Units) : Units := remainder (pieces linkPattern 0 body)

/-- The outcome, the artifacts and the contract are checked on their own, before the citations. -/
def createResponseEnvelope {ρ : Type} (others : Except String ρ) (body : Units)
    (evidence : EvidenceSnapshot) : Except String (ResponseEnvelope ρ) :=
  if isBlank body then .error "invalid response envelope"
  else do
    let rest ← others
    let citations ← (matchAll linkPattern body).mapM (annotate evidence)
    if literal "#cite-" <:+: withoutLinks body then .error "malformed citation marker"
    else do
      let cited := citations.flatMap CitationAnnotation.markers
      let citationEvidence ← snapshotCitationEvidence
        (evidence.items.filter fun item => cited.contains (literal item.marker))
      return { body := body, evidenceSnapshotId := evidence.id, citations := citations
               citationEvidence := citationEvidence, rest := rest }

/-! ## What a link is made of -/

/-- No link can be cut into by the mark of a citation. -/
theorem bounded_link (link : Link) : Bounded linkPattern (literal "#cite-") link where
  first := ⟨91, _, rfl, by decide⟩
  last := ⟨91 :: (link.label ++ (literal "](#cite-" ++ link.group)), 41,
    by simp [linkPattern, Link.source], by decide⟩

theorem mem_splitMarkers {group : Units} {u : Nat} (h : u ∈ group) :
    u = 44 ∨ ∃ marker ∈ splitMarkers group, u ∈ marker := by
  induction group with
  | nil => cases h
  | cons v group ih =>
      rw [splitMarkers, List.splitOn_cons_eq_if_modifyHead]
      by_cases hv : v = 44
      case pos =>
        rw [if_pos (beq_iff_eq.2 hv)]
        rcases List.mem_cons.1 h with rfl | h
        · exact .inl hv
        · exact (ih h).imp_right fun ⟨marker, hmarker, hu⟩ =>
            ⟨marker, List.mem_cons_of_mem _ hmarker, hu⟩
      case neg =>
        rw [if_neg (by simpa using hv)]
        obtain ⟨first, others, hparts⟩ := List.exists_cons_of_ne_nil (List.splitOn_ne_nil 44 group)
        rw [splitMarkers, hparts] at ih
        rw [hparts, List.modifyHead_cons]
        rcases List.mem_cons.1 h with rfl | h
        · exact .inr ⟨u :: first, List.mem_cons_self, List.mem_cons_self⟩
        · refine (ih h).imp_right fun ⟨marker, hmarker, hu⟩ => ?_
          rcases List.mem_cons.1 hmarker with rfl | hmarker
          · exact ⟨v :: marker, List.mem_cons_self, List.mem_cons_of_mem _ hu⟩
          · exact ⟨marker, List.mem_cons_of_mem _ hmarker, hu⟩

theorem mem_marker {marker : Units} (h : isMarkerText marker = true) {u : Nat} (hu : u ∈ marker) :
    u = 83 ∨ isDecimal u = true := by
  unfold isMarkerText at h
  split at h
  case h_1 d rest =>
    simp only [Bool.and_eq_true, List.all_eq_true] at h
    simp only [List.mem_cons] at hu
    rcases hu with rfl | rfl | hu
    · exact .inl rfl
    · exact .inr h.1.1
    · exact .inr (h.2 _ hu)
  case h_2 => cases h

/-- A group has commas, letters and digits only. -/
theorem mem_group {link : Link} (h : link.WellFormed) {u : Nat} (hu : u ∈ link.group) :
    u = 44 ∨ u = 83 ∨ isDecimal u = true := by
  obtain heq | ⟨marker, hmarker, hu⟩ := mem_splitMarkers hu
  · exact .inl heq
  · exact .inr (mem_marker (h.markers marker hmarker) hu)

/-- A group has no number sign. -/
theorem not_mem_group {link : Link} (h : link.WellFormed) : 35 ∉ link.group := fun hmem =>
  absurd (mem_group h hmem) (by decide)

/-- A link is found where it is written. -/
theorem linkHere_source {link : Link} (h : link.WellFormed) :
    linkHere link.source = some link := by
  have hlabel : ∀ u ∈ link.label, isLabelUnit u = true := fun u hu => by
    simpa [isLabelUnit] using h.label_plain u hu
  have hgroup : ∀ u ∈ link.group, (u != 41) = true := fun u hu => by
    rcases mem_group h hu with rfl | rfl | hdecimal
    · rfl
    · rfl
    · simp only [isDecimal, Bool.and_eq_true, decide_eq_true_eq] at hdecimal
      simp only [bne_iff_ne, ne_eq]
      omega
  have htaken : (link.label ++ (literal "](#cite-" ++ (link.group ++ [41]))).takeWhile isLabelUnit
      = link.label := by
    rw [List.takeWhile_append_of_pos hlabel]
    exact List.append_nil _
  have hdropped : (link.label ++ (literal "](#cite-" ++ (link.group ++ [41]))).dropWhile isLabelUnit
      = literal "](#cite-" ++ (link.group ++ [41]) := by
    rw [List.dropWhile_append_of_pos hlabel]
    rfl
  have hbehind : (literal "](#cite-" ++ (link.group ++ [41])).drop 8 = link.group ++ [41] := rfl
  have hclosed : (link.group ++ [41]).takeWhile (· != 41) = link.group
      ∧ (link.group ++ [41]).dropWhile (· != 41) = [41] := by
    rw [List.takeWhile_append_of_pos hgroup, List.dropWhile_append_of_pos hgroup]
    exact ⟨List.append_nil _, rfl⟩
  rw [Link.source, linkHere]
  simp only [htaken, hdropped, hbehind, hclosed]
  exact if_pos ⟨h.label_ne, by simp, List.all_eq_true.2 h.markers, rfl⟩

/-- A mark inside a link is in its label or starts its target. -/
theorem mark_in_link {link : Link} (h : link.WellFormed) {i : Nat}
    (hmark : literal "#cite-" <+: link.source.drop i) :
    literal "#cite-" <:+: link.label ∨ i = link.label.length + 3 := by
  have hhead : (link.source.drop i).head? = some 35 := by
    obtain ⟨rest, hrest⟩ := hmark
    rw [← hrest]
    rfl
  by_cases hlabel : i ≤ link.label.length
  case pos =>
    cases i with
    | zero => exact absurd hhead (by simp [Link.source])
    | succ j =>
        have hdrop : link.source.drop (j + 1)
            = link.label.drop j ++ (literal "](#cite-" ++ (link.group ++ [41])) := by
          rw [Link.source, List.drop_succ_cons, List.drop_append_of_le_length (by omega)]
        rw [hdrop] at hmark
        have hinside : literal "#cite-" <+: link.label.drop j :=
          isPrefix_of_not_mem (u := 93) (by decide) hmark
        exact .inl (hinside.isInfix.trans (List.drop_suffix _ _).isInfix)
  case neg =>
    obtain ⟨k, rfl⟩ := Nat.exists_eq_add_of_le (Nat.lt_of_not_le hlabel)
    have hdrop : link.source.drop (link.label.length + 1 + k)
        = (literal "](#cite-" ++ (link.group ++ [41])).drop k := by
      rw [Link.source, ← List.drop_drop, ← List.cons_append]
      rw [show link.label.length + 1 = (91 :: link.label).length from rfl, List.drop_left]
    rw [hdrop] at hhead
    match k with
    | 0 => cases hhead
    | 1 => cases hhead
    | 2 => exact .inr rfl
    | k + 3 =>
        have hmem : 35 ∈ (literal "cite-" ++ (link.group ++ [41])).drop k :=
          List.mem_of_head? hhead
        have hmem := List.mem_of_mem_drop hmem
        simp only [List.mem_append] at hmem
        rcases hmem with hmem | hmem | hmem
        · exact absurd hmem (by decide)
        · exact absurd hmem (not_mem_group h)
        · exact absurd hmem (by decide)

/-! ## Citations of an envelope -/

section

variable {ρ : Type} {others : Except String ρ} {body : Units} {evidence : EvidenceSnapshot}
  {envelope : ResponseEnvelope ρ} {citation : CitationAnnotation}

/-- Where the target of a link starts, behind the opening parenthesis. -/
def CitationAnnotation.targetStart (citation : CitationAnnotation) : Nat :=
  citation.start + citation.text.length + 3

/-- The citations of an envelope are complete and exact. -/
structure Exact (body : Units) (evidence : EvidenceSnapshot) (envelope : ResponseEnvelope ρ) :
    Prop where
  in_order : envelope.citations.Pairwise fun a b => a.stop ≤ b.start
  links : ∀ citation ∈ envelope.citations, citation.start < citation.stop
    ∧ citation.stop ≤ body.length ∧ ∃ group, (⟨citation.text, group⟩ : Link).WellFormed
      ∧ (body.drop citation.start).take (citation.stop - citation.start)
        = literal "[" ++ citation.text ++ literal "](#cite-" ++ group ++ literal ")"
      ∧ citation.markers = (splitMarkers group).eraseDups
  /-- A mark lies in the target of exactly one citation. -/
  marks : ∀ i, literal "#cite-" <+: body.drop i → ∃! citation, citation ∈ envelope.citations
    ∧ citation.targetStart ≤ i ∧ i + (literal "#cite-").length < citation.stop
  known : ∀ citation ∈ envelope.citations, ∀ marker ∈ citation.markers,
    ∃ item ∈ evidence.items, literal item.marker = marker
  quoted : envelope.citationEvidence = (evidence.items.filter fun item =>
    envelope.citations.any fun citation => citation.markers.contains (literal item.marker)).map
      EvidenceItem.citation

theorem createResponseEnvelope_eq_ok
    (h : createResponseEnvelope others body evidence = .ok envelope) :
    (matchAll linkPattern body).mapM (annotate evidence) = .ok envelope.citations
      ∧ ¬ literal "#cite-" <:+: withoutLinks body
      ∧ snapshotCitationEvidence (evidence.items.filter fun item =>
          (envelope.citations.flatMap CitationAnnotation.markers).contains (literal item.marker))
        = .ok envelope.citationEvidence := by
  unfold createResponseEnvelope at h
  split at h
  case isTrue => cases h
  case isFalse =>
    obtain ⟨rest, -, h⟩ := Except.bind_ok h
    obtain ⟨citations, hcitations, h⟩ := Except.bind_ok h
    split at h
    case isTrue => cases h
    case isFalse hmark =>
      obtain ⟨citationEvidence, hevidence, h⟩ := Except.bind_ok h
      cases h
      exact ⟨hcitations, hmark, hevidence⟩

/-- What is annotated for a link that was found. -/
structure Annotates (evidence : EvidenceSnapshot) (found : Nat × Link)
    (citation : CitationAnnotation) : Prop where
  start : citation.start = found.1
  stop : citation.stop = found.1 + found.2.source.length
  text : citation.text = found.2.label
  markers : citation.markers = (splitMarkers found.2.group).eraseDups
  known : ∀ marker ∈ citation.markers, ∃ item ∈ evidence.items, literal item.marker = marker

theorem annotate_annotates {found : Nat × Link} (h : annotate evidence found = .ok citation) :
    Annotates evidence found citation := by
  obtain ⟨sources, hsources, h⟩ := Except.bind_ok h
  cases h
  refine ⟨rfl, rfl, rfl, rfl, fun marker hmarker => ?_⟩
  obtain ⟨source, -, hsource⟩ := (Except.exists_of_mapM hsources).1 marker hmarker
  unfold citationSource at hsource
  split at hsource
  case h_1 => cases hsource
  case h_2 first rest hitems =>
    have hfirst : first ∈ evidence.items.filter fun item => literal item.marker == marker :=
      hitems ▸ List.mem_cons_self
    exact ⟨first, (List.mem_filter.1 hfirst).1, beq_iff_eq.1 (List.mem_filter.1 hfirst).2⟩

theorem snapshotCitationEvidence_eq_ok {items checked : List EvidenceItem}
    (h : snapshotCitationEvidence items = .ok checked) : checked = items.map EvidenceItem.citation := by
  obtain ⟨snapshot, hsnapshot, h⟩ := Except.bind_ok h
  rw [snapshotEvidence_eq_ok hsnapshot] at h
  dsimp only at h
  split at h
  · cases h
  · cases h
    rfl

/-- A link that was found stands in the body. -/
theorem link_of_mem_matchAll {found : Nat × Link} (h : found ∈ matchAll linkPattern body) :
    found.2.WellFormed ∧ found.2.source <+: body.drop found.1 := by
  obtain ⟨⟨text, hhere⟩, hsource⟩ := mem_matchAll h
  exact ⟨(linkHere_sound hhere).1, hsource⟩

theorem Link.length_source (link : Link) :
    link.source.length = link.label.length + link.group.length + 10 := by
  simp [Link.source, literal]
  omega

variable {citations : List CitationAnnotation}
  (hcitations : (matchAll linkPattern body).mapM (annotate evidence) = .ok citations)

include hcitations

theorem annotated (hcitation : citation ∈ citations) : ∃ found ∈ matchAll linkPattern body,
    Annotates evidence found citation := by
  obtain ⟨found, hfound, hannotate⟩ := (Except.exists_of_mapM hcitations).2 citation hcitation
  exact ⟨found, hfound, annotate_annotates hannotate⟩

theorem citations_in_order : citations.Pairwise fun a b => a.stop ≤ b.start := by
  refine Except.pairwise_of_mapM hcitations (located_pairwise 0 _) fun ha hb hle => ?_
  rw [(annotate_annotates ha).stop, (annotate_annotates hb).start]
  exact hle

/-- At most one citation covers a place. -/
theorem eq_of_covers {a b : CitationAnnotation} {i : Nat} (ha : a ∈ citations) (hb : b ∈ citations)
    (hai : a.start ≤ i ∧ i < a.stop) (hbi : b.start ≤ i ∧ i < b.stop) : a = b := by
  have horder := citations_in_order hcitations
  clear hcitations
  induction horder with
  | nil => cases ha
  | @cons c citations hc _ ih =>
      rcases List.mem_cons.1 ha with rfl | ha'
      · rcases List.mem_cons.1 hb with rfl | hb'
        · rfl
        · have hle := hc b hb'
          omega
      · rcases List.mem_cons.1 hb with rfl | hb'
        · have hle := hc a ha'
          omega
        · exact ih ha' hb'

/-- A citation is a link of the body. -/
theorem citation_link (hcitation : citation ∈ citations) : citation.start < citation.stop
    ∧ citation.stop ≤ body.length ∧ ∃ group, (⟨citation.text, group⟩ : Link).WellFormed
      ∧ (body.drop citation.start).take (citation.stop - citation.start)
        = literal "[" ++ citation.text ++ literal "](#cite-" ++ group ++ literal ")"
      ∧ citation.markers = (splitMarkers group).eraseDups := by
  obtain ⟨⟨start, link⟩, hfound, hannotates⟩ := annotated hcitations hcitation
  obtain ⟨hwell, hsource⟩ := link_of_mem_matchAll hfound
  have hlength := hsource.length_le
  have hpositive := link.length_source
  simp only [List.length_drop] at hlength
  have hslice := List.prefix_iff_eq_take.1 hsource
  rw [hannotates.start, hannotates.stop, hannotates.text, Nat.add_sub_cancel_left, ← hslice]
  refine ⟨by simp only; omega, by simp only; omega, link.group, hwell, ?_, hannotates.markers⟩
  simp only [Link.source, List.append_assoc]
  rfl

/-- If no label has a mark, each mark is in the target of a citation. -/
theorem marks_of_free (hrest : ¬ literal "#cite-" <:+: withoutLinks body)
    (hfree : ∀ found ∈ matchAll linkPattern body, ¬ literal "#cite-" <:+: found.2.label)
    {i : Nat} (hmark : literal "#cite-" <+: body.drop i) :
    ∃! citation, citation ∈ citations ∧ citation.targetStart ≤ i
      ∧ i + (literal "#cite-").length < citation.stop := by
  have hbody : flatten linkPattern (pieces linkPattern 0 body) = body := flatten_pieces 0 body
  have hcases := @word_cases _ _ linkPattern (pieces linkPattern 0 body) (literal "#cite-")
    (by decide) (fun link _ => bounded_link link) i (by rwa [hbody]) 0
  obtain ⟨⟨start, link⟩, hfound, hstart, hstop⟩ := hcases.resolve_left hrest
  change start ≤ 0 + i at hstart
  change 0 + i + 6 ≤ start + link.source.length at hstop
  obtain ⟨hwell, more, hmore⟩ := link_of_mem_matchAll hfound
  -- The mark is inside the link that covers it.
  have hinside : literal "#cite-" <+: link.source.drop (i - start) := by
    rw [show i = start + (i - start) by omega, ← List.drop_drop, ← hmore,
      List.drop_append_of_le_length (show i - start ≤ link.source.length by omega)] at hmark
    refine List.prefix_of_prefix_length_le hmark (List.prefix_append _ more) ?_
    show 6 ≤ (link.source.drop (i - start)).length
    rw [List.length_drop]
    omega
  have htarget : i - start = link.label.length + 3 :=
    (mark_in_link hwell hinside).resolve_left (hfree _ hfound)
  obtain ⟨citation, hcitation, hannotate⟩ := (Except.exists_of_mapM hcitations).1 _ hfound
  have hannotates := annotate_annotates hannotate
  have hlength := link.length_source
  have hstart' : citation.start = start := hannotates.start
  have hstop' : citation.stop = start + link.source.length := hannotates.stop
  have htarget' : citation.targetStart = i := by
    change citation.start + citation.text.length + 3 = i
    rw [hstart', show citation.text = link.label from hannotates.text]
    omega
  refine ⟨citation, ⟨hcitation, htarget'.le, ?_⟩, fun other hother => ?_⟩
  · show i + 6 < citation.stop
    omega
  · obtain ⟨hmem, hbefore, hbehind⟩ := hother
    change other.start + other.text.length + 3 ≤ i at hbefore
    change i + 6 < other.stop at hbehind
    exact @eq_of_covers _ _ _ hcitations _ _ i hmem hcitation ⟨by omega, by omega⟩
      ⟨by omega, by omega⟩

/-- If each mark is in the target of a citation, no label has one. -/
theorem free_of_marks (hmarks : ∀ i, literal "#cite-" <+: body.drop i →
      ∃ citation ∈ citations, citation.targetStart ≤ i
        ∧ i + (literal "#cite-").length < citation.stop) :
    ∀ found ∈ matchAll linkPattern body, ¬ literal "#cite-" <:+: found.2.label := by
  rintro ⟨start, link⟩ hfound ⟨front, behind, hlabel⟩
  obtain ⟨-, more, hmore⟩ := link_of_mem_matchAll hfound
  simp only at hlabel hmore
  have hmark : literal "#cite-" <+: body.drop (start + (front.length + 1)) := by
    rw [← List.drop_drop, ← hmore, Link.source, ← hlabel, List.cons_append, List.drop_succ_cons]
    simp only [List.append_assoc, List.drop_left]
    exact List.prefix_append _ _
  obtain ⟨citation, hcitation, hbefore, hbehind⟩ := hmarks _ hmark
  obtain ⟨own, hown, hannotate⟩ := (Except.exists_of_mapM hcitations).1 _ hfound
  have hannotates := annotate_annotates hannotate
  have hlength := link.length_source
  have hfront := congrArg List.length hlabel
  simp only [List.length_append] at hfront
  have hstart : own.start = start := hannotates.start
  have hstop : own.stop = start + link.source.length := hannotates.stop
  have htext : own.text = link.label := hannotates.text
  change citation.start + citation.text.length + 3 ≤ start + (front.length + 1) at hbefore
  change start + (front.length + 1) + 6 < citation.stop at hbehind
  have hsame : citation = own := @eq_of_covers _ _ _ hcitations _ _ (start + (front.length + 1))
    hcitation hown ⟨by omega, by omega⟩ ⟨by omega, by omega⟩
  rw [hsame, hstart, htext] at hbefore
  omega

end

/-- The citations of an envelope are complete and exact when no link has the mark of a citation
    in its label, and only then. -/
theorem citations_exact_iff {ρ : Type} {others : Except String ρ} {body : Units}
    {evidence : EvidenceSnapshot} {envelope : ResponseEnvelope ρ}
    (h : createResponseEnvelope others body evidence = .ok envelope) :
    Exact body evidence envelope
      ↔ ∀ found ∈ matchAll linkPattern body, ¬ literal "#cite-" <:+: found.2.label := by
  obtain ⟨hcitations, hrest, hevidence⟩ := createResponseEnvelope_eq_ok h
  constructor
  · intro hexact
    refine free_of_marks hcitations fun i hmark => ?_
    obtain ⟨citation, hcitation, -⟩ := hexact.marks i hmark
    exact ⟨citation, hcitation⟩
  · intro hfree
    refine ⟨citations_in_order hcitations, fun _ => citation_link hcitations,
      fun i => marks_of_free hcitations hrest hfree, fun citation hcitation => ?_, ?_⟩
    · obtain ⟨found, -, hannotates⟩ := annotated hcitations hcitation
      exact hannotates.known
    · rw [snapshotCitationEvidence_eq_ok hevidence]
      congr 1
      refine List.filter_congr fun item _ => ?_
      rw [Bool.eq_iff_iff, List.contains_iff_mem, List.mem_flatMap, List.any_eq_true]
      simp only [List.contains_iff_mem]

private def quotedSnapshot : EvidenceSnapshot where
  version := 1
  id := "e"
  items := [{ marker := "S1", sourceId := "a", sourceVersion := "1", chunkId := "c", title := "t",
              excerpt := "e" }]

private theorem envelope_of_isSome {body : Units}
    (h : (createResponseEnvelope (.ok ()) body quotedSnapshot).toOption.isSome = true) :
    ∃ envelope, createResponseEnvelope (.ok ()) body quotedSnapshot = .ok envelope := by
  cases hcreate : createResponseEnvelope (.ok ()) body quotedSnapshot with
  | error e => simp [hcreate, Except.toOption] at h
  | ok envelope => exact ⟨envelope, rfl⟩

theorem citations_exact_iff_cited : ∃ envelope,
    createResponseEnvelope (.ok ()) (literal "As [a](#cite-S1) says.") quotedSnapshot = .ok envelope
    ∧ Exact (literal "As [a](#cite-S1) says.") quotedSnapshot envelope := by
  obtain ⟨envelope, hcreate⟩ := @envelope_of_isSome (literal "As [a](#cite-S1) says.")
    (by decide +kernel)
  exact ⟨envelope, hcreate, (citations_exact_iff hcreate).2 (by decide +kernel)⟩

/-- A mark in the label of a link is taken out with the link. -/
theorem mark_in_label : ∃ envelope,
    createResponseEnvelope (.ok ()) (literal "[a (#cite-S2)](#cite-S1)") quotedSnapshot = .ok envelope
    ∧ ¬ Exact (literal "[a (#cite-S2)](#cite-S1)") quotedSnapshot envelope := by
  obtain ⟨envelope, hcreate⟩ := @envelope_of_isSome (literal "[a (#cite-S2)](#cite-S1)")
    (by decide +kernel)
  refine ⟨envelope, hcreate, fun hexact => ?_⟩
  obtain ⟨hcitations, -, -⟩ := createResponseEnvelope_eq_ok hcreate
  have hfree := free_of_marks hcitations fun i hmark => by
    obtain ⟨citation, hcitation, -⟩ := hexact.marks i hmark
    exact ⟨citation, hcitation⟩
  exact absurd hfree (by decide +kernel)

end LingxiOS.Citations
