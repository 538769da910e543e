-- SUMMARY: The streaming parser against the JSON reader.
import LingxiOS.Model.CandidateGrammar

/-! # Candidates and JSON

The final answer is read by `JSON.parse`. A candidate the parser accepts is one to that reader
too if the white space outside its strings is JSON's. -/

namespace LingxiOS

open JsonText (Units Value Number Gap StringText Spells isSpace parse)
open Stringify (isWhiteSpace)

namespace CandidateBodyParser

variable {p : Fields} {u : Nat} {text shown : Units} {m : Units × Value Number}
  {members : List (Units × Value Number)}

/-! ## The final answer's reader -/

/-- `JSON.parse` succeeds with an object whose keys are known and, in the text, distinct, and
    whose body is a string. -/
def Candidate (text body : Units) : Prop :=
  ∃ members, parse text = some (.obj members) ∧ (members.map Prod.fst).Nodup
    ∧ (∀ m ∈ members, m.1 ∈ knownKeys) ∧ (bodyKey, .str body) ∈ members

/-- Members whose body is text. -/
def Textual (members : List (Units × Value Number)) : Prop :=
  ∀ m ∈ members, m.1 = bodyKey → ∃ body, m.2 = .str body

theorem member_of_spells {before inside key between start used after : Units} {v : Value Number}
    (hbefore : Gap isSpace before) (hkey : StringText inside key) (hbetween : Gap isSpace between)
    (hstart : Gap isSpace start) (hused : Spells used (.value v)) (hafter : Gap isSpace after)
    (htext : key = bodyKey → ∃ body, v = .str body) :
    Member isSpace (before ++ 34 :: (inside ++ 34 :: (between ++ 58 :: (start ++
      (used ++ after))))) (key, v) := by
  by_cases hbody : key = bodyKey
  case pos =>
    obtain ⟨body, rfl⟩ := htext hbody
    subst hbody
    cases hused with
    | str hquoted => simpa using Member.body hbefore hkey hbetween hstart hquoted hafter
  case neg => exact .skipped hbefore hkey hbody hbetween hstart hused hafter

theorem members_of_spells {used : Units} (h : Spells used (.members members))
    (htext : Textual members) : Members isSpace used members := by
  generalize hpart : JsonText.Part.members members = part at h
  induction h generalizing members with
  | member hbefore hkey hbetween hstart h hafter ih =>
      cases hpart
      exact .last (member_of_spells hbefore hkey hbetween hstart h hafter
        (htext _ List.mem_cons_self))
  | memberCons hbefore hkey hbetween hstart h hafter hrest ih ihrest =>
      cases hpart
      obtain ⟨hm, hmembers⟩ := List.forall_mem_cons.1 htext
      have hmember := member_of_spells hbefore hkey hbetween hstart h hafter hm
      simpa using Members.cons hmember (ihrest hmembers rfl)
  | null | yes | no | num | str | emptyArr | arr | emptyObj | obj | item | itemCons => cases hpart

theorem spells_of_members {used : Units} (h : Members isSpace used members) :
    Spells used (.members members) := by
  induction h with
  | last h =>
      cases h with
      | body hbefore hkey hbetween hstart hbody hafter =>
          simpa using Spells.member hbefore hkey hbetween hstart (.str hbody) hafter
      | skipped hbefore hkey hne hbetween hstart hvalue hafter =>
          exact .member hbefore hkey hbetween hstart hvalue hafter
  | cons h hrest ih =>
      cases h with
      | body hbefore hkey hbetween hstart hbody hafter =>
          simpa using Spells.memberCons hbefore hkey hbetween hstart (.str hbody) hafter ih
      | skipped hbefore hkey hne hbetween hstart hvalue hafter =>
          simpa using Spells.memberCons hbefore hkey hbetween hstart hvalue hafter ih

theorem parse_of_written (h : Written isSpace text members) :
    parse text = some (.obj members) := by
  obtain ⟨before, used, after, rfl, hbefore, hmembers, hafter⟩ := h
  exact JsonText.parse_iff.2 ⟨before, 123 :: (used ++ [125]), after, by simp, hbefore,
    .obj (spells_of_members hmembers), hafter⟩

theorem written_of_parse (h : parse text = some (.obj members)) (hne : members ≠ [])
    (htext : Textual members) : Written isSpace text members := by
  obtain ⟨before, used, after, rfl, hbefore, hused, hafter⟩ := JsonText.parse_iff.1 h
  cases hused with
  | emptyObj => exact absurd rfl hne
  | obj hmembers =>
      exact ⟨before, _, after, by simp, hbefore, members_of_spells hmembers htext, hafter⟩

section

variable {space : Nat → Bool} {used : Units}

theorem textual_of_members (h : Members space used members) : Textual members := by
  have hmember {text : Units} {m : Units × Value Number} (h : Member space text m)
      (hkey : m.1 = bodyKey) : ∃ body, m.2 = .str body := by
    cases h with
    | @body _ _ _ _ _ body => exact ⟨body, rfl⟩
    | skipped _ _ hne => exact absurd hkey hne
  induction h with
  | last h => exact List.forall_mem_singleton.2 (hmember h)
  | cons h _ ih => exact List.forall_mem_cons.2 ⟨hmember h, ih⟩

theorem written_mono (h : Written isSpace text members) : Written isWhiteSpace text members := by
  have hgap {gap : Units} (h : Gap isSpace gap) : Gap isWhiteSpace gap :=
    fun u hu => white_of_space (h u hu)
  have hmember {text : Units} {m : Units × Value Number} (h : Member isSpace text m) :
      Member isWhiteSpace text m := by
    cases h with
    | body hbefore hkey hbetween hstart hbody hafter =>
        exact .body (hgap hbefore) hkey (hgap hbetween) (hgap hstart) hbody (hgap hafter)
    | skipped hbefore hkey hne hbetween hstart hvalue hafter =>
        exact .skipped (hgap hbefore) hkey hne (hgap hbetween) (hgap hstart) hvalue hafter
  obtain ⟨before, used, after, rfl, hbefore, hmembers, hafter⟩ := h
  refine ⟨before, used, after, rfl, hgap hbefore, ?_, hgap hafter⟩
  clear hbefore hafter
  induction hmembers with
  | last h => exact .last (hmember h)
  | cons h _ ih => exact .cons (hmember h) ih

end

/-- A text is a candidate when it is written as one with JSON's white space. -/
theorem candidate_iff {body : Units} : Candidate text body ↔ ∃ members,
    Written isSpace text members ∧ (members.map Prod.fst).Nodup
      ∧ (∀ m ∈ members, m.1 ∈ knownKeys) ∧ (bodyKey, .str body) ∈ members := by
  constructor
  · rintro ⟨members, hparse, hdistinct, hknown, hbody⟩
    refine ⟨members, written_of_parse hparse (List.ne_nil_of_mem hbody) fun m hm hkey => ?_,
      hdistinct, hknown, hbody⟩
    have heq : m = (bodyKey, .str body) :=
      List.inj_on_of_nodup_map hdistinct hm hbody hkey
    exact ⟨body, congrArg Prod.snd heq⟩
  · rintro ⟨members, hwritten, hrest⟩
    exact ⟨members, parse_of_written hwritten, hrest⟩

/-! ## White space outside strings -/

/-- The units of a text outside its strings, from inside a string or not. -/
def outsideFrom : Bool → Bool → Units → Units
  | _, _, [] => []
  | false, _, u :: rest =>
      if u = 34 then outsideFrom true false rest else u :: outsideFrom false false rest
  | true, true, _ :: rest => outsideFrom true false rest
  | true, false, u :: rest =>
      if u = 92 then outsideFrom true true rest
      else if u = 34 then outsideFrom false false rest
      else outsideFrom true false rest

def outside (text : Units) : Units := outsideFrom false false text

/-- White space of the language is JSON's. -/
def JsonSpaced (units : Units) : Prop := ∀ u ∈ units, isWhiteSpace u = true → isSpace u = true

theorem jsonSpaced_append {units more : Units} :
    JsonSpaced (units ++ more) ↔ JsonSpaced units ∧ JsonSpaced more :=
  List.forall_mem_append

theorem jsonSpaced_cons {units : Units} : JsonSpaced (u :: units)
    ↔ (isWhiteSpace u = true → isSpace u = true) ∧ JsonSpaced units :=
  List.forall_mem_cons

theorem jsonSpaced_of_gap {gap : Units} (h : Gap isSpace gap) : JsonSpaced gap :=
  fun u hu _ => h u hu

theorem gap_of_jsonSpaced {gap : Units} (hgap : Gap isWhiteSpace gap) (h : JsonSpaced gap) :
    Gap isSpace gap := fun u hu => h u hu (hgap u hu)

theorem jsonSpaced_visible {units : Units} (h : ∀ u ∈ units, 32 < u ∧ u < 126) :
    JsonSpaced units := by
  intro u hu hwhite
  obtain ⟨hlow, hhigh⟩ := h u hu
  simp [isWhiteSpace] at hwhite
  omega

/-- A piece of a text with all of its strings, and what it has outside of them. -/
def Splits (piece own : Units) : Prop := ∀ rest, outside (piece ++ rest) = own ++ outside rest

variable {piece own : Units}

theorem Splits.append {piece' own' : Units} (h : Splits piece own) (h' : Splits piece' own') :
    Splits (piece ++ piece') (own ++ own') := by
  intro rest
  rw [List.append_assoc, h, h', List.append_assoc]

theorem splits_plain (h : ∀ u ∈ piece, u ≠ 34) : Splits piece piece := by
  induction piece with
  | nil => exact fun rest => rfl
  | cons u piece ih =>
      obtain ⟨hu, hpiece⟩ := List.forall_mem_cons.1 h
      intro rest
      have hrest := ih hpiece rest
      simp only [outside] at hrest
      simp [outside, outsideFrom, hu, hrest]

theorem splits_gap {gap : Units} (h : Gap isWhiteSpace gap) : Splits gap gap := by
  refine splits_plain fun u hu hquote => ?_
  have hwhite := h u hu
  rw [hquote] at hwhite
  cases hwhite

theorem splits_string {inside s : Units} (h : StringText inside s) :
    Splits (34 :: (inside ++ [34])) [] := by
  have hinside (rest : Units) :
      outsideFrom true false (inside ++ 34 :: rest) = outsideFrom false false rest := by
    induction h with
    | nil => simp [outsideFrom]
    | @hex a b c d u inside s hhex _ ih =>
        obtain ⟨⟨ha, ha'⟩, ⟨hb, hb'⟩, ⟨hc, hc'⟩, hd, hd'⟩ := readHex_plain hhex
        simp [outsideFrom, ha, ha', hb, hb', hc, hc', hd, hd', ih]
    | short _ _ ih => simp [outsideFrom, ih]
    | plain _ hquote hbackslash _ ih => simp [outsideFrom, hquote, hbackslash, ih]
  intro rest
  simp [outside, outsideFrom, hinside]

/-- A piece that has no white space but JSON's outside its strings. -/
def Tidy (piece : Units) : Prop := ∃ own, Splits piece own ∧ JsonSpaced own

theorem Tidy.append {more : Units} (h : Tidy piece) (hmore : Tidy more) : Tidy (piece ++ more) := by
  obtain ⟨own, hsplits, hknown⟩ := h
  obtain ⟨own', hsplits', hknown'⟩ := hmore
  exact ⟨own ++ own', hsplits.append hsplits', jsonSpaced_append.2 ⟨hknown, hknown'⟩⟩

theorem tidy_gap {gap : Units} (h : Gap isSpace gap) : Tidy gap :=
  ⟨gap, splits_gap fun u hu => white_of_space (h u hu), jsonSpaced_of_gap h⟩

theorem tidy_visible (h : ∀ u ∈ piece, 34 < u ∧ u < 126) : Tidy piece :=
  ⟨piece, splits_plain fun u hu => by have := h u hu; omega,
    jsonSpaced_visible fun u hu => by have := h u hu; omega⟩

theorem tidy_string {inside s : Units} (h : StringText inside s) :
    Tidy (34 :: (inside ++ [34])) :=
  ⟨[], splits_string h, List.forall_mem_nil _⟩

theorem tidy_nested {opening closing : Nat} (hopening : 34 < opening ∧ opening < 126)
    (hclosing : 34 < closing ∧ closing < 126) (h : Tidy piece) :
    Tidy (opening :: (piece ++ [closing])) := by
  have hopen : Tidy [opening] := tidy_visible (by simpa using hopening)
  have hclose : Tidy [closing] := tidy_visible (by simpa using hclosing)
  exact hopen.append (h.append hclose)

theorem tidy_spells {part : JsonText.Part} (h : Spells text part) : Tidy text := by
  have hcomma : Tidy [44] := tidy_visible (by decide)
  have hcolon : Tidy [58] := tidy_visible (by decide)
  induction h with
  | null | yes | no => exact tidy_visible (by decide)
  | num n =>
      exact tidy_visible fun u hu => by
        have hplain := n.text_plain u hu
        omega
  | str h => exact tidy_string h
  | emptyArr h => exact tidy_nested (by decide) (by decide) (tidy_gap h)
  | arr h ih => exact tidy_nested (by decide) (by decide) ih
  | emptyObj h => exact tidy_nested (by decide) (by decide) (tidy_gap h)
  | obj h ih => exact tidy_nested (by decide) (by decide) ih
  | item hbefore h hafter ih => exact (tidy_gap hbefore).append (ih.append (tidy_gap hafter))
  | itemCons hbefore h hafter hrest ih ihrest =>
      exact (tidy_gap hbefore).append (ih.append ((tidy_gap hafter).append (hcomma.append ihrest)))
  | member hbefore hkey hbetween hstart h hafter ih =>
      have htidy := (tidy_gap hbefore).append ((tidy_string hkey).append
        ((tidy_gap hbetween).append (hcolon.append ((tidy_gap hstart).append
          (ih.append (tidy_gap hafter))))))
      simpa using htidy
  | memberCons hbefore hkey hbetween hstart h hafter hrest ih ihrest =>
      have htidy := (tidy_gap hbefore).append ((tidy_string hkey).append
        ((tidy_gap hbetween).append (hcolon.append ((tidy_gap hstart).append
          (ih.append ((tidy_gap hafter).append (hcomma.append ihrest)))))))
      simpa using htidy

/-- Outside its strings, JSON has no white space but its own. -/
theorem jsonSpaced_of_parse {v : Value Number} (h : parse text = some v) :
    JsonSpaced (outside text) := by
  obtain ⟨before, used, after, rfl, hbefore, hused, hafter⟩ := JsonText.parse_iff.1 h
  obtain ⟨own, hsplits, hknown⟩ :=
    (tidy_gap hbefore).append ((tidy_spells hused).append (tidy_gap hafter))
  have hown := hsplits []
  rw [List.append_nil] at hown
  rw [hown]
  exact jsonSpaced_append.2 ⟨hknown, List.forall_mem_nil _⟩

/-- A member whose white space is JSON's. -/
theorem splits_member (h : Member isWhiteSpace text m) :
    ∃ own, Splits text own ∧ (JsonSpaced own → Member isSpace text m) := by
  have hcolon : Splits [58] [58] := splits_plain (by decide)
  cases h with
  | body hbefore hkey hbetween hstart hbody hafter =>
      have hsplits := (splits_gap hbefore).append ((splits_string hkey).append
        ((splits_gap hbetween).append (hcolon.append ((splits_gap hstart).append
          ((splits_string hbody).append (splits_gap hafter))))))
      refine ⟨_, by simpa using hsplits, fun hknown => ?_⟩
      simp only [jsonSpaced_append, jsonSpaced_cons] at hknown
      obtain ⟨hbefore', hbetween', -, hstart', hafter'⟩ := hknown
      exact .body (gap_of_jsonSpaced hbefore hbefore') hkey (gap_of_jsonSpaced hbetween hbetween')
        (gap_of_jsonSpaced hstart hstart') hbody (gap_of_jsonSpaced hafter hafter')
  | skipped hbefore hkey hne hbetween hstart hvalue hafter =>
      obtain ⟨own, hown, -⟩ := (tidy_spells hvalue).append (tidy_gap hafter)
      have hsplits := (splits_gap hbefore).append ((splits_string hkey).append
        ((splits_gap hbetween).append (hcolon.append ((splits_gap hstart).append hown))))
      refine ⟨_, by simpa using hsplits, fun hknown => ?_⟩
      simp only [jsonSpaced_append, jsonSpaced_cons] at hknown
      obtain ⟨hbefore', hbetween', -, hstart', -⟩ := hknown
      exact .skipped (gap_of_jsonSpaced hbefore hbefore') hkey hne
        (gap_of_jsonSpaced hbetween hbetween') (gap_of_jsonSpaced hstart hstart') hvalue hafter

theorem splits_members (h : Members isWhiteSpace text members) :
    ∃ own, Splits text own ∧ (JsonSpaced own → Members isSpace text members) := by
  have hcomma : Splits [44] [44] := splits_plain (by decide)
  induction h with
  | last h =>
      obtain ⟨own, hsplits, hmember⟩ := splits_member h
      exact ⟨own, hsplits, fun hknown => .last (hmember hknown)⟩
  | cons h _ ih =>
      obtain ⟨own, hsplits, hmember⟩ := splits_member h
      obtain ⟨own', hsplits', hmembers⟩ := ih
      refine ⟨_, hsplits.append (hcomma.append hsplits'), fun hknown => ?_⟩
      simp only [jsonSpaced_append] at hknown
      exact .cons (hmember hknown.1) (hmembers hknown.2.2)

theorem written_of_jsonSpaced (h : Written isWhiteSpace text members)
    (hknown : JsonSpaced (outside text)) : Written isSpace text members := by
  obtain ⟨before, used, after, rfl, hbefore, hmembers, hafter⟩ := h
  obtain ⟨own, hsplits, hspelled⟩ := splits_members hmembers
  have hopen : Splits [123] [123] := splits_plain (by decide)
  have hclose : Splits [125] [125] := splits_plain (by decide)
  have hown := (splits_gap hbefore).append (hopen.append (hsplits.append
    (hclose.append (splits_gap hafter)))) []
  simp only [List.append_nil, List.cons_append, List.nil_append] at hown
  rw [hown] at hknown
  simp only [jsonSpaced_append, jsonSpaced_cons] at hknown
  obtain ⟨⟨hbefore', -, hused', -, hafter'⟩, -⟩ := hknown
  exact ⟨before, used, after, rfl, gap_of_jsonSpaced hbefore hbefore', hspelled hused',
    gap_of_jsonSpaced hafter hafter'⟩

/-! ## The claim -/

variable {body : Units}

/-- A text that is a candidate if any white space of the language may stand in its gaps. -/
def Loose (text : Units) : Prop :=
  ∃ members, Written isWhiteSpace text members ∧ Admits [] members
    ∧ bodyKey ∈ members.map Prod.fst

theorem append_wellPaired (h : TextCoding.WellPaired body) : (append [] body).1 = [] := by
  induction h with
  | nil => rfl
  | @unit u rest hu _ ih =>
      have hhigh : TextCoding.isHigh u = false := by
        simp only [TextCoding.isHigh, Bool.and_eq_false_iff, decide_eq_false_iff_not]
        omega
      rw [append_cons]
      simpa [append, appendAll, appendChar, TextCoding.characters, hhigh] using ih
  | @pair u w rest hu hw _ ih =>
      rw [append_cons, append_cons]
      simpa [append, appendAll, appendChar, TextCoding.characters, hu] using ih

theorem body_unique {body' : Units} (hdistinct : (members.map Prod.fst).Nodup)
    (h : (bodyKey, .str body) ∈ members) (h' : (bodyKey, .str body') ∈ members) : body = body' := by
  have heq := List.inj_on_of_nodup_map hdistinct h h' rfl
  cases heq
  rfl

theorem told_of_ne (h : m.1 ≠ bodyKey) : told m = [] := by
  obtain ⟨key, v⟩ := m
  cases v <;> simp_all [told]

theorem told_body (hdistinct : (members.map Prod.fst).Nodup)
    (h : (bodyKey, .str body) ∈ members) : members.flatMap told = body := by
  induction members with
  | nil => cases h
  | cons m members ih =>
      obtain ⟨hfirst, hrest⟩ := List.nodup_cons.1 hdistinct
      rw [List.flatMap_cons]
      rcases List.mem_cons.1 h with rfl | h
      · have hnone : members.flatMap told = [] := by
          refine List.flatMap_eq_nil_iff.2 fun m' hm' => told_of_ne fun hkey => hfirst ?_
          exact List.mem_map.2 ⟨m', hm', hkey⟩
        simp [hnone, told]
      · have hne : m.1 ≠ bodyKey := fun hkey =>
          hfirst (List.mem_map.2 ⟨_, h, hkey.symm⟩)
        rw [told_of_ne hne, List.nil_append, ih hrest h]

/-- A candidate whose body is well paired completes the parser, which shows the body. -/
theorem ends_of_candidate (h : Candidate text body) (hpaired : TextCoding.WellPaired body) :
    Ends {} text body := by
  obtain ⟨members, hwritten, hdistinct, hknown, hbody⟩ := candidate_iff.1 h
  have hwhole : ∀ m ∈ members, Whole m := by
    rintro m hm body' rfl
    rw [body_unique hdistinct hm hbody]
    exact append_wellPaired hpaired
  exact ends_iff.2 ⟨members, written_mono hwritten,
    ⟨hknown, fun _ _ => List.not_mem_nil, hdistinct, hwhole⟩,
    List.mem_map.2 ⟨_, hbody, rfl⟩, (told_body hdistinct hbody).symm⟩

theorem candidate_of_loose (h : Loose text) (hknown : JsonSpaced (outside text)) :
    ∃ body, Candidate text body := by
  obtain ⟨members, hwritten, hadmits, hbody⟩ := h
  have hwritten' := written_of_jsonSpaced hwritten hknown
  obtain ⟨⟨key, v⟩, hm, hkey⟩ := List.mem_map.1 hbody
  obtain ⟨-, used, -, -, -, hmembers, -⟩ := hwritten'
  obtain ⟨body, hv⟩ := textual_of_members hmembers _ hm hkey
  simp only at hkey hv
  subst hkey hv
  exact ⟨body, candidate_iff.2
    ⟨members, written_of_jsonSpaced hwritten hknown, hadmits.distinct, hadmits.known, hm⟩⟩

theorem complete_of_ends {chunks : List Units} (h : chunks.flatten = text)
    (hsize : text.length ≤ maxSize) (hends : Ends {} text shown) :
    (pushAll {} chunks).1.complete = true ∧ (pushAll {} chunks).2.flatten = shown := by
  obtain ⟨q, hread, hdone⟩ := hends
  have hstart := pushAll_start (h ▸ hsize)
  rw [h, hread] at hstart
  obtain ⟨⟨hfields, -⟩, hshown⟩ := hstart
  exact ⟨by rw [complete, hfields]; exact decide_eq_true hdone, hshown⟩

theorem ends_of_complete {chunks : List Units} (h : chunks.flatten = text)
    (hsize : text.length ≤ maxSize) (hcomplete : (pushAll {} chunks).1.complete = true) :
    ∃ shown, Ends {} text shown := by
  have hstart := pushAll_start (h ▸ hsize)
  rw [h] at hstart
  cases hread : readUnits {} text with
  | error e =>
      simp only [hread] at hstart
      simp [complete, hstart] at hcomplete
  | ok r =>
      simp only [hread] at hstart
      obtain ⟨⟨hfields, -⟩, -⟩ := hstart
      rw [complete, decide_eq_true_iff, hfields] at hcomplete
      exact ⟨r.2, r.1, hread, hcomplete⟩

/-- The parser completes on exactly the candidates, however they are cut, and shows the body;
    bodies with half a pair aside. -/
def Exact (text : Units) : Prop := ∀ chunks : List Units, chunks.flatten = text →
  (∀ body, Candidate text body → TextCoding.WellPaired body) →
  ((pushAll {} chunks).1.complete = true ↔ ∃ body, Candidate text body)
    ∧ ∀ body, Candidate text body → (pushAll {} chunks).2.flatten = body

/-- The parser is exact on a text unless the text is a candidate only when other white space
    than JSON's may stand outside its strings. -/
theorem exact_iff (hsize : text.length ≤ maxSize) :
    Exact text ↔ (Loose text → JsonSpaced (outside text)) := by
  constructor
  · rintro hexact ⟨members, hwritten, hadmits, hbody⟩
    by_cases hcandidate : ∃ body, Candidate text body
    case pos =>
      obtain ⟨body, members, hparse, -⟩ := hcandidate
      exact jsonSpaced_of_parse hparse
    case neg =>
      have hflat : [text].flatten = text := by simp
      obtain ⟨hcomplete, -⟩ := hexact [text] hflat fun body h => absurd ⟨body, h⟩ hcandidate
      have hends := ends_iff.2 ⟨members, hwritten, hadmits, hbody, rfl⟩
      exact absurd (hcomplete.1 (complete_of_ends hflat hsize hends).1) hcandidate
  · intro hcondition chunks hflat hpaired
    refine ⟨⟨fun hcomplete => ?_, ?_⟩, ?_⟩
    · obtain ⟨shown, hends⟩ := ends_of_complete hflat hsize hcomplete
      obtain ⟨members, hwritten, hadmits, hbody, -⟩ := ends_iff.1 hends
      have hloose : Loose text := ⟨members, hwritten, hadmits, hbody⟩
      exact candidate_of_loose hloose (hcondition hloose)
    · rintro ⟨body, h⟩
      exact (complete_of_ends hflat hsize (ends_of_candidate h (hpaired body h))).1
    · intro body h
      exact (complete_of_ends hflat hsize (ends_of_candidate h (hpaired body h))).2

/-- `{"body":"hi"}`. -/
private def greeting : Units := [123, 34, 98, 111, 100, 121, 34, 58, 34, 104, 105, 34, 125]

theorem exact_iff_greeting : greeting.length ≤ maxSize
    ∧ (Exact greeting ↔ (Loose greeting → JsonSpaced (outside greeting))) :=
  ⟨by decide, exact_iff (by decide)⟩

/-- The same with a no-break space after the brace. -/
private def spaced : Units := [123, 160, 34, 98, 111, 100, 121, 34, 58, 34, 104, 105, 34, 125]

theorem spaced_not_exact : spaced.length ≤ maxSize ∧ ¬Exact spaced
    ∧ (pushAll {} [spaced]).1.complete = true ∧ (parse spaced).isNone := by
  have hnone : (parse spaced).isNone := by decide +kernel
  have hcandidate (body : Units) : ¬Candidate spaced body := by
    rintro ⟨members, hparse, -⟩
    rw [hparse] at hnone
    cases hnone
  have hcomplete : (pushAll {} [spaced]).1.complete = true := by decide +kernel
  refine ⟨by decide, fun hexact => ?_, hcomplete, hnone⟩
  obtain ⟨hiff, -⟩ := hexact [spaced] (by decide) fun body h => absurd h (hcandidate body)
  obtain ⟨body, h⟩ := hiff.1 hcomplete
  exact hcandidate body h

end CandidateBodyParser

end LingxiOS
