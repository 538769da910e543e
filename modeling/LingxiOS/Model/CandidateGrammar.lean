-- SUMMARY: The texts that complete the streaming parser, as a grammar of candidates.
import LingxiOS.Model.CandidateBodyParser

/-! # Candidate Grammar

A text completes the parser if it is written like a candidate, member by member, where the
gaps around the marks may hold any white space of the language and not only that of JSON.
Inside a skipped value, and after it, only JSON's is accepted. -/

namespace LingxiOS

open JsonText (Units Value Number Gap StringText Spells isSpace parse)
open Stringify (isWhiteSpace)

namespace CandidateBodyParser

variable {p q : Fields} {u : Nat} {text rest shown : Units}

/-- The parser completes on a text, and shows something on the way. -/
def Ends (p : Fields) (text shown : Units) : Prop :=
  ∃ q, readUnits p text = .ok (q, shown) ∧ q.state = .done ∧ bodyKey ∈ q.keys

theorem ends_nil : Ends p [] shown ↔ shown = [] ∧ p.state = .done ∧ bodyKey ∈ p.keys := by
  constructor
  · rintro ⟨q, h, hdone⟩
    cases h
    exact ⟨rfl, hdone⟩
  · rintro ⟨rfl, hdone⟩
    exact ⟨p, rfl, hdone⟩

theorem ends_cons : Ends p (u :: text) shown
    ↔ ∃ r more, step p [u] = .ok r ∧ shown = r.2 ++ more ∧ Ends r.1 text more := by
  rw [Ends]
  simp only [readUnits_cons]
  constructor
  · rintro ⟨q, h, hdone⟩
    cases hstep : step p [u] with
    | error e => rw [hstep] at h; cases h
    | ok r =>
        rw [hstep] at h
        cases hrest : readUnits r.1 text with
        | error e => simp only [Except.bind, hrest] at h; cases h
        | ok q' =>
            simp only [Except.bind, hrest] at h
            cases h
            exact ⟨r, q'.2, rfl, rfl, q'.1, hrest, hdone⟩
  · rintro ⟨r, more, hstep, rfl, q, hrest, hdone⟩
    refine ⟨q, ?_, hdone⟩
    rw [hstep]
    simp only [Except.bind, hrest]
    rfl

/-- A character that shows nothing. -/
theorem ends_silent (h : step p [u] = .ok (q, [])) :
    Ends p (u :: text) shown ↔ Ends q text shown := by
  rw [ends_cons, h]
  constructor
  · rintro ⟨r, more, heq, rfl, hrest⟩
    cases heq
    exact hrest
  · intro hrest
    exact ⟨_, shown, rfl, rfl, hrest⟩

theorem not_ends_error {e : String} (h : step p [u] = .error e) : ¬Ends p (u :: text) shown := by
  rw [ends_cons, h]
  rintro ⟨r, more, heq, -⟩
  cases heq

/-! ## Marks -/

/-- A parser between two parts of the object. -/
def between (state : State) (key : Units) (keys : List Units) : Fields := { state, key, keys }

variable {state : State} {key : Units} {keys : List Units}

theorem step_white (h : p.state ∈ [.start, .colon, .value, .separator, .done])
    (hwhite : isWhiteSpace u = true) : step p [u] = .ok (p, []) := by
  have hstep : step p [u] = (readMark p [u]).map (·, []) := by
    simp only [List.mem_cons, List.not_mem_nil, or_false] at h
    rcases h with h | h | h | h | h <;> simp only [step, h]
  simp [hstep, readMark, hwhite, Except.map]

/-- White space before a mark is passed over, and then the mark is read. -/
theorem ends_mark (hpass : ∀ u, isWhiteSpace u = true → step p [u] = .ok (p, []))
    (hdone : p.state ≠ .done) :
    Ends p text shown ↔ ∃ gap u rest, text = gap ++ u :: rest ∧ Gap isWhiteSpace gap
      ∧ isWhiteSpace u = false ∧ Ends p (u :: rest) shown := by
  induction text with
  | nil =>
      rw [ends_nil]
      constructor
      · exact fun h => absurd h.2.1 hdone
      · rintro ⟨gap, u, rest, h, -⟩
        simp at h
  | cons u text ih =>
      cases hwhite : isWhiteSpace u with
      | true =>
          rw [ends_silent (hpass u hwhite), ih]
          constructor
          · rintro ⟨gap, w, rest, rfl, hgap, hw⟩
            exact ⟨u :: gap, w, rest, rfl, List.forall_mem_cons.2 ⟨hwhite, hgap⟩, hw⟩
          · rintro ⟨gap, w, rest, htext, hgap, hw, hrest⟩
            cases gap with
            | nil =>
                cases htext
                rw [hwhite] at hw
                cases hw
            | cons u' gap =>
                cases htext
                exact ⟨gap, w, rest, rfl, (List.forall_mem_cons.1 hgap).2, hw, hrest⟩
      | false =>
          constructor
          · exact fun h => ⟨[], u, text, rfl, List.forall_mem_nil _, hwhite, h⟩
          · rintro ⟨gap, w, rest, htext, hgap, hw, hrest⟩
            cases gap with
            | nil => cases htext; exact hrest
            | cons u' gap =>
                cases htext
                have hu := hgap u List.mem_cons_self
                rw [hwhite] at hu
                cases hu

/-- Where one mark is expected, it comes after white space. -/
theorem ends_expected {mark : Nat} (hpass : ∀ u, isWhiteSpace u = true → step p [u] = .ok (p, []))
    (hdone : p.state ≠ .done)
    (hmark : isWhiteSpace mark = false) (hstep : step p [mark] = .ok (q, []))
    (hother : ∀ u, isWhiteSpace u = false → u ≠ mark → ∃ e, step p [u] = .error e) :
    Ends p text shown ↔ ∃ gap rest, text = gap ++ mark :: rest ∧ Gap isWhiteSpace gap
      ∧ Ends q rest shown := by
  rw [ends_mark hpass hdone]
  constructor
  · rintro ⟨gap, u, rest, rfl, hgap, hu, hrest⟩
    by_cases heq : u = mark
    case pos =>
      subst heq
      exact ⟨gap, rest, rfl, hgap, (ends_silent hstep).1 hrest⟩
    case neg =>
      obtain ⟨e, herror⟩ := hother u hu heq
      exact absurd hrest (not_ends_error herror)
  · rintro ⟨gap, rest, rfl, hgap, hrest⟩
    exact ⟨gap, mark, rest, rfl, hgap, hmark, (ends_silent hstep).2 hrest⟩

theorem ends_start : Ends {} text shown ↔ ∃ gap rest, text = gap ++ 123 :: rest
    ∧ Gap isWhiteSpace gap ∧ Ends (between .key [] []) rest shown := by
  refine ends_expected (fun u => step_white (by decide)) State.noConfusion rfl rfl
    fun u hu hne => ?_
  exact ⟨_, by simp [step, readMark, hu, hne, Except.map]; rfl⟩

theorem ends_colon : Ends (between .colon key keys) text shown
    ↔ ∃ gap rest, text = gap ++ 58 :: rest ∧ Gap isWhiteSpace gap
      ∧ Ends (between .value key keys) rest shown := by
  refine ends_expected (fun u => step_white (by simp [between])) State.noConfusion rfl rfl
    fun u hu hne => ?_
  exact ⟨_, by simp [step, between, readMark, hu, hne, Except.map]; rfl⟩

theorem ends_body_quote : Ends (between .value bodyKey keys) text shown
    ↔ ∃ gap rest, text = gap ++ 34 :: rest ∧ Gap isWhiteSpace gap
      ∧ Ends (between .body bodyKey keys) rest shown := by
  refine ends_expected (fun u => step_white (by simp [between])) State.noConfusion rfl rfl
    fun u hu hne => ?_
  exact ⟨_, by simp [step, between, readMark, hu, hne, Except.map]; rfl⟩

theorem ends_separator : Ends (between .separator key keys) text shown
    ↔ ∃ gap u rest, text = gap ++ u :: rest ∧ Gap isWhiteSpace gap
      ∧ (u = 44 ∧ Ends (between .key key keys) rest shown
        ∨ u = 125 ∧ Ends (between .done key keys) rest shown) := by
  have hcomma : step (between .separator key keys) [44] = .ok (between .key key keys, []) := rfl
  have hclose : step (between .separator key keys) [125] = .ok (between .done key keys, []) := rfl
  rw [ends_mark (fun u => step_white (by simp [between])) State.noConfusion]
  constructor
  · rintro ⟨gap, u, rest, rfl, hgap, hu, hrest⟩
    refine ⟨gap, u, rest, rfl, hgap, ?_⟩
    by_cases h44 : u = 44
    case pos => subst h44; exact .inl ⟨rfl, (ends_silent hcomma).1 hrest⟩
    case neg =>
      by_cases h125 : u = 125
      case pos => subst h125; exact .inr ⟨rfl, (ends_silent hclose).1 hrest⟩
      case neg =>
        have herror : step (between .separator key keys) [u]
            = .error "invalid candidate JSON" := by
          simp [step, between, readMark, hu, h44, h125, Except.map]
        exact absurd hrest (not_ends_error herror)
  · rintro ⟨gap, u, rest, rfl, hgap, ⟨rfl, hrest⟩ | ⟨rfl, hrest⟩⟩
    · exact ⟨gap, 44, rest, rfl, hgap, rfl, (ends_silent hcomma).2 hrest⟩
    · exact ⟨gap, 125, rest, rfl, hgap, rfl, (ends_silent hclose).2 hrest⟩

theorem ends_done : Ends (between .done key keys) text shown
    ↔ Gap isWhiteSpace text ∧ shown = [] ∧ bodyKey ∈ keys := by
  induction text with
  | nil =>
      rw [ends_nil]
      simp [between, Gap]
  | cons u text ih =>
      cases hu : isWhiteSpace u with
      | true =>
          rw [ends_silent (step_white (by simp [between]) hu), ih]
          simp [Gap, hu]
      | false =>
          have herror : step (between .done key keys) [u] = .error "invalid candidate JSON" := by
            simp [step, between, readMark, hu, Except.map]
          constructor
          · exact fun h => absurd h (not_ends_error herror)
          · rintro ⟨hgap, -⟩
            have hwhite := hgap u List.mem_cons_self
            rw [hu] at hwhite
            cases hwhite

/-! ## The body -/

/-- A parser inside the body, with the half of a pair it holds back. -/
def inBody (highSurrogate escape : Units) (keys : List Units) : Fields :=
  { state := .body, key := bodyKey, keys, highSurrogate, escape }

theorem append_cons (highSurrogate : Units) (u : Nat) (text : Units) :
    append highSurrogate (u :: text)
      = ((append (append highSurrogate [u]).1 text).1,
        (append highSurrogate [u]).2 ++ (append (append highSurrogate [u]).1 text).2) := by
  have hone (held : Units) (u : Nat) (chars : List Units) : appendAll held ([u] :: chars)
      = ((appendAll (append held [u]).1 chars).1,
        (append held [u]).2 ++ (appendAll (append held [u]).1 chars).2) := by
    simp [append, appendAll, TextCoding.characters]
  cases text with
  | nil => simp [append, appendAll, TextCoding.characters]
  | cons w rest =>
      by_cases hpair : (TextCoding.isHigh u && TextCoding.isLow w) = true
      case neg => rw [append, TextCoding.characters, if_neg hpair, hone]; rfl
      case pos =>
        obtain ⟨hu, hw⟩ := Bool.and_eq_true_iff.1 hpair
        have hlow : TextCoding.characters (w :: rest) = [w] :: TextCoding.characters rest := by
          cases rest with
          | nil => rfl
          | cons w' rest => simp [TextCoding.characters, not_high_of_low hw]
        have hboth : appendAll highSurrogate ([u, w] :: TextCoding.characters rest)
            = ((append (append highSurrogate [u, w]).1 rest).1,
              (append highSurrogate [u, w]).2
                ++ (append (append highSurrogate [u, w]).1 rest).2) := by
          simp [append, appendAll, TextCoding.characters, hu, hw]
        rw [append, TextCoding.characters, if_pos hpair, hboth, append_pair _ hu hw,
          append.eq_def _ (w :: rest), hlow, hone, List.append_assoc]
        rfl

/-- Nothing is lost: what is shown and what is held back is what came in. -/
theorem append_all (highSurrogate text : Units) :
    (append highSurrogate text).2 ++ (append highSurrogate text).1 = highSurrogate ++ text := by
  induction text generalizing highSurrogate with
  | nil => simp [append, appendAll, TextCoding.characters]
  | cons u text ih =>
      have hone : (append highSurrogate [u]).2 ++ (append highSurrogate [u]).1
          = highSurrogate ++ [u] := by
        simp only [append, TextCoding.characters, appendAll, appendChar]
        split_ifs with hheld hhigh <;> simp_all
      rw [append_cons, List.append_assoc, ih, ← List.append_assoc, hone]
      simp

/-- What the body ends with, and what comes after it. -/
def BodyEnds (held : Units) (keys : List Units) (found : Option (Units × Units))
    (shown : Units) : Prop :=
  ∃ body rest more, found = some (body, rest) ∧ (append held body).1 = []
    ∧ shown = (append held body).2 ++ more ∧ Ends (between .separator bodyKey keys) rest more

theorem bodyEnds_cons {held : Units} {found : Option (Units × Units)} :
    BodyEnds held keys (found.map fun r => (u :: r.1, r.2)) shown
      ↔ ∃ more, shown = (append held [u]).2 ++ more
        ∧ BodyEnds (append held [u]).1 keys found more := by
  constructor
  · rintro ⟨body, rest, more, hfound, hnone, rfl, hrest⟩
    obtain ⟨r, hr, heq⟩ := Option.map_eq_some_iff.1 hfound
    cases heq
    rw [append_cons] at hnone
    exact ⟨_, by rw [append_cons, List.append_assoc], _, _, more, hr, hnone, rfl, hrest⟩
  · rintro ⟨_, rfl, body, rest, more, rfl, hnone, rfl, hrest⟩
    exact ⟨u :: body, rest, more, rfl, by rw [append_cons]; exact hnone,
      by rw [append_cons held u body, List.append_assoc], hrest⟩

/-- A character of the body that stands for a unit. -/
theorem ends_unit {held : Units} {w : Nat}
    (hstep : step p [u] = .ok (inBody (append held [w]).1 [] keys, (append held [w]).2))
    (ih : ∀ {held shown}, Ends (inBody held [] keys) text shown
      ↔ BodyEnds held keys (JsonText.readString text) shown) :
    Ends p (u :: text) shown
      ↔ BodyEnds held keys ((JsonText.readString text).map fun r => (w :: r.1, r.2)) shown := by
  rw [ends_cons, bodyEnds_cons, hstep]
  constructor
  · rintro ⟨r, more, heq, rfl, hrest⟩
    cases heq
    exact ⟨more, rfl, ih.1 hrest⟩
  · rintro ⟨more, rfl, hrest⟩
    exact ⟨_, more, rfl, rfl, ih.2 hrest⟩

theorem not_bodyEnds_none {held : Units} : ¬BodyEnds held keys none shown := by
  rintro ⟨body, rest, more, h, -⟩
  cases h

/-- A body that breaks off inside an escape. -/
theorem not_ends_escape {held hex : Units} (h : hex.length + text.length < 4) :
    ¬Ends (inBody held (92 :: 117 :: hex) keys) text shown := by
  induction text generalizing hex with
  | nil =>
      rw [ends_nil]
      exact fun hdone => State.noConfusion hdone.2.1
  | cons u text ih =>
      simp only [List.length_cons] at h
      have hopen : unfinished (92 :: 117 :: hex ++ [u]) = true :=
        unfinished_iff.2 ⟨hex ++ [u], rfl, by simp; omega⟩
      have hstep : step (inBody held (92 :: 117 :: hex) keys) [u]
          = .ok (inBody held (92 :: 117 :: (hex ++ [u])) keys, []) := by
        simp [step, inBody, readBody] at hopen ⊢
        simp [hopen]
      rw [ends_silent hstep]
      exact ih (by simp; omega)

/-- The body is read as the JSON reader reads a string, if no half of a pair is held back at
    its end. -/
theorem ends_inBody {held : Units} : Ends (inBody held [] keys) text shown
    ↔ BodyEnds held keys (JsonText.readString text) shown := by
  induction text using JsonText.readString.induct generalizing held shown with
  | case1 =>
      rw [ends_nil]
      exact iff_of_false (fun h => State.noConfusion h.2.1) not_bodyEnds_none
  | case2 rest =>
      have hnone : append held [] = (held, []) := rfl
      by_cases hheld : held = []
      case pos =>
        subst hheld
        have hstep : step (inBody [] [] keys) [34] = .ok (between .separator bodyKey keys, []) :=
          rfl
        rw [ends_silent hstep]
        constructor
        · exact fun h => ⟨[], rest, shown, by simp [JsonText.readString], rfl, rfl, h⟩
        · rintro ⟨body, rest', more, hfound, -, rfl, hrest⟩
          simp only [JsonText.readString, Option.some.injEq, Prod.mk.injEq] at hfound
          obtain ⟨rfl, rfl⟩ := hfound
          exact hrest
      case neg =>
        have herror : step (inBody held [] keys) [34] = .error "unfinished surrogate" := by
          simp [step, inBody, readBody, hheld]
        refine iff_of_false (not_ends_error herror) ?_
        rintro ⟨body, rest', more, hfound, hlast, -⟩
        simp only [JsonText.readString, Option.some.injEq, Prod.mk.injEq] at hfound
        rw [← hfound.1, hnone] at hlast
        exact hheld hlast
  | case3 a b c d rest ih =>
      have hbackslash : step (inBody held [] keys) [92] = .ok (inBody held [92] keys, []) := rfl
      have hletter : step (inBody held [92] keys) [117] = .ok (inBody held [92, 117] keys, []) :=
        rfl
      have hfirst : step (inBody held [92, 117] keys) [a]
          = .ok (inBody held [92, 117, a] keys, []) := rfl
      have hsecond : step (inBody held [92, 117, a] keys) [b]
          = .ok (inBody held [92, 117, a, b] keys, []) := rfl
      have hthird : step (inBody held [92, 117, a, b] keys) [c]
          = .ok (inBody held [92, 117, a, b, c] keys, []) := rfl
      have hlast : step (inBody held [92, 117, a, b, c] keys) [d]
          = (parseString [34, 92, 117, a, b, c, d, 34]).map fun text =>
            (inBody (append held text).1 [] keys, (append held text).2) := rfl
      rw [ends_silent hbackslash, ends_silent hletter, ends_silent hfirst, ends_silent hsecond,
        ends_silent hthird, JsonText.readString]
      cases hhex : JsonText.readHex a b c d with
      | none =>
          have herror : parseString [34, 92, 117, a, b, c, d, 34] = .error "SyntaxError" := by
            simp [parseString_quote, JsonText.readString, hhex]
          rw [herror] at hlast
          exact iff_of_false (not_ends_error hlast) not_bodyEnds_none
      | some u =>
          have hread : parseString [34, 92, 117, a, b, c, d, 34] = .ok [u] := by
            simp [parseString_quote, JsonText.readString, hhex, JsonText.skipSpace]
          rw [hread] at hlast
          exact ends_unit hlast ih
  | case4 e rest hhex ih =>
      have hbackslash : step (inBody held [] keys) [92] = .ok (inBody held [92] keys, []) := rfl
      rw [ends_silent hbackslash]
      by_cases hletter : e = 117
      case pos =>
        subst hletter
        have hstep : step (inBody held [92] keys) [117] = .ok (inBody held [92, 117] keys, []) :=
          rfl
        have hshort : rest.length < 4 := by
          rcases rest with _ | ⟨a, _ | ⟨b, _ | ⟨c, _ | ⟨d, rest⟩⟩⟩⟩
          case cons.cons.cons.cons => exact (hhex a b c d rest rfl rfl).elim
          all_goals simp
        have hnone : JsonText.readString (92 :: 117 :: rest) = none := by
          simp only [JsonText.readString]
          rfl
        rw [ends_silent hstep, hnone]
        exact iff_of_false (not_ends_escape (by simpa using hshort)) not_bodyEnds_none
      case neg =>
        have hfinished : unfinished [92, e] = false := by
          simp [unfinished, List.isPrefixOf, Ne.symm hletter, hletter]
        have hlast : step (inBody held [92] keys) [e]
            = (parseString [34, 92, e, 34]).map fun text =>
              (inBody (append held text).1 [] keys, (append held text).2) := by
          have hread := @readBody_escape (inBody held [92] keys) [e] (by simp [inBody])
          simp only [inBody, List.cons_append, List.nil_append, hfinished] at hread
          simpa [step, inBody] using hread
        have hstring : JsonText.readString (92 :: e :: rest)
            = (JsonText.shortEscape? e).bind fun u =>
              (JsonText.readString rest).map fun r => (u :: r.1, r.2) := by
          simp only [JsonText.readString]
        rw [hstring]
        cases hshort : JsonText.shortEscape? e with
        | none =>
            have herror : parseString [34, 92, e, 34] = .error "SyntaxError" := by
              simp [parseString_quote, JsonText.readString, hshort]
            rw [herror] at hlast
            exact iff_of_false (not_ends_error hlast) not_bodyEnds_none
        | some u =>
            have hread : parseString [34, 92, e, 34] = .ok [u] := by
              simp [parseString_quote, JsonText.readString, hshort, JsonText.skipSpace]
            rw [hread] at hlast
            exact ends_unit hlast ih
  | case5 u rest hquote hhex hshort hbad =>
      have hnone : JsonText.readString (u :: rest) = none := by
        simp [JsonText.readString, hbad]
      rw [hnone]
      refine iff_of_false ?_ not_bodyEnds_none
      by_cases hbackslash : u = 92
      case pos =>
        subst hbackslash
        have hrest : rest = [] := by
          cases rest with
          | nil => rfl
          | cons e rest => exact (hshort e rest rfl rfl).elim
        have hstep : step (inBody held [] keys) [92] = .ok (inBody held [92] keys, []) := rfl
        rw [ends_silent hstep, hrest, ends_nil]
        exact fun h => State.noConfusion h.2.1
      case neg =>
        have hlow : u < 32 := hbad.resolve_right hbackslash
        have herror : step (inBody held [] keys) [u] = .error "unescaped control" := by
          have h34 : u ≠ 34 := by omega
          simp [step, inBody, readBody, hbackslash, h34, hlow]
        exact not_ends_error herror
  | case6 u rest hquote hhex hshort hgood ih =>
      have hread : JsonText.readString (u :: rest)
          = (JsonText.readString rest).map fun r => (u :: r.1, r.2) := by
        simp only [JsonText.readString, hgood, if_false]
      have hplain : u ≠ 34 ∧ u ≠ 92 ∧ ¬u < 32 := ⟨hquote, by omega, by omega⟩
      have hstep : step (inBody held [] keys) [u]
          = .ok (inBody (append held [u]).1 [] keys, (append held [u]).2) := by
        simp [step, inBody, readBody, hplain]
      rw [hread]
      exact ends_unit hstep ih

/-! ## Keys -/

/-- States that collect the text of a string and watch for its end. -/
structure Scans (f : Units → Bool → Fields) : Prop where
  escaped : ∀ t u, step (f t true) [u] = .ok (f (t ++ [u]) false, [])
  backslash : ∀ t, step (f t false) [92] = .ok (f (t ++ [92]) true, [])
  plain : ∀ t u, u ≠ 34 → u ≠ 92 → step (f t false) [u] = .ok (f (t ++ [u]) false, [])

section Scan

variable {f : Units → Bool → Fields} {t inside s : Units}

theorem hexDigit_plain {u : Nat} (h : (JsonText.hexDigit? u).isSome) : u ≠ 34 ∧ u ≠ 92 := by
  constructor
  · rintro rfl
    simp [JsonText.hexDigit?] at h
  · rintro rfl
    simp [JsonText.hexDigit?] at h

theorem readHex_plain {a b c d : Nat} (h : JsonText.readHex a b c d = some u) :
    (a ≠ 34 ∧ a ≠ 92) ∧ (b ≠ 34 ∧ b ≠ 92) ∧ (c ≠ 34 ∧ c ≠ 92) ∧ (d ≠ 34 ∧ d ≠ 92) := by
  obtain ⟨a', ha, h⟩ := Option.bind_eq_some_iff.1 h
  obtain ⟨b', hb, h⟩ := Option.bind_eq_some_iff.1 h
  obtain ⟨c', hc, h⟩ := Option.bind_eq_some_iff.1 h
  obtain ⟨d', hd, -⟩ := Option.map_eq_some_iff.1 h
  exact ⟨hexDigit_plain (by simp [ha]), hexDigit_plain (by simp [hb]),
    hexDigit_plain (by simp [hc]), hexDigit_plain (by simp [hd])⟩

/-- The text of a string is collected to its end. -/
theorem ends_scan (hf : Scans f) (h : StringText inside s) :
    Ends (f t false) (inside ++ rest) shown ↔ Ends (f (t ++ inside) false) rest shown := by
  induction h generalizing t with
  | nil => simp
  | @hex a b c d u inside s hhex _ ih =>
      obtain ⟨⟨ha, ha'⟩, ⟨hb, hb'⟩, ⟨hc, hc'⟩, hd, hd'⟩ := readHex_plain hhex
      simp only [List.cons_append]
      rw [ends_silent (hf.backslash _), ends_silent (hf.escaped _ _),
        ends_silent (hf.plain _ _ ha ha'), ends_silent (hf.plain _ _ hb hb'),
        ends_silent (hf.plain _ _ hc hc'), ends_silent (hf.plain _ _ hd hd'), ih]
      simp
  | @short e u inside s _ _ ih =>
      simp only [List.cons_append]
      rw [ends_silent (hf.backslash _), ends_silent (hf.escaped _ _), ih]
      simp
  | @plain u inside s _ hquote hbackslash _ ih =>
      rw [List.cons_append, ends_silent (hf.plain _ _ hquote hbackslash), ih]
      simp

/-- Completion needs the closing quote. -/
theorem quote_of_ends (hf : Scans f) (hdone : ∀ t e, (f t e).state ≠ .done) {e : Bool}
    (h : Ends (f t e) text shown) :
    ∃ inside rest, text = inside ++ 34 :: rest
      ∧ Ends (f (t ++ inside) false) (34 :: rest) shown := by
  induction text generalizing t e with
  | nil => exact absurd (ends_nil.1 h).2.1 (hdone t e)
  | cons u text ih =>
      have hnext {e' : Bool} (hstep : step (f t e) [u] = .ok (f (t ++ [u]) e', [])) :
          ∃ inside rest, u :: text = inside ++ 34 :: rest
            ∧ Ends (f (t ++ inside) false) (34 :: rest) shown := by
        obtain ⟨inside, rest, rfl, hrest⟩ := ih ((ends_silent hstep).1 h)
        exact ⟨u :: inside, rest, rfl, by simpa using hrest⟩
      cases e with
      | true => exact hnext (hf.escaped t u)
      | false =>
          by_cases hbackslash : u = 92
          case pos => subst hbackslash; exact hnext (hf.backslash t)
          case neg =>
            by_cases hquote : u = 34
            case pos => subst hquote; exact ⟨[], text, rfl, by simpa using h⟩
            case neg => exact hnext (hf.plain t u hquote hbackslash)

end Scan

theorem parseString_iff {inside s : Units} :
    parseString (34 :: (inside ++ [34])) = .ok s ↔ StringText inside s := by
  rw [parseString_quote]
  constructor
  · intro h
    cases hread : JsonText.readString (inside ++ [34]) with
    | none => rw [hread] at h; cases h
    | some r =>
        obtain ⟨inside', htext, hinside⟩ := JsonText.text_of_readString hread
        simp only [hread] at h
        split at h
        case isFalse => cases h
        case isTrue hgap =>
          cases h
          have hnil : r.2 = [] := by
            rcases List.eq_nil_or_concat r.2 with hnil | ⟨gap, u, hconcat⟩
            · exact hnil
            · have hlast : u = 34 := by
                rw [hconcat, List.concat_eq_append, ← List.cons_append,
                  ← List.append_assoc] at htext
                exact (List.append_inj_right' htext rfl |> List.cons.inj).1.symm
              have hspace := JsonText.skipSpace_eq_nil_iff.1 hgap u (by simp [hconcat])
              rw [hlast] at hspace
              cases hspace
          rw [hnil] at htext
          rw [List.append_cancel_right htext]
          exact hinside
  · intro h
    rw [JsonText.readString_text h []]
    rfl

/-- A parser inside a key, after its opening quote. -/
def inKey (key : Units) (keys : List Units) (t : Units) (escaped : Bool) : Fields :=
  { state := .key, key, keys, token := 34 :: t, escaped }

theorem scans_inKey : Scans (inKey key keys) where
  escaped t u := by simp [step, inKey, readKey, Except.map]
  backslash t := by simp [step, inKey, readKey, Except.map]
  plain t u hquote hbackslash := by simp [step, inKey, readKey, Except.map, hquote, hbackslash]

theorem step_inKey_quote (t : Units) : step (inKey key keys t false) [34]
    = (parseString (34 :: (t ++ [34]))).bind fun key' =>
      if key' ∉ knownKeys ∨ key' ∈ keys then .error "unknown or repeated key"
      else .ok (between .colon key' (keys ++ [key']), []) := by
  have hread : step (inKey key keys t false) [34]
      = (readKey (inKey key keys t false) [34]).map (·, []) := rfl
  rw [hread]
  simp only [readKey, inKey, List.cons_append, reduceCtorEq, false_and, if_false]
  simp
  cases parseString (34 :: (t ++ [34])) with
  | error e => rfl
  | ok key' =>
      by_cases hbad : key' ∉ knownKeys ∨ key' ∈ keys
      case pos => simp [Except.bind, Except.map, bind, hbad]
      case neg => simp [Except.bind, Except.map, bind, hbad, between]

theorem ends_inKey_quote {t : Units} : Ends (inKey key keys t false) (34 :: rest) shown
    ↔ ∃ key', StringText t key' ∧ key' ∈ knownKeys ∧ key' ∉ keys
      ∧ Ends (between .colon key' (keys ++ [key'])) rest shown := by
  have hstep := @step_inKey_quote key keys t
  constructor
  · intro h
    cases hkey : parseString (34 :: (t ++ [34])) with
    | error e =>
        rw [hkey] at hstep
        exact absurd h (not_ends_error hstep)
    | ok key' =>
        rw [hkey] at hstep
        simp only [Except.bind] at hstep
        split at hstep
        case isTrue => exact absurd h (not_ends_error hstep)
        case isFalse hgood =>
          rw [not_or, not_not] at hgood
          exact ⟨key', parseString_iff.1 hkey, hgood.1, hgood.2, (ends_silent hstep).1 h⟩
  · rintro ⟨key', ht, hknown, hnew, hrest⟩
    rw [parseString_iff.2 ht] at hstep
    simp only [Except.bind, hknown, hnew, not_true_eq_false, or_self, if_false] at hstep
    exact (ends_silent hstep).2 hrest

theorem ends_key : Ends (between .key key keys) text shown
    ↔ ∃ gap inside rest key', text = gap ++ 34 :: (inside ++ 34 :: rest) ∧ Gap isWhiteSpace gap
      ∧ StringText inside key' ∧ key' ∈ knownKeys ∧ key' ∉ keys
      ∧ Ends (between .colon key' (keys ++ [key'])) rest shown := by
  have hwhite (u : Nat) (hu : isWhiteSpace u = true) :
      step (between .key key keys) [u] = .ok (between .key key keys, []) := by
    simp [step, between, readKey, hu, Except.map]
  have hopen : step (between .key key keys) [34] = .ok (inKey key keys [] false, []) := rfl
  have hother (u : Nat) (hu : isWhiteSpace u = false) (hne : u ≠ 34) :
      ∃ e, step (between .key key keys) [u] = .error e :=
    ⟨_, by simp [step, between, readKey, hu, hne, Except.map]; rfl⟩
  rw [ends_expected hwhite State.noConfusion rfl hopen hother]
  constructor
  · rintro ⟨gap, text', rfl, hgap, hrest⟩
    obtain ⟨inside, rest, rfl, hquote⟩ :=
      quote_of_ends scans_inKey (fun _ _ => State.noConfusion) hrest
    obtain ⟨key', hinside, hknown, hnew, hcolon⟩ := ends_inKey_quote.1 hquote
    exact ⟨gap, inside, rest, key', rfl, hgap, hinside, hknown, hnew, hcolon⟩
  · rintro ⟨gap, inside, rest, key', rfl, hgap, hinside, hknown, hnew, hcolon⟩
    refine ⟨gap, _, rfl, hgap, (ends_scan scans_inKey hinside).2 ?_⟩
    exact ends_inKey_quote.2 ⟨key', hinside, hknown, hnew, hcolon⟩

/-! ## Skipped values -/

/-- A parser inside a value that is not shown, or after it. -/
def skipping (key : Units) (keys : List Units) (token : Units) (quoted escaped : Bool)
    (depth : Int) : Fields :=
  { state := .skip, key, keys, token, quoted, escaped, depth }

/-- What a mark after a member leads to. -/
def Next (key : Units) (keys : List Units) (u : Nat) (rest shown : Units) : Prop :=
  u = 44 ∧ Ends (between .key key keys) rest shown
    ∨ u = 125 ∧ Ends (between .done key keys) rest shown

variable {token : Units} {depth : Int}

theorem step_skipping {quoted escaped : Bool}
    (h : quoted = true ∨ depth ≠ 0 ∨ (u ≠ 44 ∧ u ≠ 125)) :
    step (skipping key keys token quoted escaped depth) [u]
      = if (skipMarks (skipping key keys (token ++ [u]) quoted escaped depth) [u]).depth < 0
        then .error "invalid nesting"
        else .ok (skipMarks (skipping key keys (token ++ [u]) quoted escaped depth) [u], []) := by
  have hmark : ¬(¬quoted = true ∧ depth = 0 ∧ ([u] = [44] ∨ [u] = [125])) := by
    simp only [List.cons.injEq, and_true]
    rintro ⟨hquoted, hdepth, hu⟩
    rcases h with h | h | h
    · exact hquoted h
    · exact h hdepth
    · exact hu.elim h.1 h.2
  have hread : step (skipping key keys token quoted escaped depth) [u]
      = (readSkip (skipping key keys token quoted escaped depth) [u]).map (·, []) := rfl
  rw [hread, readSkip, if_neg (by exact hmark)]
  show Except.map _ (if (skipMarks (skipping key keys (token ++ [u]) quoted escaped depth)
    [u]).depth < 0 then _ else _) = _
  split <;> rfl

theorem ends_skipping_mark (hu : u = 44 ∨ u = 125) :
    Ends (skipping key keys token false false 0) (u :: rest) shown
      ↔ (parse token).isSome ∧ Next key keys u rest shown := by
  have hread : step (skipping key keys token false false 0) [u]
      = (readSkip (skipping key keys token false false 0) [u]).map (·, []) := rfl
  cases htoken : parse token with
  | none =>
      have herror : step (skipping key keys token false false 0) [u] = .error "SyntaxError" := by
        rw [hread]
        simp [readSkip, skipping, hu, htoken, Except.map]
      exact iff_of_false (not_ends_error herror) (by simp)
  | some v =>
      rcases hu with rfl | rfl
      · have hstep : step (skipping key keys token false false 0) [44]
            = .ok (between .key key keys, []) := by
          rw [hread]
          simp [readSkip, skipping, htoken, Except.map, between]
        rw [ends_silent hstep]
        simp [Next]
      · have hstep : step (skipping key keys token false false 0) [125]
            = .ok (between .done key keys, []) := by
          rw [hread]
          simp [readSkip, skipping, htoken, Except.map, between]
        rw [ends_silent hstep]
        simp [Next]

theorem skipMarks_eq (p : Fields) (char : Units) : skipMarks p char = { p with
    quoted := (skipMarks p char).quoted
    escaped := (skipMarks p char).escaped
    depth := (skipMarks p char).depth } := by
  simp only [skipMarks]
  split_ifs <;> rfl

theorem skipMarks_escaped (h : p.quoted = false → p.escaped = false) (char : Units)
    (hquoted : (skipMarks p char).quoted = false) : (skipMarks p char).escaped = false := by
  simp only [skipMarks] at hquoted ⊢
  grind

/-- Completion needs a mark after the value, and the value to be JSON. -/
theorem mark_of_ends {quoted escaped : Bool} (hescaped : quoted = false → escaped = false)
    (h : Ends (skipping key keys token quoted escaped depth) text shown) :
    ∃ inside u rest, text = inside ++ u :: rest ∧ (parse (token ++ inside)).isSome
      ∧ Next key keys u rest shown := by
  induction text generalizing token quoted escaped depth with
  | nil => exact State.noConfusion (ends_nil.1 h).2.1
  | cons u text ih =>
      by_cases hmark : quoted = false ∧ depth = 0 ∧ (u = 44 ∨ u = 125)
      case pos =>
        obtain ⟨rfl, rfl, hu⟩ := hmark
        rw [hescaped rfl] at h
        obtain ⟨htoken, hnext⟩ := (ends_skipping_mark hu).1 h
        exact ⟨[], u, text, rfl, by simpa using htoken, hnext⟩
      case neg =>
        have hinside : quoted = true ∨ depth ≠ 0 ∨ (u ≠ 44 ∧ u ≠ 125) := by
          cases quoted with
          | true => exact .inl rfl
          | false => exact .inr (by simp only [true_and] at hmark; omega)
        have hstep := @step_skipping u key keys token depth quoted escaped hinside
        split at hstep
        case isTrue => exact absurd h (not_ends_error hstep)
        case isFalse =>
          rw [skipMarks_eq] at hstep
          obtain ⟨inside, u', rest, rfl, hparse, hnext⟩ :=
            ih (skipMarks_escaped hescaped [u]) ((ends_silent hstep).1 h)
          exact ⟨u :: inside, u', rest, rfl, by simpa [skipping] using hparse, hnext⟩

/-- A text after which a skipped value is nested as before it. -/
def Passes (depth : Int) (text : Units) : Prop := ∀ key keys token rest shown,
  Ends (skipping key keys token false false depth) (text ++ rest) shown
    ↔ Ends (skipping key keys (token ++ text) false false depth) rest shown

theorem Passes.append {more : Units} (h : Passes depth text) (hmore : Passes depth more) :
    Passes depth (text ++ more) := by
  intro key keys token rest shown
  rw [List.append_assoc, h, hmore, List.append_assoc]

theorem step_marks {quoted escaped quoted' escaped' : Bool} {depth' : Int}
    (h : quoted = true ∨ depth ≠ 0 ∨ (u ≠ 44 ∧ u ≠ 125))
    (hmarks : skipMarks (skipping key keys (token ++ [u]) quoted escaped depth) [u]
      = skipping key keys (token ++ [u]) quoted' escaped' depth') (hdepth : 0 ≤ depth') :
    step (skipping key keys token quoted escaped depth) [u]
      = .ok (skipping key keys (token ++ [u]) quoted' escaped' depth', []) := by
  rw [step_skipping h, hmarks, if_neg (by simp only [skipping]; omega)]

theorem passes_plain (hdepth : 0 ≤ depth) (h : ∀ u ∈ text, u ∉ [34, 44, 91, 93, 123, 125]) :
    Passes depth text := by
  induction text with
  | nil => simp [Passes]
  | cons u text ih =>
      intro key keys token rest shown
      obtain ⟨hu, htext⟩ := List.forall_mem_cons.1 h
      simp only [List.mem_cons, List.not_mem_nil, or_false, not_or] at hu
      have hstep : step (skipping key keys token false false depth) [u]
          = .ok (skipping key keys (token ++ [u]) false false depth, []) :=
        step_marks (.inr (.inr ⟨hu.2.1, hu.2.2.2.2.2⟩)) (by simp [skipMarks, skipping, hu]) hdepth
      rw [List.cons_append, ends_silent hstep, ih htext]
      simp

theorem passes_gap {gap : Units} (hdepth : 0 ≤ depth) (h : Gap isSpace gap) :
    Passes depth gap := by
  refine passes_plain hdepth fun u hu hmark => ?_
  have hspace := h u hu
  simp only [List.mem_cons, List.not_mem_nil, or_false] at hmark
  rcases hmark with rfl | rfl | rfl | rfl | rfl | rfl <;> cases hspace

theorem passes_comma (hdepth : 1 ≤ depth) : Passes depth [44] := by
  intro key keys token rest shown
  exact ends_silent
    (step_marks (.inr (.inl (by omega))) (by simp [skipMarks, skipping]) (by omega))

theorem scans_skipping (hdepth : 0 ≤ depth) :
    Scans fun t escaped => skipping key keys t true escaped depth where
  escaped t u := step_marks (.inl rfl) (by simp [skipMarks, skipping]) hdepth
  backslash t := step_marks (.inl rfl) (by simp [skipMarks, skipping]) hdepth
  plain t u hquote hbackslash :=
    step_marks (.inl rfl) (by simp [skipMarks, skipping, hquote, hbackslash]) hdepth

theorem passes_string {inside s : Units} (hdepth : 0 ≤ depth) (h : StringText inside s) :
    Passes depth (34 :: (inside ++ [34])) := by
  intro key keys token rest shown
  have hopen : step (skipping key keys token false false depth) [34]
      = .ok (skipping key keys (token ++ [34]) true false depth, []) :=
    step_marks (.inr (.inr (by decide))) (by simp [skipMarks, skipping]) hdepth
  have hclose (t : Units) : step (skipping key keys t true false depth) [34]
      = .ok (skipping key keys (t ++ [34]) false false depth, []) :=
    step_marks (.inl rfl) (by simp [skipMarks, skipping]) hdepth
  have hscan : Ends (skipping key keys (token ++ [34]) true false depth)
      (inside ++ 34 :: rest) shown
      ↔ Ends (skipping key keys (token ++ [34] ++ inside) true false depth) (34 :: rest) shown :=
    ends_scan (scans_skipping hdepth) h
  simp only [List.cons_append, List.append_assoc, List.nil_append] at hscan ⊢
  rw [ends_silent hopen, hscan, ends_silent (hclose _)]
  simp

theorem passes_nested {opening closing : Nat} (hdepth : 0 ≤ depth)
    (hmarks : opening = 91 ∧ closing = 93 ∨ opening = 123 ∧ closing = 125)
    (h : Passes (depth + 1) text) : Passes depth (opening :: (text ++ [closing])) := by
  intro key keys token rest shown
  have hopen : step (skipping key keys token false false depth) [opening]
      = .ok (skipping key keys (token ++ [opening]) false false (depth + 1), []) := by
    refine step_marks (.inr (.inr (by omega))) ?_ (by omega)
    rcases hmarks with ⟨rfl, -⟩ | ⟨rfl, -⟩ <;> simp [skipMarks, skipping]
  have hclose (t : Units) : step (skipping key keys t false false (depth + 1)) [closing]
      = .ok (skipping key keys (t ++ [closing]) false false depth, []) := by
    refine step_marks (.inr (.inl (by omega))) ?_ hdepth
    rcases hmarks with ⟨-, rfl⟩ | ⟨-, rfl⟩ <;> simp [skipMarks, skipping]
  simp only [List.cons_append, List.append_assoc, List.nil_append]
  rw [ends_silent hopen, h, ends_silent (hclose _)]
  simp

/-- What is spelled leaves the nesting as it was: a value anywhere, what stands between brackets
    inside of some. -/
theorem passes_spells {part : JsonText.Part} (h : Spells text part) : match part with
    | .value _ => ∀ depth : Int, 0 ≤ depth → Passes depth text
    | _ => ∀ depth : Int, 1 ≤ depth → Passes depth text := by
  have hcolon {depth : Int} (hdepth : 0 ≤ depth) : Passes depth [58] :=
    passes_plain hdepth (by decide)
  induction h with
  | null | yes | no => exact fun depth hdepth => passes_plain hdepth (by decide)
  | num n =>
      refine fun depth hdepth => passes_plain hdepth fun u hu hmark => ?_
      have hplain := n.text_plain u hu
      simp only [List.mem_cons, List.not_mem_nil, or_false] at hmark
      omega
  | str h => exact fun depth hdepth => passes_string hdepth h
  | emptyArr h =>
      exact fun depth hdepth => passes_nested hdepth (.inl ⟨rfl, rfl⟩) (passes_gap (by omega) h)
  | arr h ih =>
      exact fun depth hdepth => passes_nested hdepth (.inl ⟨rfl, rfl⟩) (ih _ (by omega))
  | emptyObj h =>
      exact fun depth hdepth => passes_nested hdepth (.inr ⟨rfl, rfl⟩) (passes_gap (by omega) h)
  | obj h ih =>
      exact fun depth hdepth => passes_nested hdepth (.inr ⟨rfl, rfl⟩) (ih _ (by omega))
  | item hbefore h hafter ih =>
      intro depth hdepth
      have hroom : 0 ≤ depth := by omega
      exact (passes_gap hroom hbefore).append ((ih depth hroom).append (passes_gap hroom hafter))
  | itemCons hbefore h hafter hrest ih ihrest =>
      intro depth hdepth
      have hroom : 0 ≤ depth := by omega
      exact (passes_gap hroom hbefore).append ((ih depth hroom).append
        ((passes_gap hroom hafter).append ((passes_comma hdepth).append (ihrest depth hdepth))))
  | member hbefore hkey hbetween hstart h hafter ih =>
      intro depth hdepth
      have hroom : 0 ≤ depth := by omega
      have hpasses := (passes_gap hroom hbefore).append ((passes_string hroom hkey).append
        ((passes_gap hroom hbetween).append ((hcolon hroom).append ((passes_gap hroom hstart).append
          ((ih depth hroom).append (passes_gap hroom hafter))))))
      simpa using hpasses
  | memberCons hbefore hkey hbetween hstart h hafter hrest ih ihrest =>
      intro depth hdepth
      have hroom : 0 ≤ depth := by omega
      have hpasses := (passes_gap hroom hbefore).append ((passes_string hroom hkey).append
        ((passes_gap hroom hbetween).append ((hcolon hroom).append ((passes_gap hroom hstart).append
          ((ih depth hroom).append ((passes_gap hroom hafter).append
            ((passes_comma hdepth).append (ihrest depth hdepth))))))))
      simpa using hpasses

theorem white_of_space (h : isSpace u = true) : isWhiteSpace u = true := by
  simp only [isSpace, Bool.or_eq_true, beq_iff_eq] at h
  rcases h with ((rfl | rfl) | rfl) | rfl <;> rfl

theorem not_white_of_head (hlow : 32 < u) (hhigh : u < 125) : isWhiteSpace u = false := by
  simp [isWhiteSpace]
  omega

/-- A value that is not shown starts as if it were already being skipped. -/
theorem step_value (hkey : key ≠ bodyKey) (hlow : 32 < u) (hhigh : u < 125) (hcomma : u ≠ 44)
    (hclose : u ≠ 93) : step (between .value key keys) [u]
      = step (skipping key keys [] false false 0) [u] := by
  have hmarks := @step_skipping u key keys [] 0 false false (.inr (.inr ⟨hcomma, by omega⟩))
  have h125 : u ≠ 125 := by omega
  rw [hmarks]
  simp only [skipMarks, skipping, step, between, readMark, Except.map]
  by_cases hquote : u = 34
  case pos =>
    subst hquote
    simp [hkey, show isWhiteSpace 34 = false from rfl]
  case neg =>
    by_cases hopen : u = 123 ∨ u = 91
    case pos => simp [not_white_of_head hlow hhigh, hkey, hquote, hopen]
    case neg => simp [not_white_of_head hlow hhigh, hkey, hquote, hopen, hclose, h125]

theorem ends_congr (h : step p [u] = step q [u]) : Ends p (u :: text) shown
    ↔ Ends q (u :: text) shown := by
  rw [ends_cons, ends_cons, h]

theorem ends_value (hkey : key ≠ bodyKey) : Ends (between .value key keys) text shown
    ↔ ∃ gap used v after u rest, text = gap ++ (used ++ (after ++ u :: rest))
      ∧ Gap isWhiteSpace gap ∧ Spells used (.value v) ∧ Gap isSpace after
      ∧ Next key keys u rest shown := by
  rw [ends_mark (fun u => step_white (by simp [between])) State.noConfusion]
  constructor
  · rintro ⟨gap, u, text', rfl, hgap, hu, h⟩
    have hstep : step (between .value key keys) [u] = .ok (skipping key keys [u]
        (decide ([u] = [34])) false (if [u] = [123] ∨ [u] = [91] then 1 else 0), []) := by
      simp [step, between, readMark, skipping, hu, hkey, Except.map]
    obtain ⟨inside, u', rest, rfl, hparse, hnext⟩ :=
      mark_of_ends (fun _ => rfl) ((ends_silent hstep).1 h)
    obtain ⟨v, hv⟩ := Option.isSome_iff_exists.1 hparse
    obtain ⟨before, used, after, htoken, hbefore, hused, hafter⟩ := JsonText.parse_iff.1 hv
    have hnone : before = [] := by
      cases before with
      | nil => rfl
      | cons b before =>
          cases htoken
          have hwhite := white_of_space (hbefore u List.mem_cons_self)
          rw [hu] at hwhite
          cases hwhite
    subst hnone
    refine ⟨gap, used, v, after, u', rest, ?_, hgap, hused, hafter, hnext⟩
    rw [← List.append_assoc used, ← List.nil_append (used ++ after), ← htoken]
    rfl
  · rintro ⟨gap, used, v, after, u', rest, rfl, hgap, hused, hafter, hnext⟩
    obtain ⟨u, us, rfl, hlow, hhigh, hcomma, hclose⟩ := hused.head
    refine ⟨gap, u, _, rfl, hgap, not_white_of_head hlow hhigh, ?_⟩
    have hvalue : Passes 0 (u :: us) := passes_spells hused 0 le_rfl
    have hparse : parse (u :: us ++ after) = some v :=
      JsonText.parse_iff.2 ⟨[], u :: us, after, rfl, List.forall_mem_nil _, hused, hafter⟩
    have hskip := (hvalue.append (passes_gap le_rfl hafter)) key keys [] (u' :: rest) shown
    rw [List.append_assoc] at hskip
    refine (ends_congr (step_value hkey hlow hhigh hcomma hclose)).2 (hskip.2 ?_)
    refine (ends_skipping_mark (hnext.imp And.left And.left)).2 ⟨?_, hnext⟩
    rw [List.nil_append, hparse]
    rfl

/-! ## Candidates as they are written -/

/-- One member of a candidate, with some white space around its marks. The value of a member
    that is not shown stands as in JSON, with the white space after it. -/
inductive Member (space : Nat → Bool) : Units → Units × Value Number → Prop
  | body {before inside between start quoted body after : Units} (hbefore : Gap space before)
      (hkey : StringText inside bodyKey) (hbetween : Gap space between) (hstart : Gap space start)
      (hbody : StringText quoted body) (hafter : Gap space after) :
      Member space (before ++ 34 :: (inside ++ 34 :: (between ++ 58 ::
        (start ++ 34 :: (quoted ++ 34 :: after))))) (bodyKey, .str body)
  | skipped {before inside key between start used after : Units} {v : Value Number}
      (hbefore : Gap space before) (hkey : StringText inside key) (hne : key ≠ bodyKey)
      (hbetween : Gap space between) (hstart : Gap space start) (hvalue : Spells used (.value v))
      (hafter : Gap isSpace after) :
      Member space
        (before ++ 34 :: (inside ++ 34 :: (between ++ 58 :: (start ++ (used ++ after))))) (key, v)

inductive Members (space : Nat → Bool) : Units → List (Units × Value Number) → Prop
  | last {text : Units} {m : Units × Value Number} (h : Member space text m) :
      Members space text [m]
  | cons {text rest : Units} {m : Units × Value Number} {members : List (Units × Value Number)}
      (h : Member space text m) (hrest : Members space rest members) :
      Members space (text ++ 44 :: rest) (m :: members)

/-- A text that is written as an object of these members, with some white space. -/
def Written (space : Nat → Bool) (text : Units) (members : List (Units × Value Number)) : Prop :=
  ∃ before used after, text = before ++ 123 :: (used ++ 125 :: after) ∧ Gap space before
    ∧ Members space used members ∧ Gap space after

/-- A body that does not end in the first half of a pair. -/
def Whole (m : Units × Value Number) : Prop :=
  ∀ body, m = (bodyKey, .str body) → (append [] body).1 = []

/-- What a member shows. -/
def told : Units × Value Number → Units
  | (key, .str text) => if key = bodyKey then text else []
  | _ => []

variable {m : Units × Value Number} {members : List (Units × Value Number)}

theorem ends_body : Ends (between .value bodyKey keys) text shown
    ↔ ∃ gap quoted body after u rest more,
      text = gap ++ 34 :: (quoted ++ 34 :: (after ++ u :: rest))
      ∧ Gap isWhiteSpace gap ∧ StringText quoted body ∧ (append [] body).1 = []
      ∧ Gap isWhiteSpace after ∧ shown = body ++ more ∧ Next bodyKey keys u rest more := by
  have hshown {body : Units} (h : (append [] body).1 = []) : (append [] body).2 = body := by
    simpa [h] using append_all [] body
  rw [ends_body_quote]
  constructor
  · rintro ⟨gap, text', rfl, hgap, h⟩
    obtain ⟨body, tail, more, hread, hwhole, rfl, hrest⟩ := ends_inBody.1 h
    obtain ⟨quoted, rfl, hquoted⟩ := JsonText.text_of_readString hread
    obtain ⟨after, u, rest, rfl, hafter, hnext⟩ := ends_separator.1 hrest
    exact ⟨gap, quoted, body, after, u, rest, more, rfl, hgap, hquoted, hwhole, hafter,
      by rw [hshown hwhole], hnext⟩
  · rintro ⟨gap, quoted, body, after, u, rest, more, rfl, hgap, hquoted, hwhole, hafter, rfl,
      hnext⟩
    refine ⟨gap, _, rfl, hgap, ends_inBody.2 ?_⟩
    exact ⟨body, _, more, JsonText.readString_text hquoted _, hwhole, by rw [hshown hwhole],
      ends_separator.2 ⟨after, u, rest, rfl, hafter, hnext⟩⟩

theorem ends_member : Ends (between .key key keys) text shown
    ↔ ∃ used m u rest more, text = used ++ u :: rest ∧ Member isWhiteSpace used m
      ∧ m.1 ∈ knownKeys ∧ m.1 ∉ keys ∧ Whole m ∧ shown = told m ++ more
      ∧ Next m.1 (keys ++ [m.1]) u rest more := by
  rw [ends_key]
  constructor
  · rintro ⟨before, inside, text', key', rfl, hbefore, hinside, hknown, hnew, h⟩
    obtain ⟨between', text'', rfl, hbetween, h⟩ := ends_colon.1 h
    by_cases hkey : key' = bodyKey
    case pos =>
      subst hkey
      obtain ⟨start, quoted, body, after, u, rest, more, rfl, hstart, hquoted, hwhole, hafter, rfl,
        hnext⟩ := ends_body.1 h
      refine ⟨_, _, u, rest, more, ?_, .body hbefore hinside hbetween hstart hquoted hafter, hknown,
        hnew, ?_, ?_, hnext⟩
      · simp
      · rintro body' heq
        cases heq
        exact hwhole
      · simp [told]
    case neg =>
      obtain ⟨start, used, v, after, u, rest, rfl, hstart, hused, hafter, hnext⟩ :=
        (ends_value hkey).1 h
      refine ⟨_, _, u, rest, shown, ?_,
        .skipped hbefore hinside hkey hbetween hstart hused hafter, hknown, hnew, ?_, ?_, hnext⟩
      · simp
      · rintro body' heq
        exact absurd (congrArg Prod.fst heq) hkey
      · cases v <;> simp [told, hkey]
  · rintro ⟨used, m, u, rest, more, rfl, hmember, hknown, hnew, hwhole, rfl, hnext⟩
    cases hmember with
    | @body before inside between' start quoted body after hbefore hkey hbetween hstart hbody
        hafter =>
        refine ⟨before, inside, _, bodyKey, by simp; rfl, hbefore, hkey, hknown, hnew, ?_⟩
        refine ends_colon.2 ⟨between', _, rfl, hbetween, ends_body.2 ?_⟩
        exact ⟨start, quoted, body, after, u, rest, more, rfl, hstart, hbody, hwhole body rfl,
          hafter, by simp [told], hnext⟩
    | @skipped before inside key' between' start used after v hbefore hkey hne hbetween hstart
        hvalue hafter =>
        refine ⟨before, inside, _, key', by simp; rfl, hbefore, hkey, hknown, hnew, ?_⟩
        refine ends_colon.2 ⟨between', _, rfl, hbetween, (ends_value hne).2 ?_⟩
        refine ⟨start, used, v, after, u, rest, rfl, hstart, hvalue, hafter, ?_⟩
        have hnone : told (key', v) = [] := by cases v <;> simp [told, hne]
        rwa [hnone]

/-- The members a parser that has seen some keys can take. -/
structure Admits (keys : List Units) (members : List (Units × Value Number)) : Prop where
  known : ∀ m ∈ members, m.1 ∈ knownKeys
  fresh : ∀ m ∈ members, m.1 ∉ keys
  distinct : (members.map Prod.fst).Nodup
  whole : ∀ m ∈ members, Whole m

theorem admits_nil : Admits keys [] :=
  ⟨List.forall_mem_nil _, List.forall_mem_nil _, List.nodup_nil, List.forall_mem_nil _⟩

theorem admits_cons : Admits keys (m :: members) ↔ m.1 ∈ knownKeys ∧ m.1 ∉ keys ∧ Whole m
    ∧ Admits (keys ++ [m.1]) members := by
  constructor
  · rintro ⟨hknown, hfresh, hdistinct, hwhole⟩
    obtain ⟨hm, hmembers⟩ := List.forall_mem_cons.1 hknown
    obtain ⟨hm', hmembers'⟩ := List.forall_mem_cons.1 hfresh
    obtain ⟨hm'', hmembers''⟩ := List.forall_mem_cons.1 hwhole
    rw [List.map_cons, List.nodup_cons] at hdistinct
    refine ⟨hm, hm', hm'', hmembers, fun m' hmem hkeys => ?_, hdistinct.2, hmembers''⟩
    rcases List.mem_append.1 hkeys with hkeys | hkeys
    · exact hmembers' m' hmem hkeys
    · exact hdistinct.1 (List.mem_singleton.1 hkeys ▸ List.mem_map_of_mem hmem)
  · rintro ⟨hm, hm', hm'', hknown, hfresh, hdistinct, hwhole⟩
    refine ⟨List.forall_mem_cons.2 ⟨hm, hknown⟩, List.forall_mem_cons.2 ⟨hm', fun m' hmem hkeys =>
      hfresh m' hmem (List.mem_append_left _ hkeys)⟩, List.nodup_cons.2 ⟨fun hmem => ?_, hdistinct⟩,
      List.forall_mem_cons.2 ⟨hm'', hwhole⟩⟩
    obtain ⟨m', hmem, heq⟩ := List.mem_map.1 hmem
    exact hfresh m' hmem (List.mem_append_right _ (List.mem_singleton.2 heq))

/-- What is left to read of a candidate after a brace or a comma. -/
def Left (keys : List Units) (text shown : Units) : Prop :=
  ∃ used members after, text = used ++ 125 :: after ∧ Members isWhiteSpace used members
    ∧ Admits keys members ∧ Gap isWhiteSpace after ∧ bodyKey ∈ keys ++ members.map Prod.fst
    ∧ shown = members.flatMap told

theorem left_of_ends (h : Ends (between .key key keys) text shown) : Left keys text shown := by
  induction hlength : text.length using Nat.strongRecOn generalizing key keys text shown with
  | ind length ih =>
      subst hlength
      obtain ⟨used, m, u, rest, more, rfl, hmember, hknown, hnew, hwhole, rfl, hnext⟩ :=
        ends_member.1 h
      rcases hnext with ⟨rfl, hrest⟩ | ⟨rfl, hrest⟩
      case inl =>
        obtain ⟨used', members, after, rfl, hmembers, hadmits, hafter, hbody, rfl⟩ :=
          ih rest.length (by simp; omega) hrest rfl
        refine ⟨used ++ 44 :: used', m :: members, after, by simp, .cons hmember hmembers,
          admits_cons.2 ⟨hknown, hnew, hwhole, hadmits⟩, hafter, ?_, by simp⟩
        simpa using hbody
      case inr =>
        obtain ⟨hafter, rfl, hbody⟩ := ends_done.1 hrest
        exact ⟨used, [m], rest, rfl, .last hmember,
          admits_cons.2 ⟨hknown, hnew, hwhole, admits_nil⟩, hafter, by simpa using hbody, by simp⟩

theorem ends_of_members {used after : Units} (h : Members isWhiteSpace used members)
    (hadmits : Admits keys members) (hafter : Gap isWhiteSpace after)
    (hbody : bodyKey ∈ keys ++ members.map Prod.fst) :
    Ends (between .key key keys) (used ++ 125 :: after) (members.flatMap told) := by
  induction h generalizing key keys with
  | @last text m h =>
      obtain ⟨hknown, hnew, hwhole, -⟩ := admits_cons.1 hadmits
      refine ends_member.2 ⟨text, m, 125, after, [], rfl, h, hknown, hnew, hwhole, by simp,
        .inr ⟨rfl, ?_⟩⟩
      exact ends_done.2 ⟨hafter, rfl, by simpa using hbody⟩
  | @cons text rest m members h hrest ih =>
      obtain ⟨hknown, hnew, hwhole, hadmits⟩ := admits_cons.1 hadmits
      refine ends_member.2 ⟨text, m, 44, rest ++ 125 :: after, members.flatMap told, by simp, h,
        hknown, hnew, hwhole, by simp, .inl ⟨rfl, ?_⟩⟩
      exact ih hadmits (by simpa using hbody)

/-- The parser completes on the texts that are written as candidates with any white space. -/
theorem ends_iff : Ends {} text shown ↔ ∃ members, Written isWhiteSpace text members
    ∧ Admits [] members ∧ bodyKey ∈ members.map Prod.fst ∧ shown = members.flatMap told := by
  rw [ends_start]
  constructor
  · rintro ⟨before, rest, rfl, hbefore, h⟩
    obtain ⟨used, members, after, rfl, hmembers, hadmits, hafter, hbody, rfl⟩ := left_of_ends h
    exact ⟨members, ⟨before, used, after, rfl, hbefore, hmembers, hafter⟩, hadmits, hbody, rfl⟩
  · rintro ⟨members, ⟨before, used, after, rfl, hbefore, hmembers, hafter⟩, hadmits, hbody, rfl⟩
    exact ⟨before, _, rfl, hbefore, ends_of_members hmembers hadmits hafter hbody⟩

end CandidateBodyParser

end LingxiOS
