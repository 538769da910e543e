-- SUMMARY: A bounded summary fits its bound, and reads as a shortening of the given one.
import LingxiOS.Base.JsonGrammar
import LingxiOS.Compaction.Model
import LingxiOS.Protocol.JsonLength

/-! # Bounded Summaries

Each of the four fields keeps as many characters as fit at their worst, six for one, beside
256 for everything else. What is written besides takes 174. -/

namespace LingxiOS.Compaction

open JsonText Stringify

variable {raw combined : Units} {maxChars limit : Nat} {fields : List (String × Units)}

/-- A summary with some texts in its fields and some of them said to be truncated. -/
def summaryValue (kept : String → Units) (truncated : List String) : Value Number :=
  .obj [(literal "version", .num (.ofInt 1)),
    (literal "fields", .obj (summaryFields.map fun field => (literal field, .str (kept field)))),
    (literal "truncated", .arr (truncated.map fun field => .str (literal field)))]

/-! ## Lengths -/

theorem length_words : (∀ name ∈ summaryFields, (stringifyText (literal name)).length = name.length)
    ∧ (stringifyText (literal "version")).length = 7 ∧ (stringifyText (literal "fields")).length = 6
    ∧ (stringifyText (literal "truncated")).length = 9
    ∧ (print jsStyle Number.text (.num (.ofInt 1))).length = 1 := by
  decide +kernel

theorem length_fields {kept : String → Units} (hkept : ∀ field, (kept field).length ≤ limit) :
    (print jsStyle Number.text (.obj (summaryFields.map fun field =>
      (literal field, .str (kept field))))).length ≤ 75 + 24 * limit := by
  have hmember : ∀ field ∈ summaryFields, 3 + (stringifyText (literal field)).length
      + (print jsStyle Number.text (.str (kept field))).length
      ≤ 5 + field.length + 6 * limit := by
    intro field hfield
    have htext := length_stringifyText_le (kept field)
    have hlimit := hkept field
    rw [length_str, length_words.1 field hfield]
    omega
  have hsum := List.sum_le_sum hmember
  have hframe : (summaryFields.map fun field => 5 + field.length + 6 * limit).sum
      = 70 + 24 * limit := by
    have hnames : "observedResults".length = 15 ∧ "decisions".length = 9
        ∧ "remainingWork".length = 13 ∧ "uncertainties".length = 13 := by decide
    simp only [summaryFields, List.map_cons, List.map_nil, List.sum_cons, List.sum_nil, hnames]
    omega
  have hcount : summaryFields.length = 4 := rfl
  rw [length_obj, List.map_map, List.length_map, hcount]
  simp only [Function.comp_def]
  omega

theorem length_names {names : List String} (h : names.Sublist summaryFields) :
    (print jsStyle Number.text (.arr (names.map fun name => .str (literal name)))).length ≤ 63 := by
  have hname : ∀ name ∈ names, (print jsStyle Number.text (.str (literal name))).length
      = 2 + name.length := by
    intro name hname
    rw [length_str, length_words.1 name (h.subset hname)]
  have hsum : (names.map fun name => 2 + name.length).sum ≤ 58 :=
    (h.map fun name => 2 + name.length).sum_le_sum fun _ _ => Nat.zero_le _
  have hcount : names.length ≤ 4 := h.length_le
  rw [length_arr, List.map_map, List.length_map, Function.comp_def, List.map_congr_left hname]
  omega

/-- What is written beside the texts of the fields takes 174 characters at most. -/
theorem length_summaryValue {kept : String → Units} {truncated : List String}
    (hkept : ∀ field, (kept field).length ≤ limit) (htruncated : truncated.Sublist summaryFields) :
    (stringify (summaryValue kept truncated)).length ≤ 174 + 24 * limit := by
  obtain ⟨-, hversion, hfields, hlist, hone⟩ := length_words
  have hnames := length_names htruncated
  have htexts := length_fields hkept
  rw [stringify, summaryValue, length_obj]
  simp only [List.map_cons, List.map_nil, List.sum_cons, List.sum_nil, List.length_cons,
    List.length_nil, hversion, hfields, hlist, hone]
  omega

/-! ## The texts kept -/

/-- The text of a field of what the raw text is read as. -/
def givenText (members : List (Units × Value Number)) (field : String) : Units :=
  (memberString? members field).getD []

theorem structuredSummary_eq_ok (h : structuredSummary raw = .ok fields) :
    ∃ members, parse raw = some (.obj members)
      ∧ (∀ field ∈ summaryFields, memberString? members field = some (givenText members field))
      ∧ fields = summaryFields.map fun field => (field, givenText members field) := by
  unfold structuredSummary at h
  split at h
  case h_1 => cases h
  case h_3 => cases h
  case h_2 members hparse =>
    split at h
    case isTrue => cases h
    case isFalse hchecked =>
      cases h
      refine ⟨members, hparse, fun field hfield => ?_, rfl⟩
      rw [not_or, Bool.not_eq_true, List.any_eq_false] at hchecked
      have hfound : memberString? members field ≠ none := by simpa using hchecked.2 field hfield
      obtain ⟨text, htext⟩ := Option.ne_none_iff_exists'.1 hfound
      rw [givenText, htext, Option.getD_some]

theorem boundSummary_eq_ok (h : boundSummary raw maxChars = .ok combined) :
    320 ≤ maxChars ∧ ∃ members, parse raw = some (.obj members)
      ∧ (∀ field ∈ summaryFields, memberString? members field = some (givenText members field))
      ∧ combined = stringify (summaryValue
          (fun field => (givenText members field).take ((maxChars - 256) / 24))
          (summaryFields.filter fun field => (maxChars - 256) / 24 < (givenText members field).length))
    := by
  unfold boundSummary at h
  split at h
  case h_1 => cases h
  case h_2 fields hfields =>
    split at h
    case isTrue => cases h
    case isFalse hroom =>
      obtain ⟨members, hparse, hgiven, rfl⟩ := structuredSummary_eq_ok hfields
      refine ⟨Nat.le_of_not_lt hroom, members, hparse, hgiven, ?_⟩
      cases h
      simp only [summaryValue, List.map_map, List.filter_map, Function.comp_def]
      rfl

theorem literal_over_bmp : (∀ name ∈ summaryFields, ∀ u ∈ literal name, u < 0x10000)
    ∧ (∀ u ∈ literal "version", u < 0x10000) ∧ (∀ u ∈ literal "fields", u < 0x10000)
    ∧ ∀ u ∈ literal "truncated", u < 0x10000 := by
  decide +kernel

theorem summaryValue_over {kept : String → Units} {truncated : List String}
    (hkept : ∀ field ∈ summaryFields, ∀ u ∈ kept field, u < 0x10000)
    (htruncated : truncated.Sublist summaryFields) :
    (summaryValue kept truncated).Over (· < 0x10000) := by
  obtain ⟨hnames, hversion, hfields, hlist⟩ := literal_over_bmp
  refine ⟨hversion, trivial, hfields, overMembers_iff.2 ?_, hlist, overItems_iff.2 ?_, trivial⟩
  · intro m hm
    obtain ⟨field, hfield, rfl⟩ := List.mem_map.1 hm
    exact ⟨hnames field hfield, hkept field hfield⟩
  · intro v hv
    obtain ⟨field, hfield, rfl⟩ := List.mem_map.1 hv
    exact hnames field (htruncated.subset hfield)

/-- The strings of a text of 16-bit units are of such units. -/
theorem givenText_over (raw : JsString) {members : List (Units × Value Number)}
    (hparse : parse raw.val = some (.obj members)) (field : String) :
    ∀ u ∈ givenText members field, u < 0x10000 := by
  have hover := overMembers_iff.1 (parse_over hparse raw.2)
  unfold givenText memberString?
  split
  case h_1 text hlookup =>
    obtain ⟨before, after, hmembers, -⟩ := List.lookup_eq_some_iff.1 hlookup
    have hmem : (literal field, .str text) ∈ members.reverse := by simp [hmembers]
    exact (hover _ (List.mem_reverse.1 hmem)).2
  case h_2 => simp

/-! ## The bound -/

/-- A bounded summary has no more characters than it may have, and reads as one with the four
    fields, each cut off somewhere; the shortened fields are those it names. -/
theorem boundSummary_fits (raw : JsString) {maxChars : Nat} {combined : Units}
    (h : boundSummary raw.val maxChars = .ok combined) :
    combined.length ≤ maxChars ∧ ∃ members, parse raw.val = some (.obj members)
      ∧ ∃ kept : String → Units,
        parse combined = some (summaryValue kept
          (summaryFields.filter fun field => kept field ≠ givenText members field))
        ∧ ∀ field ∈ summaryFields, memberString? members field = some (givenText members field)
          ∧ kept field <+: givenText members field := by
  obtain ⟨hroom, members, hparse, hgiven, rfl⟩ := boundSummary_eq_ok h
  have htruncated := @List.filter_sublist String
    (fun field => (maxChars - 256) / 24 < (givenText members field).length) summaryFields
  constructor
  · have hlength := length_summaryValue
      (fun field => List.length_take_le ((maxChars - 256) / 24) (givenText members field)) htruncated
    omega
  · refine ⟨members, hparse, fun field => (givenText members field).take ((maxChars - 256) / 24),
      ?_, fun field hfield => ⟨hgiven field hfield, List.take_prefix _ _⟩⟩
    have hkept : ∀ field ∈ summaryFields,
        ∀ u ∈ (givenText members field).take ((maxChars - 256) / 24), u < 0x10000 :=
      fun field _ u hu => givenText_over raw hparse field u (List.mem_of_mem_take hu)
    have hover := summaryValue_over hkept htruncated
    have hread := parse_jsStyle hover
    have hnamed : (summaryFields.filter fun field =>
        (givenText members field).take ((maxChars - 256) / 24) ≠ givenText members field)
        = summaryFields.filter fun field =>
          (maxChars - 256) / 24 < (givenText members field).length := by
      refine List.filter_congr fun field _ => ?_
      rw [decide_eq_decide, ne_eq, List.take_eq_self_iff, Nat.not_le]
    rw [hnamed]
    exact hread

/-- A pair that is divided and a field that is shortened. -/
private def emojiSummary : Units := literal
  ("\x7b\"observedResults\":\"a\\ud83d\\ude00b\",\"decisions\":\"\\u0001\\n\","
    ++ "\"remainingWork\":\"\",\"uncertainties\":\"none\"\x7d")

private theorem emojiSummary_accepted : (∀ u ∈ emojiSummary, u < 0x10000)
    ∧ (boundSummary emojiSummary 320).toOption.isSome = true := by
  decide +kernel

theorem boundSummary_fits_emoji : ∃ combined, boundSummary emojiSummary 320 = .ok combined
    ∧ combined.length ≤ 320 := by
  obtain ⟨hunits, haccepted⟩ := emojiSummary_accepted
  cases hbound : boundSummary emojiSummary 320 with
  | error e => simp [hbound, Except.toOption] at haccepted
  | ok combined => exact ⟨combined, rfl, (boundSummary_fits ⟨emojiSummary, hunits⟩ hbound).1⟩

end LingxiOS.Compaction
