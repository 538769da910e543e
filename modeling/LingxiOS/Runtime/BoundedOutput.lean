-- SUMMARY: What a tool output is bounded to.
import LingxiOS.Base.TextCoding
import LingxiOS.Protocol.JsonLength
import LingxiOS.Protocol.LiveValue
import Mathlib.Data.Nat.Digits.Lemmas

/-! # Bounded Tool Outputs

A value whose text is too long is cut down to a preview of the text, with as many references
to the full values as leave room for it. The preview is a string of another text, where it
takes twice its characters and four more at most. -/

namespace LingxiOS.BoundedOutput

open JsonText (Units Value Number print parse)
open Stringify

/-! ## The source -/

structure ObservationRef where
  actionKey : Units
  sha256 : String
  characters : Nat
  deriving DecidableEq

/-- `JSON.stringify(value) ?? 'null'`. -/
def serialize (value : Live) : Units := value.stringify.getD (literal "null")

def text (v : Value Number) : Units := print jsStyle Number.text v

def refValue (ref : ObservationRef) : Value Number :=
  .obj [(literal "actionKey", .str ref.actionKey),
    (literal "sha256", .str (TextCoding.units ref.sha256.toList)),
    (literal "characters", .num (.ofInt ref.characters))]

def refsValue (references : List ObservationRef) : Value Number := .arr (references.map refValue)

/-- The loop over the references that are not yet taken. -/
def addReferences (maxChars : Nat) (references : List ObservationRef) :
    List ObservationRef → List ObservationRef
  | [] => references
  | ref :: rest =>
      if maxChars < (text (refsValue (references ++ [ref]))).length + 384 then references
      else addReferences maxChars (references ++ [ref]) rest

def metadata (originalCharacters : Nat) (references : List ObservationRef) (omitted : Nat) :
    List (Units × Value Number) :=
  [(literal "truncated", .bool true),
    (literal "originalCharacters", .num (.ofInt originalCharacters))]
  ++ (if references = [] then []
      else [(literal "observations", refsValue references),
        (literal "read", .str (literal "observations.read"))])
  ++ (if omitted = 0 then [] else [(literal "omittedReferences", .num (.ofInt omitted))])

def withPreview (members : List (Units × Value Number)) (preview : Units) : Value Number :=
  .obj (members ++ [(literal "preview", .str preview)])

def boundedToolOutput (value : Live) (maxChars : Nat) (observations : List ObservationRef) :
    Except String Units :=
  if maxChars < 128 ∨ 2 ^ 53 ≤ maxChars then
    .error "tool output budget must be at least 128 characters"
  else
    let serialized := serialize value
    if serialized.length ≤ maxChars then .ok serialized
    else
      let references := addReferences maxChars [] observations
      let members := metadata serialized.length references (observations.length - references.length)
      -- JSON escapes the preview again: room for its worst case and for a divided pair.
      let previewChars := (maxChars - (text (.obj members)).length - 80) / 2
      .ok (text (withPreview members (serialized.take previewChars)))

/-! ## What the language bounds -/

/-- A value whose text is a string, of fewer than 2⁵³ characters. -/
structure ToolValue where
  live : Live
  proper : live.Proper
  length_lt : (serialize live).length < 2 ^ 53

/-- An array of references, of fewer than 2³². -/
structure References where
  items : List ObservationRef
  units : ∀ ref ∈ items, ∀ u ∈ ref.actionKey, u < 0x10000
  length_lt : items.length < 2 ^ 32

variable {maxChars originalCharacters omitted : Nat} {references rest : List ObservationRef}

/-! ## References -/

theorem addReferences_spec (maxChars : Nat) (references rest : List ObservationRef) :
    ∃ taken, addReferences maxChars references rest = references ++ taken ∧ taken <+: rest
      ∧ (taken ≠ [] → (text (refsValue (references ++ taken))).length + 384 ≤ maxChars) := by
  induction rest generalizing references with
  | nil => exact ⟨[], by simp [addReferences], List.nil_prefix, by simp⟩
  | cons ref rest ih =>
      rw [addReferences]
      split
      case isTrue => exact ⟨[], by simp, List.nil_prefix, by simp⟩
      case isFalse hroom =>
        obtain ⟨taken, htaken, hprefix, hfits⟩ := ih (references ++ [ref])
        refine ⟨ref :: taken, by simpa using htaken, List.cons_prefix_cons.2 ⟨rfl, hprefix⟩,
          fun _ => ?_⟩
        cases taken with
        | nil => omega
        | cons next taken => simpa using hfits (by simp)

/-! ## Lengths -/

theorem length_number {n digits : Nat} (h : n < 10 ^ digits) (hdigits : 1 ≤ digits) :
    (text (.num (.ofInt n))).length ≤ digits := by
  have hlength := Number.length_ofInt (Int.natCast_nonneg n)
  rw [Int.natAbs_natCast] at hlength
  have hdecimal := (Nat.digits_length_le_iff (by decide : 1 < 10) n).2 h
  rw [text, print, hlength]
  omega

theorem length_words : (stringifyText (literal "truncated")).length = 9
    ∧ (stringifyText (literal "originalCharacters")).length = 18
    ∧ (stringifyText (literal "observations")).length = 12
    ∧ (stringifyText (literal "read")).length = 4
    ∧ (stringifyText (literal "observations.read")).length = 17
    ∧ (stringifyText (literal "omittedReferences")).length = 17
    ∧ (stringifyText (literal "preview")).length = 7 := by
  decide +kernel

/-- The metadata take 87 characters beside the references, and 43 more if there are some. -/
theorem length_metadata (hcharacters : originalCharacters < 2 ^ 53) (homitted : omitted < 2 ^ 32) :
    (text (.obj (metadata originalCharacters references omitted))).length
      ≤ 87 + if references = [] then 0 else 43 + (text (refsValue references)).length := by
  obtain ⟨htruncated, horiginal, hobservations, hread, hreader, homittedName, -⟩ := length_words
  have hcount := @length_number originalCharacters 16 (by omega) (by decide)
  have hrest := @length_number omitted 10 (by omega) (by decide)
  have htrue : (print jsStyle Number.text (.bool true)).length = 4 := by decide
  rw [text] at hcount hrest ⊢
  rw [text, length_obj, metadata]
  split_ifs <;>
    simp only [List.append_nil, List.cons_append, List.nil_append, List.map_cons, List.map_nil,
      List.sum_cons, List.sum_nil, List.length_cons, List.length_nil, length_str, htruncated,
      horiginal, hobservations, hread, hreader, homittedName, htrue] <;>
    omega

theorem length_withPreview {members : List (Units × Value Number)} (hne : members ≠ [])
    (preview : Units) : (text (withPreview members preview)).length
      = (text (.obj members)).length + 13 + (stringifyText preview).length := by
  obtain ⟨-, -, -, -, -, -, hpreview⟩ := length_words
  have hpositive := List.length_pos_iff.2 hne
  rw [text, text, withPreview, length_obj, length_obj, List.map_append, List.sum_append,
    List.length_append]
  simp only [List.map_cons, List.map_nil, List.sum_cons, List.sum_nil, List.length_cons,
    List.length_nil, length_str, hpreview]
  omega

theorem metadata_ne_nil : metadata originalCharacters references omitted ≠ [] := by
  simp [metadata]

/-! ## Reading -/

theorem refsValue_over (h : ∀ ref ∈ references, ∀ u ∈ ref.actionKey, u < 0x10000) :
    (refsValue references).Over (· < 0x10000) := by
  have hwords : (∀ u ∈ literal "actionKey", u < 0x10000) ∧ (∀ u ∈ literal "sha256", u < 0x10000)
      ∧ ∀ u ∈ literal "characters", u < 0x10000 := by decide +kernel
  refine overItems_iff.2 fun v hv => ?_
  obtain ⟨ref, href, rfl⟩ := List.mem_map.1 hv
  exact ⟨hwords.1, h ref href, hwords.2.1, TextCoding.units_lt _, hwords.2.2, trivial, trivial⟩

theorem withPreview_over (h : ∀ ref ∈ references, ∀ u ∈ ref.actionKey, u < 0x10000)
    {preview : Units} (hpreview : ∀ u ∈ preview, u < 0x10000) :
    (withPreview (metadata originalCharacters references omitted) preview).Over (· < 0x10000) := by
  have hwords : ∀ word ∈ ["truncated", "originalCharacters", "observations", "read",
      "observations.read", "omittedReferences", "preview"], ∀ u ∈ literal word, u < 0x10000 := by
    decide +kernel
  have hrefs := refsValue_over h
  refine overMembers_iff.2 fun m hm => ?_
  simp only [metadata, List.mem_append, List.mem_ite_nil_left, List.mem_cons, List.not_mem_nil,
    or_false] at hm
  rcases hm with (((rfl | rfl) | ⟨-, rfl | rfl⟩) | ⟨-, rfl⟩) | rfl
  · exact ⟨hwords _ (by simp), trivial⟩
  · exact ⟨hwords _ (by simp), trivial⟩
  · exact ⟨hwords _ (by simp), hrefs⟩
  · exact ⟨hwords _ (by simp), hwords _ (by simp)⟩
  · exact ⟨hwords _ (by simp), trivial⟩
  · exact ⟨hwords _ (by simp), hpreview⟩

/-- What is serialized is the text of some value. -/
theorem serialize_text (value : ToolValue) :
    ∃ v, serialize value.live = text v ∧ v.Over (· < 0x10000) := by
  rw [serialize, Live.stringify]
  cases hv : value.live.serialize with
  | none => exact ⟨.null, by decide +kernel, trivial⟩
  | some v => exact ⟨v, rfl, Live.serialize_over value.live value.proper v hv⟩

/-! ## The bound -/

/-- An output within its budget: the plain serialization where that fits, or else a preview of
    it with the first references and how many more there are. -/
structure Bounded (value : ToolValue) (maxChars : Nat) (observations : References)
    (output : Units) : Prop where
  fits : output.length ≤ maxChars
  valid : ∃ v, parse output = some v
  plain : output = serialize value.live ↔ (serialize value.live).length ≤ maxChars
  truncated : maxChars < (serialize value.live).length → ∃ references preview,
    references <+: observations.items ∧ preview <+: serialize value.live
      ∧ parse output = some (withPreview (metadata (serialize value.live).length references
        (observations.items.length - references.length)) preview)

/-- The metadata leave room for an empty preview. -/
theorem metadata_room (hlow : 128 ≤ maxChars) (hcharacters : originalCharacters < 2 ^ 53)
    (homitted : omitted < 2 ^ 32)
    (hroom : references ≠ [] → (text (refsValue references)).length + 384 ≤ maxChars) :
    (text (.obj (metadata originalCharacters references omitted))).length + 13 ≤ maxChars := by
  have hsize := @length_metadata _ _ references hcharacters homitted
  split at hsize
  case isTrue => omega
  case isFalse hreferences =>
    have hfits := hroom hreferences
    omega

/-- A preview stays within what the metadata leave. -/
theorem length_preview_le {members : List (Units × Value Number)} (hne : members ≠ [])
    (hroom : (text (.obj members)).length + 13 ≤ maxChars) (v : Value Number) :
    (text (withPreview members ((text v).take
      ((maxChars - (text (.obj members)).length - 80) / 2)))).length ≤ maxChars := by
  rw [length_withPreview hne]
  cases hn : (maxChars - (text (.obj members)).length - 80) / 2 with
  | zero =>
      rw [List.take_zero, stringifyText]
      exact hroom
  | succ n =>
      have hpreview : (stringifyText ((text v).take (n + 1))).length ≤ 2 * (n + 1) + 4 :=
        length_stringifyText_take v (n + 1)
      omega

theorem boundedToolOutput_bounded (value : ToolValue) {maxChars : Nat} (hlow : 128 ≤ maxChars)
    (hsafe : maxChars < 2 ^ 53) (observations : References) :
    ∃ output, boundedToolOutput value.live maxChars observations.items = .ok output
      ∧ Bounded value maxChars observations output := by
  obtain ⟨v, hv, hover⟩ := serialize_text value
  have hbudget : ¬(maxChars < 128 ∨ 2 ^ 53 ≤ maxChars) := by omega
  unfold boundedToolOutput
  rw [if_neg hbudget]
  dsimp only
  split
  case isTrue hfits =>
    refine ⟨_, rfl, hfits, ⟨v, ?_⟩, iff_of_true rfl hfits, fun hlong => absurd hfits (by omega)⟩
    rw [hv, text, parse_jsStyle hover]
  case isFalse hlong =>
    obtain ⟨references, hreferences, hfirst, hroom⟩ :=
      addReferences_spec maxChars [] observations.items
    rw [List.nil_append] at hreferences hroom
    have homitted : observations.items.length - references.length < 2 ^ 32 :=
      (Nat.sub_le _ _).trans_lt observations.length_lt
    have hlength := length_preview_le metadata_ne_nil
      (metadata_room hlow value.length_lt homitted hroom) v
    have hread (n : Nat) := parse_jsStyle (@withPreview_over (serialize value.live).length
      (observations.items.length - references.length) references
      (fun ref href => observations.units ref (hfirst.subset href)) ((text v).take n)
      fun u hu => print_units hover u (List.mem_of_mem_take hu))
    rw [← hv] at hlength hread
    rw [hreferences]
    refine ⟨_, rfl, hlength, ⟨_, hread _⟩, ?_, fun _ => ⟨references, _, hfirst, List.take_prefix _ _,
      hread _⟩⟩
    refine iff_of_false (fun hsame => ?_) hlong
    rw [hsame] at hlength
    exact hlong hlength

/-- A text that doubles where it is written, and doubles again in the preview. -/
private def quotesValue : ToolValue where
  live := .str (List.replicate 200 34)
  proper := fun u hu => by
    rw [List.eq_of_mem_replicate hu]
    decide
  length_lt := by decide +kernel

private def oneReference : References where
  items := [⟨literal "k", "ab", 402⟩]
  units := by decide +kernel
  length_lt := by decide

theorem boundedToolOutput_bounded_quotes : ∃ output,
    boundedToolOutput quotesValue.live 128 oneReference.items = .ok output ∧ output.length ≤ 128
      ∧ output ≠ serialize quotesValue.live := by
  obtain ⟨output, houtput, hbounded⟩ :=
    boundedToolOutput_bounded quotesValue (by decide : 128 ≤ 128) (by decide) oneReference
  have hlong : ¬(serialize quotesValue.live).length ≤ 128 := by decide +kernel
  exact ⟨output, houtput, hbounded.fits, fun hsame => hlong (hbounded.plain.1 hsame)⟩

end LingxiOS.BoundedOutput
