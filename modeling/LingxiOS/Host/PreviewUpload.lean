-- SUMMARY: The preview upload, however its bytes are cut.
import LingxiOS.Base.Double
import LingxiOS.Base.TextCoding
import LingxiOS.Protocol.JsonLength
import LingxiOS.Runtime.Preview
import Mathlib.Algebra.Order.BigOperators.Group.List

/-! # Preview Upload

A translation of `preview-stream.ts` and of `isPreviewFrame` on any value. A frame is an
object with the fields of a preview frame, and perhaps others, in some order. The reader
decodes chunk by chunk and keeps the line that is not complete yet. -/

namespace LingxiOS

namespace PreviewUpload

open JsonText TextCoding

/-! ## Frames -/

section

variable {ν : Type}

/-- A property of an object; of two with the same name the later one counts. -/
def get (members : List (Units × Value ν)) (key : Units) : Option (Value ν) :=
  (members.reverse.find? fun m => m.1 == key).map Prod.snd

/-- A safe integer above zero, where the numbers that are integers are known. -/
def positive (integer : ν → Option ℤ) : Option (Value ν) → Bool
  | some (.num n) => (integer n).any fun n : ℤ => 0 < n && n ≤ Preview.maxSafeInteger
  | _ => false

def text? : Option (Value ν) → Option Units
  | some (.str s) => some s
  | _ => none

/-- `isPreviewFrame`. -/
def isPreviewFrame (integer : ν → Option ℤ) : Value ν → Bool
  | .obj members =>
      positive integer (get members (Stringify.literal "requestVersion"))
        && positive integer (get members (Stringify.literal "seq"))
        && ((text? (get members (Stringify.literal "attemptId"))).any fun id =>
          0 < id.length && id.length ≤ 256)
        && ((text? (get members (Stringify.literal "text"))).any fun text =>
          text.length ≤ 16384
            && (text? (get members (Stringify.literal "kind")) == some (Stringify.literal "delta")
              || text? (get members (Stringify.literal "kind")) == some (Stringify.literal "reset")
                && text == []))
  | _ => false

end

def frameKeys : List Units :=
  [Stringify.literal "requestVersion", Stringify.literal "attemptId", Stringify.literal "seq",
    Stringify.literal "kind", Stringify.literal "text"]

/-- A literal that JavaScript writes: a safe integer is written by its digits. -/
def AsWritten (n : Number) : Prop :=
  ∀ k, (Double.ofLiteral n).integer? = some k → |k| < 2 ^ 53 → n = Number.ofInt k

/-- A frame that `isPreviewFrame` accepts. Its numbers are the literals that are written for
    them, and its other fields, if it has any, hold JSON. -/
structure PreviewFrame where
  members : List (Units × Value Number)
  distinct : (members.map Prod.fst).Nodup
  units : Value.OverMembers (· < 0x10000) members
  numbers : Value.NumbersMembers AsWritten members
  accepted : isPreviewFrame (fun n => (Double.ofLiteral n).integer?) (.obj members) = true

namespace PreviewFrame

def value (frame : PreviewFrame) : Value Number := .obj frame.members

/-- `JSON.stringify(frame)`. -/
def text (frame : PreviewFrame) : Units := print Stringify.jsStyle Number.text frame.value

/-- The line that is sent for a frame. -/
def line (frame : PreviewFrame) : Units := frame.text ++ [10]

/-- The frame as an object of numbers, as the reader yields it. -/
def read (frame : PreviewFrame) : Value Double := frame.value.mapNumbers Double.ofLiteral

/-- The frame has the fields of a preview frame only. -/
def Plain (frame : PreviewFrame) : Prop := (frame.members.map Prod.fst).Perm frameKeys

end PreviewFrame

/-- The bytes of `previewRequestBody`. -/
def previewRequestBody (frames : List PreviewFrame) : List UInt8 :=
  frames.flatMap fun frame => encode frame.line

/-! ## The reader -/

inductive Failure where
  /-- The signal was aborted. -/
  | aborted
  /-- The bytes are no UTF-8. -/
  | encoding
  /-- A line is no JSON. -/
  | malformed
  | error (message : String)
  deriving DecidableEq

def maxBytes : Nat := 16777216

def maxLine : Nat := 128000

/-- The text up to the first line feed, and what follows it. -/
def takeLine : Units → Option (Units × Units)
  | [] => none
  | u :: rest =>
      if u = 10 then some ([], rest) else (takeLine rest).map fun found => (u :: found.1, found.2)

theorem takeLine_eq_some {text line rest : Units} (h : takeLine text = some (line, rest)) :
    text = line ++ 10 :: rest ∧ 10 ∉ line := by
  induction text generalizing line with
  | nil => cases h
  | cons u text ih =>
      rw [takeLine] at h
      split at h
      case isTrue hu =>
        obtain ⟨rfl, rfl⟩ := Prod.mk.inj (Option.some.inj h)
        exact ⟨by rw [hu]; rfl, nofun⟩
      case isFalse hu =>
        obtain ⟨⟨found, left⟩, hfound, heq⟩ := Option.map_eq_some_iff.1 h
        obtain ⟨rfl, rfl⟩ := Prod.mk.inj heq
        obtain ⟨rfl, hnone⟩ := ih hfound
        exact ⟨rfl, fun hmem => (List.mem_cons.1 hmem).elim (fun hten => hu hten.symm) hnone⟩

/-- The loop over the lines that are complete: the frames it yields, and what it throws or
    what is left. -/
def takeFrames (pending : Units) : List (Value Double) × Except Failure Units :=
  match _h : takeLine pending with
  | none => ([], .ok pending)
  | some (line, rest) =>
      if maxLine < line.length then ([], .error (.error "preview frame is too large"))
      else
        match parse line with
        | none => ([], .error .malformed)
        | some value =>
            let frame := value.mapNumbers Double.ofLiteral
            if isPreviewFrame Double.integer? frame then
              let (frames, after) := takeFrames rest
              (frame :: frames, after)
            else ([], .error (.error "invalid preview frame"))
termination_by pending.length
decreasing_by
  rw [(takeLine_eq_some _h).1, List.length_append, List.length_cons]
  omega

/-- `readPreviewFrames` from some chunk on: the frames it yields, and what it throws. -/
def readFrom (signal : Nat → Bool) (decoder : TextDecoder) (pending : Units) (size index : Nat) :
    List (List UInt8) → List (Value Double) × Option Failure
  | [] =>
      match fatal decoder.finish with
      | none => ([], some .encoding)
      | some tail =>
          if Stringify.isBlank (pending ++ tail) then ([], none)
          else ([], some (.error "incomplete preview frame"))
  | chunk :: chunks =>
      if signal index then ([], some .aborted)
      else if maxBytes < size + chunk.length then
        ([], some (.error "preview stream exceeds its byte budget"))
      else
        match fatal (decoder.decode chunk).2 with
        | none => ([], some .encoding)
        | some text =>
            match takeFrames (pending ++ text) with
            | (frames, .error failure) => (frames, some failure)
            | (frames, .ok left) =>
                if maxLine < left.length then (frames, some (.error "preview frame is too large"))
                else
                  let (more, failure) := readFrom signal (decoder.decode chunk).1 left
                    (size + chunk.length) (index + 1) chunks
                  (frames ++ more, failure)

def readPreviewFrames (signal : Nat → Bool) (chunks : List (List UInt8)) :
    List (Value Double) × Option Failure :=
  readFrom signal {} [] 0 0 chunks

/-! ## The fields of a frame -/

section

variable {ν μ : Type} {members : List (Units × Value ν)} {key : Units} {v : Value ν}

theorem get_mapMembers (f : ν → μ) (members : List (Units × Value ν)) (key : Units) :
    get (Value.mapMembers f members) key = (get members key).map (Value.mapNumbers f) := by
  rw [get, Value.mapMembers_eq, ← List.map_reverse, List.find?_map, get, Option.map_map,
    Option.map_map]
  rfl

theorem text?_map (f : ν → μ) (field : Option (Value ν)) :
    text? (field.map (Value.mapNumbers f)) = text? field := by
  rcases field with _ | v
  · rfl
  · cases v <;> rfl

theorem positive_map {integer : ν → Option ℤ} {integer' : μ → Option ℤ} {f : ν → μ}
    (h : ∀ n, integer' (f n) = integer n) (field : Option (Value ν)) :
    positive integer' (field.map (Value.mapNumbers f)) = positive integer field := by
  rcases field with _ | v
  · rfl
  · cases v with
    | num n => simp only [Option.map_some, Value.mapNumbers, positive, h]
    | _ => rfl

/-- Whether a value is a frame depends on its integers only. -/
theorem isPreviewFrame_map {integer : ν → Option ℤ} {integer' : μ → Option ℤ} {f : ν → μ}
    (h : ∀ n, integer' (f n) = integer n) (v : Value ν) :
    isPreviewFrame integer' (v.mapNumbers f) = isPreviewFrame integer v := by
  cases v with
  | obj members => simp only [Value.mapNumbers, isPreviewFrame, get_mapMembers, text?_map, positive_map h]
  | _ => rfl

theorem get_of_mem (hkeys : (members.map Prod.fst).Nodup) (hmem : (key, v) ∈ members) :
    get members key = some v := by
  rw [get]
  cases hfind : members.reverse.find? fun m => m.1 == key with
  | none =>
      have hnone := List.find?_eq_none.1 hfind (key, v) (List.mem_reverse.2 hmem)
      simp at hnone
  | some found =>
      have hfound : found.1 = key := by simpa using List.find?_some hfind
      have hsame := List.inj_on_of_nodup_map hkeys (List.mem_reverse.1 (List.mem_of_find?_eq_some hfind))
        hmem hfound
      rw [hsame]
      rfl

theorem text?_eq_some {field : Option (Value ν)} {s : Units} (h : text? field = some s) :
    field = some (.str s) := by
  rcases field with _ | v
  · cases h
  · cases v with
    | str t => rw [Option.some.inj h]
    | _ => cases h

theorem positive_eq_true {integer : ν → Option ℤ} {field : Option (Value ν)}
    (h : positive integer field = true) :
    ∃ n k, field = some (.num n) ∧ integer n = some k ∧ 0 < k ∧ k ≤ Preview.maxSafeInteger := by
  rcases field with _ | v
  · cases h
  · cases v with
    | num n =>
        simp only [positive, Option.any_eq_true, Bool.and_eq_true, decide_eq_true_eq] at h
        obtain ⟨k, hk, hpos, hsafe⟩ := h
        exact ⟨n, k, rfl, hk, hpos, hsafe⟩
    | _ => cases h

end

/-- How many units the value of a field takes at most. -/
def cost (key : Units) : Nat :=
  if key = Stringify.literal "text" then 98306
  else if key = Stringify.literal "attemptId" then 1538
  else if key = Stringify.literal "kind" then 32 else 16

/-! ## The line of a frame -/

section

variable (frame : PreviewFrame)

theorem numbersMembers_iff {ν : Type} {q : ν → Prop} {members : List (Units × Value ν)} :
    Value.NumbersMembers q members ↔ ∀ m ∈ members, m.2.Numbers q := by
  induction members with
  | nil => simp [Value.NumbersMembers]
  | cons m members ih => simp [Value.NumbersMembers, ih]

theorem length_ofInt {n : ℤ} (hpos : 0 < n) (hsafe : n ≤ Preview.maxSafeInteger) :
    (Number.ofInt n).text.length ≤ 16 := by
  have hdigits : (Nat.digits 10 n.natAbs).length ≤ 16 := by
    rw [Nat.digits_length_le_iff (by decide)]
    have hmax : Preview.maxSafeInteger < 10 ^ 16 := by decide
    omega
  rw [Number.length_ofInt (by omega)]
  omega

theorem length_str_le (s : Units) :
    (print Stringify.jsStyle Number.text (.str s)).length ≤ 6 * s.length + 2 := by
  have hlength := Stringify.length_stringifyText_le s
  rw [Stringify.length_str]
  omega

/-- A value of a plain frame is a safe integer or a string that is not too long. -/
theorem PreviewFrame.Plain.cost (h : frame.Plain) {key : Units} {v : Value Number}
    (hmem : (key, v) ∈ frame.members) :
    (print Stringify.jsStyle Number.text v).length ≤ cost key := by
  have hget := get_of_mem frame.distinct hmem
  have hkey : key ∈ frameKeys := h.subset (List.mem_map_of_mem hmem)
  have haccepted := frame.accepted
  simp only [isPreviewFrame, Bool.and_eq_true, Bool.or_eq_true, Option.any_eq_true,
    decide_eq_true_eq, beq_iff_eq] at haccepted
  obtain ⟨⟨⟨hversion, hseq⟩, id, hid, -, hlong⟩, text, htext, hlength, hkind⟩ := haccepted
  have hnumber (hv : positive (fun n => (Double.ofLiteral n).integer?) (some v) = true) :
      (print Stringify.jsStyle Number.text v).length ≤ 16 := by
    obtain ⟨n, k, hn, hk, hpos, hsafe⟩ := positive_eq_true hv
    obtain rfl := Option.some.inj hn
    have hwritten : AsWritten n := numbersMembers_iff.1 frame.numbers _ hmem
    have hmax : (Preview.maxSafeInteger : ℤ) < 2 ^ 53 := by decide
    rw [hwritten k hk (by rw [abs_of_pos hpos]; omega)]
    exact length_ofInt hpos hsafe
  have hstring {s : Units} (hs : get frame.members key = some (.str s)) {bound : Nat}
      (hbound : 6 * s.length + 2 ≤ bound) :
      (print Stringify.jsStyle Number.text v).length ≤ bound := by
    obtain rfl := Option.some.inj (hget.symm.trans hs)
    exact (length_str_le s).trans hbound
  simp only [frameKeys, List.mem_cons, List.not_mem_nil, or_false] at hkey
  rcases hkey with rfl | rfl | rfl | rfl | rfl
  · exact hnumber (hget ▸ hversion)
  · have hcost : PreviewUpload.cost (Stringify.literal "attemptId") = 1538 := by decide
    exact hstring (text?_eq_some hid) (by omega)
  · exact hnumber (hget ▸ hseq)
  · have hcost : PreviewUpload.cost (Stringify.literal "kind") = 32 := by decide
    rcases hkind with hkind | ⟨hkind, -⟩ <;>
      exact hstring (text?_eq_some hkind) (by rw [hcost]; decide)
  · have hcost : PreviewUpload.cost (Stringify.literal "text") = 98306 := by decide
    exact hstring (text?_eq_some htext) (by omega)

/-- The line of a plain frame fits. -/
theorem PreviewFrame.Plain.short (h : frame.Plain) : frame.text.length ≤ maxLine := by
  have hsum : (frame.members.map fun m => 3 + 6 * m.1.length + PreviewUpload.cost m.1).sum = 100127 := by
    have hkeys := (List.Perm.map (fun key => 3 + 6 * key.length + PreviewUpload.cost key) h).sum_eq
    rw [List.map_map] at hkeys
    exact hkeys.trans (by decide)
  have hmembers : ∀ m ∈ frame.members, 3 + (Stringify.stringifyText m.1).length
      + (print Stringify.jsStyle Number.text m.2).length
      ≤ 3 + 6 * m.1.length + PreviewUpload.cost m.1 := by
    rintro ⟨key, v⟩ hm
    have hkey := Stringify.length_stringifyText_le key
    have hvalue := h.cost _ hm
    dsimp only
    omega
  have hlength := List.sum_le_sum hmembers
  have hcount : frame.members.length = 5 := by
    have hcount := h.length_eq
    rwa [List.length_map] at hcount
  rw [PreviewFrame.text, PreviewFrame.value, Stringify.length_obj, maxLine]
  omega

/-- A text without lone halves of pairs is well paired. -/
theorem wellPaired_of_loneHalves {text : Units} (hunits : ∀ u ∈ text, u < 0x10000)
    (h : Stringify.loneHalves text = 0) : WellPaired text := by
  have hplain {u : Nat} (hu : u < 0x10000) (hhalf : Stringify.half u = 0) :
      u < 0xD800 ∨ (0xE000 ≤ u ∧ u < 0x10000) := by
    simp only [Stringify.half, Stringify.isHigh, Stringify.isLow, Bool.toNat_eq_zero,
      Bool.or_eq_false_iff, Bool.and_eq_false_iff, decide_eq_false_iff_not] at hhalf
    omega
  induction text using Stringify.loneHalves.induct with
  | case1 => exact .nil
  | case2 u => exact .unit (hplain (hunits u List.mem_cons_self) h) .nil
  | case3 u w rest hpair ih =>
      obtain ⟨-, hunits⟩ := List.forall_mem_cons.1 hunits
      obtain ⟨-, hrest⟩ := List.forall_mem_cons.1 hunits
      rw [Stringify.loneHalves, if_pos hpair] at h
      rw [Bool.and_eq_true] at hpair
      exact .pair hpair.1 hpair.2 (ih hrest h)
  | case4 u w rest hpair ih =>
      obtain ⟨hu, hrest⟩ := List.forall_mem_cons.1 hunits
      rw [Stringify.loneHalves, if_neg hpair, Nat.add_eq_zero_iff] at h
      exact .unit (hplain hu h.1) (ih hrest h.2)

theorem PreviewFrame.paired : WellPaired frame.text := by
  have hwithin : Stringify.jsStyle.Within Number.text (· < 0x10000) (· < 0x10000) := by
    refine ⟨by decide, fun s hs => Stringify.stringifyText_units hs, by decide, by decide, ?_⟩
    intro n u hu
    have hbound := n.text_bounds u hu
    omega
  exact wellPaired_of_loneHalves (print_within hwithin frame.value frame.units)
    (Stringify.loneHalves_print _)

theorem PreviewFrame.parse_text : parse frame.text = some frame.value :=
  Stringify.parse_jsStyle frame.units

theorem PreviewFrame.isPreviewFrame_read : isPreviewFrame Double.integer? frame.read = true :=
  (isPreviewFrame_map (fun _ => rfl) frame.value).trans frame.accepted

end

/-! ## Lines -/

section

variable {text line rest future : Units}

theorem takeLine_none (h : 10 ∉ text) : takeLine text = none := by
  induction text with
  | nil => rfl
  | cons u text ih =>
      obtain ⟨hu, htext⟩ := not_or.1 (fun hmem => h (List.mem_cons.2 hmem))
      rw [takeLine, if_neg (fun heq => hu heq.symm), ih htext]
      rfl

theorem takeLine_append (h : 10 ∉ line) (rest : Units) :
    takeLine (line ++ 10 :: rest) = some (line, rest) := by
  induction line with
  | nil => rfl
  | cons u line ih =>
      obtain ⟨hu, hline⟩ := not_or.1 (fun hmem => h (List.mem_cons.2 hmem))
      rw [List.cons_append, takeLine, if_neg (fun heq => hu heq.symm), ih hline]
      rfl

theorem takeFrames_none (h : takeLine text = none) : takeFrames text = ([], .ok text) := by
  rw [takeFrames]
  split
  case h_1 => rfl
  case h_2 hsome => rw [h] at hsome; cases hsome

theorem PreviewFrame.no_feed (frame : PreviewFrame) : 10 ∉ frame.text :=
  fun hmem => absurd (Stringify.print_printed _ 10 hmem) (by decide)

/-- A short line of a frame, and what follows it. -/
theorem takeFrames_line (frame : PreviewFrame) (hline : frame.text.length ≤ maxLine) (rest : Units) :
    takeFrames (frame.text ++ 10 :: rest) =
      (frame.read :: (takeFrames rest).1, (takeFrames rest).2) := by
  rw [takeFrames]
  split
  case h_1 hnone => rw [takeLine_append frame.no_feed] at hnone; cases hnone
  case h_2 found left hsome =>
    obtain ⟨rfl, rfl⟩ := Prod.mk.inj
      (Option.some.inj (hsome.symm.trans (takeLine_append frame.no_feed rest)))
    have hread : frame.value.mapNumbers Double.ofLiteral = frame.read := rfl
    simp only [if_neg (Nat.not_lt.2 hline), frame.parse_text, hread, frame.isPreviewFrame_read,
      if_true]

/-- A line that is too long ends the reading. -/
theorem takeFrames_long (frame : PreviewFrame) (hline : maxLine < frame.text.length) (rest : Units) :
    takeFrames (frame.text ++ 10 :: rest) = ([], .error (.error "preview frame is too large")) := by
  rw [takeFrames]
  split
  case h_1 hnone => rw [takeLine_append frame.no_feed] at hnone; cases hnone
  case h_2 found left hsome =>
    obtain ⟨rfl, rfl⟩ := Prod.mk.inj
      (Option.some.inj (hsome.symm.trans (takeLine_append frame.no_feed rest)))
    rw [if_pos hline]

/-- The lines of some frames. -/
def lines (frames : List PreviewFrame) : Units := frames.flatMap PreviewFrame.line

/-- What has come of the lines is taken line by line. -/
theorem takeFrames_lines (frames : List PreviewFrame)
    (hshort : ∀ frame ∈ frames, frame.text.length ≤ maxLine) (h : lines frames = text ++ future) :
    ∃ taken left rest, frames = taken ++ left ∧ takeFrames text = (taken.map PreviewFrame.read, .ok rest)
      ∧ lines left = rest ++ future ∧ rest.length ≤ maxLine ∧ takeLine rest = none := by
  induction frames generalizing text with
  | nil =>
      obtain ⟨rfl, rfl⟩ := List.append_eq_nil_iff.1 h.symm
      exact ⟨[], [], [], rfl, takeFrames_none rfl, rfl, Nat.zero_le _, rfl⟩
  | cons frame frames ih =>
      obtain ⟨hfirst, hlater⟩ := List.forall_mem_cons.1 hshort
      have hline : lines (frame :: frames) = frame.text ++ 10 :: lines frames := by
        simp [lines, PreviewFrame.line]
      have hwaits {part more : Units} (hpart : frame.text = part ++ more)
          (hfuture : lines (frame :: frames) = part ++ future) :
          ∃ taken left rest, frame :: frames = taken ++ left
            ∧ takeFrames part = (taken.map PreviewFrame.read, .ok rest)
            ∧ lines left = rest ++ future ∧ rest.length ≤ maxLine ∧ takeLine rest = none := by
        have hnone : 10 ∉ part := fun hmem =>
          frame.no_feed (hpart ▸ List.mem_append_left _ hmem)
        rw [hpart, List.length_append] at hfirst
        exact ⟨[], frame :: frames, part, rfl, takeFrames_none (takeLine_none hnone), hfuture,
          by omega, takeLine_none hnone⟩
      rcases List.append_eq_append_iff.1 (hline.symm.trans h) with
        ⟨more, htext, hmore⟩ | ⟨more, htext, -⟩
      case inl =>
        rcases more with _ | ⟨u, more⟩
        case nil => exact @hwaits text [] (by simp [htext]) h
        case cons =>
          obtain ⟨rfl, hsplit⟩ := List.cons.inj hmore
          obtain ⟨taken, left, rest, rfl, htake, hrest⟩ := ih hlater hsplit
          refine ⟨frame :: taken, left, rest, rfl, ?_, hrest⟩
          rw [htext, takeFrames_line frame hfirst, htake]
          rfl
      case inr => exact hwaits htext h

end

/-! ## The round trip -/

section

theorem scalars_head {u : Nat} (h : isHigh u = false) (rest : Units) :
    ∃ more, scalars (u :: rest) = unitChar u :: more := by
  cases rest with
  | nil => exact ⟨[], rfl⟩
  | cons w rest => exact ⟨scalars (w :: rest), by simp [scalars, h]⟩

/-- The bytes that are sent are those of a text without a byte order mark. -/
theorem encode_lines (frames : List PreviewFrame) : ∃ text : List Char,
    previewRequestBody frames = utf8 text ∧ units text = lines frames ∧ withoutMark text = text := by
  refine ⟨frames.flatMap fun frame => scalars frame.line, ?_, ?_, ?_⟩
  · simp [previewRequestBody, encode, utf8, List.flatMap_assoc]
  · rw [units, List.flatMap_assoc, lines]
    refine List.flatMap_congr fun frame _ => ?_
    exact units_scalars (frame.paired.append (.unit (.inl (by decide)) .nil))
  · cases frames with
    | nil => rfl
    | cons frame frames =>
        obtain ⟨more, hmore⟩ := scalars_head (u := 123) rfl
          (printMembers Stringify.jsStyle Number.text frame.members ++ [125] ++ [10])
        have hline : scalars frame.line = unitChar 123 :: more := hmore
        rw [List.flatMap_cons, hline, List.cons_append, withoutMark, if_neg (by decide)]

/-- Chunks that are decoded without an error, piece by piece. -/
theorem pieces_of_flatten {outputs : List (List (Option Char))} {text : List Char}
    (h : outputs.flatten = text.map some) :
    ∃ pieces : List (List Char), outputs = pieces.map (List.map some) ∧ pieces.flatten = text := by
  induction outputs generalizing text with
  | nil =>
      rw [List.flatten_nil, eq_comm, List.map_eq_nil_iff] at h
      exact ⟨[], rfl, h.symm⟩
  | cons output outputs ih =>
      rw [List.flatten_cons, eq_comm, List.map_eq_append_iff] at h
      obtain ⟨piece, rest, rfl, rfl, hrest⟩ := h
      obtain ⟨pieces, rfl, rfl⟩ := ih hrest.symm
      exact ⟨piece :: pieces, rfl, rfl⟩

/-- The reader from some chunk on. -/
theorem readFrom_lines (decoder : TextDecoder) (chunks : List (List UInt8))
    (pieces : List (List Char)) (frames : List PreviewFrame) {pending : Units} {size : Nat}
    (index : Nat) (hshort : ∀ frame ∈ frames, frame.text.length ≤ maxLine) (hdecode : (decoder.decodeAll chunks).2 = pieces.map (List.map some))
    (hfinish : (decoder.decodeAll chunks).1.finish = [])
    (hsize : size + chunks.flatten.length ≤ maxBytes)
    (hlines : lines frames = pending ++ units pieces.flatten) (hnone : takeLine pending = none) :
    readFrom (fun _ => false) decoder pending size index chunks
      = (frames.map PreviewFrame.read, none) := by
  induction chunks generalizing decoder pieces frames pending size index with
  | nil =>
      obtain rfl := List.map_eq_nil_iff.1 hdecode.symm
      rw [List.flatten_nil, units, List.flatMap_nil, List.append_nil] at hlines
      cases frames with
      | nil =>
          have hfinish : decoder.finish = [] := hfinish
          obtain rfl : pending = [] := hlines.symm
          simp only [readFrom, hfinish, fatal]
          rfl
      | cons frame frames =>
          rw [← hlines, lines, List.flatMap_cons, PreviewFrame.line, List.append_assoc,
            List.singleton_append, takeLine_append frame.no_feed] at hnone
          cases hnone
  | cons chunk chunks ih =>
      rw [List.flatten_cons, List.length_append] at hsize
      rcases pieces with _ | ⟨piece, pieces⟩
      case nil => cases hdecode
      case cons =>
        obtain ⟨hpiece, hpieces⟩ := List.cons.inj hdecode
        have hsplit : lines frames = (pending ++ units piece) ++ units pieces.flatten := by
          rw [hlines, List.flatten_cons]
          simp [units]
        obtain ⟨taken, left, rest, rfl, htake, hleft, hlength, hrest⟩ :=
          takeFrames_lines frames hshort hsplit
        have hroom : ¬ maxBytes < size + chunk.length := by omega
        have hfits : ¬ maxLine < rest.length := Nat.not_lt.2 hlength
        have hlater := fun frame hframe => hshort frame (List.mem_append_right taken hframe)
        have hmore := ih (decoder.decode chunk).1 pieces left (index + 1) hlater hpieces hfinish
          (by omega : size + chunk.length + chunks.flatten.length ≤ maxBytes) hleft hrest
        have hchars : (decoder.decode chunk).2 = piece.map some := hpiece
        simp only [readFrom, Bool.false_eq_true, if_false, if_neg hroom, hchars, fatal_map, htake,
          if_neg hfits, hmore, List.map_append]

/-- However the bytes of some frames are cut, the reader yields exactly the frames and ends
    without an error, where every line is short, as it is for a plain frame. -/
theorem round_trip (frames : List PreviewFrame) (chunks : List (List UInt8))
    (hlines : ∀ frame ∈ frames, frame.Plain ∨ frame.text.length ≤ maxLine)
    (hbytes : chunks.flatten = previewRequestBody frames)
    (hsize : (previewRequestBody frames).length ≤ maxBytes) :
    readPreviewFrames (fun _ => false) chunks = (frames.map PreviewFrame.read, none) := by
  obtain ⟨text, htext, hunits, hmark⟩ := encode_lines frames
  obtain ⟨houtputs, hfinish⟩ := decodeAll_utf8 (hbytes.trans htext)
  rw [hmark] at houtputs
  obtain ⟨pieces, hpieces, rfl⟩ := pieces_of_flatten houtputs
  refine readFrom_lines {} chunks pieces frames 0 ?_ hpieces hfinish ?_ ?_ rfl
  · intro frame hframe
    exact (hlines frame hframe).elim (fun hplain => hplain.short) id
  · rw [Nat.zero_add, hbytes]
    exact hsize
  · rw [List.nil_append, hunits]

/-- A frame whose line is too long, in one chunk, ends the reading. -/
theorem readPreviewFrames_long (frame : PreviewFrame) (hline : maxLine < frame.text.length)
    (hsize : (previewRequestBody [frame]).length ≤ maxBytes) :
    readPreviewFrames (fun _ => false) [previewRequestBody [frame]]
      = ([], some (.error "preview frame is too large")) := by
  obtain ⟨text, htext, hunits, hmark⟩ := encode_lines [frame]
  obtain ⟨houtputs, -⟩ := decodeAll_utf8 (List.flatten_singleton.trans htext)
  have hone : (TextDecoder.decodeAll {} [previewRequestBody [frame]]).2.flatten
      = (TextDecoder.decode {} (previewRequestBody [frame])).2 := List.flatten_singleton
  rw [hmark, hone] at houtputs
  have hroom : ¬ maxBytes < 0 + (previewRequestBody [frame]).length := by omega
  have htake : takeFrames ([] ++ units text) = ([], .error (.error "preview frame is too large")) := by
    rw [List.nil_append, hunits, lines, List.flatMap_singleton, PreviewFrame.line]
    exact takeFrames_long frame hline []
  rw [readPreviewFrames, readFrom]
  simp only [Bool.false_eq_true, if_false, if_neg hroom, houtputs, fatal_map, htake]

end

/-! ### Frames with half a pair, and with a field of their own -/

private def loneMembers : List (Units × Value Number) :=
  [(Stringify.literal "attemptId", .str [97]), (Stringify.literal "requestVersion", .num (.ofInt 1)),
    (Stringify.literal "seq", .num (.ofInt 2)),
    (Stringify.literal "kind", .str (Stringify.literal "delta")),
    (Stringify.literal "text", .str [34, 10, 0xD800])]

private theorem asWritten_ofInt {n : ℤ} (h : |n| < 2 ^ 53) : AsWritten (Number.ofInt n) := by
  intro k hk _
  rw [Double.ofLiteral_ofInt h, Double.integer?_ofInt] at hk
  rw [Option.some.inj hk]

private theorem loneMembers_numbers : Value.NumbersMembers AsWritten loneMembers := by
  simp [loneMembers, Value.NumbersMembers, Value.Numbers, asWritten_ofInt]

private theorem loneMembers_units : Value.OverMembers (· < 0x10000) loneMembers := by
  simp [loneMembers, Value.OverMembers, Value.Over, Stringify.literal]

/-- A frame whose text is a quote, a line feed and half a pair. -/
private def loneFrame : PreviewFrame where
  members := loneMembers
  distinct := by decide +kernel
  units := loneMembers_units
  numbers := loneMembers_numbers
  accepted := by decide +kernel

theorem round_trip_lone :
    readPreviewFrames (fun _ => false) [previewRequestBody [loneFrame]] = ([loneFrame.read], none) := by
  have hplain : (loneMembers.map Prod.fst).Perm frameKeys := by decide +kernel
  exact round_trip [loneFrame] [previewRequestBody [loneFrame]]
    (List.forall_mem_singleton.2 (.inl hplain)) List.flatten_singleton (by decide +kernel)

/-- The same fields and a note, which is not one of the fields of a preview frame. -/
private def noteMembers (note : Units) : List (Units × Value Number) :=
  loneMembers ++ [(Stringify.literal "note", .str note)]

private theorem noteMembers_units {note : Units} (h : ∀ u ∈ note, u < 0x10000) :
    Value.OverMembers (· < 0x10000) (noteMembers note) := by
  simp [noteMembers, loneMembers, Value.OverMembers, Value.Over, Stringify.literal]
  exact h

private theorem noteMembers_numbers (note : Units) :
    Value.NumbersMembers AsWritten (noteMembers note) := by
  simp [noteMembers, loneMembers, Value.NumbersMembers, Value.Numbers, asWritten_ofInt]

private def noteFrame : PreviewFrame where
  members := noteMembers (List.replicate 130000 97)
  distinct := by decide +kernel
  units := noteMembers_units fun u hu => by rw [List.eq_of_mem_replicate hu]; decide
  numbers := noteMembers_numbers _
  accepted := by decide +kernel

private theorem length_stringifyText_replicate (n : Nat) :
    (Stringify.stringifyText (List.replicate n 97)).length = n := by
  have hunit : Stringify.stringifyUnit 97 = [97] := by decide
  induction n with
  | zero => rfl
  | succ n ih =>
      cases n with
      | zero => simp [Stringify.stringifyText, hunit]
      | succ n =>
          rw [List.replicate_succ] at ih
          simp [List.replicate_succ, Stringify.stringifyText, Stringify.isHigh, hunit, ih]

private theorem length_noteMembers (n : Nat) :
    (print Stringify.jsStyle Number.text (.obj (noteMembers (List.replicate n 97)))).length
      = n + 89 := by
  have hlone : (loneMembers.map fun m => 3 + (Stringify.stringifyText m.1).length
      + (print Stringify.jsStyle Number.text m.2).length).sum = 73 := by decide +kernel
  have hkey : (Stringify.stringifyText (Stringify.literal "note")).length = 4 := by decide +kernel
  have hcount : loneMembers.length = 5 := rfl
  rw [Stringify.length_obj]
  simp only [noteMembers, List.map_append, List.sum_append, List.map_cons, List.map_nil,
    List.sum_cons, List.sum_nil, List.length_append, List.length_singleton, Stringify.length_str,
    length_stringifyText_replicate, hlone, hkey, hcount]
  omega

theorem length_encode_le (text : Units) : (encode text).length ≤ 4 * text.length := by
  have hchar (c : Char) : (String.utf8EncodeChar c).length ≤ 4 := by
    rw [String.length_utf8EncodeChar]
    exact c.utf8Size_le_four
  have hcons (c : Char) (chars : List Char) :
      (utf8 (c :: chars)).length = (String.utf8EncodeChar c).length + (utf8 chars).length :=
    List.length_append
  unfold encode
  induction text using scalars.induct with
  | case1 => exact Nat.le_refl _
  | case2 u => simpa [scalars, utf8] using hchar (unitChar u)
  | case3 u w rest hpair ih =>
      have hfirst := hchar (pairChar u w)
      rw [scalars, if_pos hpair, hcons, List.length_cons, List.length_cons]
      omega
  | case4 u w rest hpair ih =>
      have hfirst := hchar (unitChar u)
      rw [scalars, if_neg hpair, hcons, List.length_cons]
      omega

theorem length_previewRequestBody_le (frame : PreviewFrame) :
    (previewRequestBody [frame]).length ≤ 4 * (frame.text.length + 1) := by
  have hbytes := length_encode_le frame.line
  rw [PreviewFrame.line, List.length_append, List.length_singleton] at hbytes
  rw [previewRequestBody, List.flatMap_singleton, PreviewFrame.line]
  exact hbytes

/-- A frame that `isPreviewFrame` accepts is sent, and the reader refuses its line. -/
theorem noteFrame_refused : (previewRequestBody [noteFrame]).length ≤ maxBytes
    ∧ readPreviewFrames (fun _ => false) [previewRequestBody [noteFrame]]
      = ([], some (.error "preview frame is too large")) := by
  have htext : noteFrame.text.length = 130089 := length_noteMembers 130000
  have hsize := length_previewRequestBody_le noteFrame
  rw [htext] at hsize
  have hroom : 4 * (130089 + 1) ≤ maxBytes := by decide
  have hlong : maxLine < 130089 := by decide
  exact ⟨hsize.trans hroom, readPreviewFrames_long noteFrame (htext ▸ hlong) (hsize.trans hroom)⟩

end PreviewUpload

end LingxiOS
