-- SUMMARY: Server-sent events from a model provider.
import LingxiOS.Base.EventStream
import LingxiOS.Base.TextCoding
import Mathlib.Algebra.Order.BigOperators.Group.List
import Mathlib.Algebra.Order.Ring.Nat

/-! # Server-Sent Events

A translation of `bodyText` and `sseDataEvents`. The buffer is cut where the expression
`/\r?\n\r?\n/` first matches, and two or four units are skipped there, by the first unit of
the match. -/

namespace LingxiOS

namespace Sse

open EventStream TextCoding

/-! ## The body -/

/-- `16 * 1024 * 1024`. -/
def maxBytes : Nat := 16777216

/-- `bodyText`, after some bytes: the texts it yields, and what it throws. -/
def bodyText (decoder : TextDecoder) (bytes : Nat) :
    List (List UInt8) → List Units × Option String
  | [] => (if replaced decoder.finish = [] then [] else [replaced decoder.finish], none)
  | value :: chunks =>
      if maxBytes < bytes + value.length then ([], some "model response exceeds 16 MiB")
      else
        let (after, text) := decoder.decode value
        let (texts, error) := bodyText after (bytes + value.length) chunks
        (replaced text :: texts, error)

/-! ## Events -/

/-- Whether `/\r?\n\r?\n/` matches here. -/
def blankLine : Units → Bool
  | 10 :: 10 :: _ => true
  | 10 :: 13 :: 10 :: _ => true
  | 13 :: 10 :: 10 :: _ => true
  | 13 :: 10 :: 13 :: 10 :: _ => true
  | _ => false

/-- `buffer.search(/\r?\n\r?\n/)`. -/
def search : Units → Option Nat
  | [] => none
  | u :: rest => if blankLine (u :: rest) then some 0 else (search rest).map (· + 1)

/-- `rawEvent.split(/\r?\n/)`, after the start of a line. -/
def splitLines (line : Units) : Units → List Units
  | [] => [line]
  | 13 :: 10 :: rest => line :: splitLines [] rest
  | 10 :: rest => line :: splitLines [] rest
  | u :: rest => splitLines (line ++ [u]) rest

/-- `line.startsWith('data:')`. -/
def startsData (line : Units) : Bool := (dataName ++ [58]).isPrefixOf line

/-- The data of the lines of an event. -/
def dataOf (lines : List Units) : Units :=
  [10].intercalate ((lines.filter startsData).map fun line => dropSpace (line.drop 5))

theorem search_lt {buffer : Units} {boundary : Nat} (h : search buffer = some boundary) :
    boundary < buffer.length := by
  induction buffer generalizing boundary with
  | nil => cases h
  | cons u rest ih =>
      rw [search] at h
      split at h
      · obtain rfl := Option.some.inj h
        exact Nat.succ_pos _
      · obtain ⟨earlier, hearlier, rfl⟩ := Option.map_eq_some_iff.1 h
        exact Nat.succ_lt_succ (ih hearlier)

/-- How many units are skipped at a boundary. -/
def skipLength (buffer : Units) (boundary : Nat) : Nat :=
  if buffer[boundary]? = some 13 then 4 else 2

/-- The loop over the boundaries: the raw events with what is skipped after each, and what is
    left in the buffer. -/
def takeEvents (buffer : Units) : List (Units × Units) × Units :=
  match _h : search buffer with
  | none => ([], buffer)
  | some boundary =>
      let skip := skipLength buffer boundary
      let (events, rest) := takeEvents (buffer.drop (boundary + skip))
      ((buffer.take boundary, (buffer.drop boundary).take skip) :: events, rest)
termination_by buffer.length
decreasing_by
  have hlt := search_lt _h
  rw [List.length_drop]
  unfold skipLength
  split <;> omega

def readTexts (buffer : Units) : List Units → List (Units × Units)
  | [] => []
  | chunk :: texts =>
      let (events, rest) := takeEvents (buffer ++ chunk)
      events ++ readTexts rest texts

structure Reading where
  yields : List Units
  /-- What is skipped at each boundary. -/
  skipped : List Units
  error : Option String
  deriving DecidableEq

def sseDataEvents (chunks : List (List UInt8)) : Reading :=
  let (texts, error) := bodyText {} 0 chunks
  let events := readTexts [] texts
  { yields := (events.map fun event => dataOf (splitLines [] event.1)).filter (· ≠ [])
    skipped := events.map Prod.snd
    error := error }

/-! ## What is swallowed -/

/-- What was read of a blank line. -/
inductive Mode where
  | text
  | cr
  | lf
  | crlf
  | lfcr
  | crlfcr
  /-- After CRLF and LF: one more unit is skipped, if it has come. -/
  | owed
  deriving DecidableEq

def Mode.next : Mode → Nat → Mode
  | .text, 13 | .cr, 13 => .cr
  | .text, 10 => .lf
  | .cr, 10 => .crlf
  | .lf, 13 => .lfcr
  | .crlf, 10 => .owed
  | .crlf, 13 => .crlfcr
  -- the line feed of the second line end is left, and starts a line end of its own
  | .lfcr, 10 => .lf
  | .lfcr, 13 | .crlfcr, 13 => .cr
  | _, _ => .text

def Mode.after (mode : Mode) (chunk : Units) : Mode := chunk.foldl Mode.next mode

/-- The units of a chunk that are skipped and are no line ends. -/
def Mode.swallowed (mode : Mode) : Units → Units
  | [] => []
  | u :: chunk =>
      (if mode = .owed ∧ isLineEnd u = false then [u] else []) ++ (mode.next u).swallowed chunk

/-- The end of a chunk: what has not come is not skipped. -/
def Mode.settled : Mode → Mode
  | .owed => .text
  | mode => mode

/-- No blank line that is a CRLF and an LF is followed by a text unit that has come with it. -/
def NothingSwallowed : Mode → List Units → Prop
  | _, [] => True
  | mode, chunk :: texts =>
      mode.swallowed chunk = [] ∧ NothingSwallowed (mode.after chunk).settled texts

/-- A line that is only `data` stands alone in its event, where it adds nothing. -/
def BareHarmless (lines : List Units) : Prop :=
  dataName ∈ lines → (lines.filter isData).length = 1

/-! ## Boundaries -/

/-- A blank line, as it is matched. -/
inductive Boundary : Units → Prop
  | lf_lf : Boundary [10, 10]
  | lf_crlf : Boundary [10, 13, 10]
  | crlf_lf : Boundary [13, 10, 10]
  | crlf_crlf : Boundary [13, 10, 13, 10]

/-- Text without a blank line that ends within a line. -/
inductive Dense : Units → Prop
  | nil : Dense []
  | unit {u : Nat} {rest : Units} (hu : isLineEnd u = false) (h : Dense rest) : Dense (u :: rest)
  | lf {u : Nat} {rest : Units} (hu : isLineEnd u = false) (h : Dense rest) : Dense (10 :: u :: rest)
  | crlf {u : Nat} {rest : Units} (hu : isLineEnd u = false) (h : Dense rest) :
      Dense (13 :: 10 :: u :: rest)

section

variable {text raw rest future : Units} {u : Nat}

theorem boundary_of_blankLine (h : blankLine text = true) :
    ∃ boundary rest, text = boundary ++ rest ∧ Boundary boundary := by
  unfold blankLine at h
  split at h
  · exact ⟨_, _, rfl, .lf_lf⟩
  · exact ⟨_, _, rfl, .lf_crlf⟩
  · exact ⟨_, _, rfl, .crlf_lf⟩
  · exact ⟨_, _, rfl, .crlf_crlf⟩
  · cases h

theorem isLineEnd_eq_false : isLineEnd u = false ↔ u ≠ 10 ∧ u ≠ 13 := by
  simp [isLineEnd]

theorem blankLine_unit (h : isLineEnd u = false) : blankLine (u :: rest) = false := by
  obtain ⟨hlf, hcr⟩ := isLineEnd_eq_false.1 h
  unfold blankLine
  split
  case h_1 hsame => exact absurd (List.cons.inj hsame).1 hlf
  case h_2 hsame => exact absurd (List.cons.inj hsame).1 hlf
  case h_3 hsame => exact absurd (List.cons.inj hsame).1 hcr
  case h_4 hsame => exact absurd (List.cons.inj hsame).1 hcr
  case h_5 => rfl

theorem blankLine_lf_unit (h : isLineEnd u = false) : blankLine (10 :: u :: rest) = false := by
  obtain ⟨hlf, hcr⟩ := isLineEnd_eq_false.1 h
  unfold blankLine
  split
  case h_1 hsame => exact absurd (List.cons.inj (List.cons.inj hsame).2).1 hlf
  case h_2 hsame => exact absurd (List.cons.inj (List.cons.inj hsame).2).1 hcr
  case h_3 hsame => cases hsame
  case h_4 hsame => cases hsame
  case h_5 => rfl

theorem search_of_not (h : blankLine (u :: rest) = false) :
    search (u :: rest) = (search rest).map (· + 1) := by
  simp [search, h]

/-- What is left of a line end that nothing has followed yet. -/
def tails : List Units := [[], [10], [13], [13, 10], [10, 13], [13, 10, 13]]

theorem search_tail : ∀ tail ∈ tails, search tail = none := by
  decide

/-- After a line feed that ends no event comes text, if anything. -/
theorem after_lf (hblank : blankLine (10 :: text) = false) (hended : Ended (text ++ future)) :
    (∃ u rest, isLineEnd u = false ∧ text = u :: rest) ∨ text = [] ∨ text = [13] := by
  rcases text with _ | ⟨u, rest⟩
  case nil => exact .inr (.inl rfl)
  case cons =>
    rcases Bool.eq_false_or_eq_true (isLineEnd u) with hend | htext
    case inr => exact .inl ⟨u, rest, htext, rfl⟩
    case inl =>
      rcases (by simpa [isLineEnd] using hend : u = 10 ∨ u = 13) with rfl | rfl
      case inl => simp [blankLine] at hblank
      case inr =>
        rcases rest with _ | ⟨v, rest⟩
        case nil => exact .inr (.inr rfl)
        case cons =>
          obtain rfl : v = 10 := Option.some.inj (hended.1 rfl)
          simp [blankLine] at hblank

/-- Where the next line end does not match, a text unit follows this one, or nothing yet. -/
theorem lineEnd_cases (hblank : blankLine (u :: text) = false) (hended : Ended (u :: text ++ future))
    (hend : isLineEnd u = true) :
    (∃ v rest, isLineEnd v = false ∧ (u :: text = 10 :: v :: rest ∨ u :: text = 13 :: 10 :: v :: rest))
    ∨ u :: text ∈ tails := by
  rcases (by simpa [isLineEnd] using hend : u = 10 ∨ u = 13) with rfl | rfl
  case inl =>
    rcases after_lf hblank hended.2 with ⟨v, rest, hv, rfl⟩ | rfl | rfl
    · exact .inl ⟨v, rest, hv, .inl rfl⟩
    · exact .inr (by decide)
    · exact .inr (by decide)
  case inr =>
    rcases text with _ | ⟨v, text⟩
    case nil => exact .inr (by decide)
    case cons =>
      obtain rfl : v = 10 := Option.some.inj (hended.1 rfl)
      have hblank' : blankLine (10 :: text) = false := by
        rcases text with _ | ⟨w, _ | ⟨x, text⟩⟩ <;> unfold blankLine at hblank ⊢ <;> grind
      rcases after_lf hblank' hended.2.2 with ⟨v, rest, hv, rfl⟩ | rfl | rfl
      · exact .inl ⟨v, rest, hv, .inr rfl⟩
      · exact .inr (by decide)
      · exact .inr (by decide)

/-- Text up to its first blank line, or all of it. -/
theorem dense_cases (text : Units) (hended : Ended (text ++ future)) :
    ∃ raw tail, text = raw ++ tail ∧ Dense raw
      ∧ ((search text = none ∧ tail ∈ tails)
        ∨ (search text = some raw.length ∧ ∃ boundary rest, tail = boundary ++ rest ∧ Boundary boundary)) := by
  induction hlength : text.length using Nat.strongRecOn generalizing text with
  | ind length ih =>
      subst hlength
      rcases text with _ | ⟨u, text⟩
      case nil => exact ⟨[], [], rfl, .nil, .inl ⟨rfl, by decide⟩⟩
      case cons =>
        rcases Bool.eq_false_or_eq_true (blankLine (u :: text)) with hblank | hblank
        case inl =>
          obtain ⟨boundary, rest, htext, hboundary⟩ := boundary_of_blankLine hblank
          refine ⟨[], u :: text, rfl, .nil, .inr ⟨?_, boundary, rest, htext, hboundary⟩⟩
          simp [search, hblank]
        case inr =>
          rcases Bool.eq_false_or_eq_true (isLineEnd u) with hend | hunit
          case inr =>
            obtain ⟨raw, tail, rfl, hraw, hcases⟩ := ih _ (Nat.lt_succ_self _) text hended.2 rfl
            refine ⟨u :: raw, tail, rfl, .unit hunit hraw, ?_⟩
            rw [search_of_not hblank]
            rcases hcases with ⟨hnone, htail⟩ | ⟨hsome, hboundary⟩
            · exact .inl ⟨by simp [hnone], htail⟩
            · exact .inr ⟨by simp [hsome], hboundary⟩
          case inl =>
            rcases lineEnd_cases hblank hended hend with ⟨v, rest, hv, htext | htext⟩ | htail
            · cases htext
              obtain ⟨raw, tail, rfl, hraw, hcases⟩ :=
                ih rest.length (by simp only [List.length_cons]; omega) rest hended.2.2 rfl
              refine ⟨10 :: v :: raw, tail, rfl, .lf hv hraw, ?_⟩
              rw [search_of_not hblank, search_of_not (blankLine_unit hv)]
              rcases hcases with ⟨hnone, htail⟩ | ⟨hsome, hboundary⟩
              · exact .inl ⟨by simp [hnone], htail⟩
              · exact .inr ⟨by simp [hsome], hboundary⟩
            · cases htext
              obtain ⟨raw, tail, rfl, hraw, hcases⟩ :=
                ih rest.length (by simp only [List.length_cons]; omega) rest hended.2.2.2 rfl
              refine ⟨13 :: 10 :: v :: raw, tail, rfl, .crlf hv hraw, ?_⟩
              rw [search_of_not hblank, search_of_not (blankLine_lf_unit hv),
                search_of_not (blankLine_unit hv)]
              rcases hcases with ⟨hnone, htail⟩ | ⟨hsome, hboundary⟩
              · exact .inl ⟨by simp [hnone], htail⟩
              · exact .inr ⟨by simp [hsome], hboundary⟩
            · refine ⟨[], u :: text, rfl, .nil, .inl ⟨?_, htail⟩⟩
              exact search_tail _ htail

/-! ## The format at a boundary -/

theorem splitLines_unit {line : Units} (h : isLineEnd u = false) :
    splitLines line (u :: rest) = splitLines (line ++ [u]) rest := by
  obtain ⟨hlf, hcr⟩ := isLineEnd_eq_false.1 h
  rw [splitLines]
  · exact fun _ hsame => absurd hsame hcr
  · exact hlf

theorem splitLines_lf {line : Units} : splitLines line (10 :: rest) = line :: splitLines [] rest := by
  rw [splitLines]

theorem splitLines_crlf {line : Units} :
    splitLines line (13 :: 10 :: rest) = line :: splitLines [] rest := by
  rw [splitLines]

/-- Within a line, the format reads on to the boundary as the driver splits. -/
theorem read_dense (hraw : Dense raw) {boundary : Units} (hboundary : Boundary boundary)
    {lines : List Units} {line : Units} (hline : line ≠ []) (rest : Units) :
    read lines line (raw ++ (boundary ++ rest)) = (lines ++ splitLines line raw) :: read [] [] rest := by
  induction hraw generalizing lines line with
  | nil =>
      cases hboundary <;>
        simp [read_lf, read_crlf, hline, splitLines]
  | @unit u raw hu hraw ih =>
      rw [List.cons_append, read_unit hu, splitLines_unit hu]
      exact ih (List.append_ne_nil_of_right_ne_nil _ (List.cons_ne_nil _ _))
  | @lf u raw hu hraw ih =>
      simp only [List.cons_append, read_lf, if_neg hline, read_unit hu, splitLines_lf,
        splitLines_unit hu]
      rw [ih (List.append_ne_nil_of_right_ne_nil _ (List.cons_ne_nil _ _))]
      simp
  | @crlf u raw hu hraw ih =>
      simp only [List.cons_append, read_crlf, if_neg hline, read_unit hu, splitLines_crlf,
        splitLines_unit hu]
      rw [ih (List.append_ne_nil_of_right_ne_nil _ (List.cons_ne_nil _ _))]
      simp

/-- Within a line, the format finds no event in what is left at the end. -/
theorem read_tail (hraw : Dense raw) {tail : Units} (htail : tail ∈ tails)
    (hended : Ended (raw ++ tail)) {lines : List Units} {line : Units} (hline : line ≠ []) :
    read lines line (raw ++ tail) = [] := by
  induction hraw generalizing lines line with
  | nil =>
      simp only [tails, List.mem_cons, List.not_mem_nil, or_false] at htail
      rcases htail with rfl | rfl | rfl | rfl | rfl | rfl <;>
        simp [Ended] at hended <;>
        simp [EventStream.read, hline]
  | @unit u raw hu hraw ih =>
      rw [List.cons_append, read_unit hu]
      exact ih hended.2 (List.append_ne_nil_of_right_ne_nil _ (List.cons_ne_nil _ _))
  | @lf u raw hu hraw ih =>
      simp only [List.cons_append, read_lf, if_neg hline, read_unit hu]
      exact ih hended.2.2 (List.append_ne_nil_of_right_ne_nil _ (List.cons_ne_nil _ _))
  | @crlf u raw hu hraw ih =>
      simp only [List.cons_append, read_crlf, if_neg hline, read_unit hu]
      exact ih hended.2.2.2 (List.append_ne_nil_of_right_ne_nil _ (List.cons_ne_nil _ _))

end

section

variable {data : List Units → Units} (hnil : data [] = [])
  (hblank : ∀ lines, data ([] :: lines) = data lines) {text raw rest future : Units} {u : Nat}

/-- The payload of one raw event, if it has one. -/
def payloadOf (data : List Units → Units) (raw : Units) : List Units :=
  [data (splitLines [] raw)].filter (· ≠ [])

theorem payloadsWith_unit {boundary : Units} (hboundary : Boundary boundary) (hraw : Dense raw)
    (hu : isLineEnd u = false) (rest : Units) :
    payloadsWith data (u :: raw ++ (boundary ++ rest)) =
      [data (splitLines [u] raw)].filter (· ≠ []) ++ payloadsWith data rest := by
  have hevents : events (u :: raw ++ (boundary ++ rest)) = splitLines [u] raw :: events rest := by
    rw [events, List.cons_append, read_unit hu,
      read_dense hraw hboundary (List.append_ne_nil_of_right_ne_nil _ (List.cons_ne_nil _ _)), events]
    rfl
  rw [payloadsWith, hevents, List.map_cons, ← List.singleton_append, List.filter_append, payloadsWith]

include hnil in
theorem payloadsWith_boundary {boundary : Units} (hboundary : Boundary boundary) (rest : Units) :
    payloadsWith data (boundary ++ rest) = payloadsWith data rest := by
  cases hboundary <;>
    simp [payloadsWith_lf hnil, payloadsWith_crlf hnil]

include hnil hblank in
/-- A raw event and its boundary give its payload. -/
theorem payloadsWith_raw {boundary : Units} (hboundary : Boundary boundary) (hraw : Dense raw)
    (rest : Units) : payloadsWith data (raw ++ (boundary ++ rest)) =
      payloadOf data raw ++ payloadsWith data rest := by
  unfold payloadOf
  cases hraw with
  | nil =>
      rw [List.nil_append, payloadsWith_boundary hnil hboundary, splitLines, hblank, hnil]
      rfl
  | unit hu hraw =>
      rw [payloadsWith_unit hboundary hraw hu, splitLines_unit hu]
      rfl
  | lf hu hraw =>
      rw [List.cons_append, payloadsWith_lf hnil, payloadsWith_unit hboundary hraw hu, splitLines_lf,
        hblank, splitLines_unit hu]
      rfl
  | crlf hu hraw =>
      rw [List.cons_append, List.cons_append, payloadsWith_crlf hnil,
        payloadsWith_unit hboundary hraw hu, splitLines_crlf, hblank, splitLines_unit hu]
      rfl

include hnil in
/-- What is left at the end of a stream has no payload. -/
theorem payloadsWith_tail (hended : Ended text) (hnone : search text = none) :
    payloadsWith data text = [] := by
  have hunit {raw tail : Units} {u : Nat} (hraw : Dense raw) (htail : tail ∈ tails)
      (hu : isLineEnd u = false) (hended : Ended (raw ++ tail)) :
      payloadsWith data (u :: (raw ++ tail)) = [] := by
    rw [payloadsWith, events, read_unit hu,
      read_tail hraw htail hended (List.append_ne_nil_of_right_ne_nil _ (List.cons_ne_nil _ _))]
    rfl
  obtain ⟨raw, tail, rfl, hraw, hcases⟩ := dense_cases text ((List.append_nil text).symm ▸ hended)
  rcases hcases with ⟨-, htail⟩ | ⟨hsome, -⟩
  case inr => rw [hnone] at hsome; cases hsome
  case inl =>
    cases hraw with
    | nil =>
        simp only [tails, List.mem_cons, List.not_mem_nil, or_false] at htail
        rcases htail with rfl | rfl | rfl | rfl | rfl | rfl <;>
          simp [Ended] at hended <;>
          simp [payloadsWith, events, EventStream.read, hnil]
    | unit hu hraw => exact hunit hraw htail hu hended.2
    | lf hu hraw =>
        rw [List.cons_append, payloadsWith_lf hnil]
        exact hunit hraw htail hu hended.2.2
    | crlf hu hraw =>
        rw [List.cons_append, List.cons_append, payloadsWith_crlf hnil]
        exact hunit hraw htail hu hended.2.2.2

end

/-! ## The loop over the boundaries -/

section

variable {data : List Units → Units} {text raw rest future : Units} {u : Nat} {mode : Mode}

theorem Mode.after_append (mode : Mode) (text more : Units) :
    mode.after (text ++ more) = (mode.after text).after more :=
  List.foldl_append

theorem Mode.swallowed_append (mode : Mode) (text more : Units) :
    mode.swallowed (text ++ more) = mode.swallowed text ++ (mode.after text).swallowed more := by
  induction text generalizing mode with
  | nil => rfl
  | cons u text ih => simp [Mode.swallowed, Mode.after, ih]

theorem Mode.next_unit (h : isLineEnd u = false) : mode.next u = .text := by
  obtain ⟨hlf, hcr⟩ := isLineEnd_eq_false.1 h
  cases mode <;> simp [Mode.next, hlf, hcr]

theorem mode_dense (hraw : Dense raw) :
    Mode.after .text raw = .text ∧ Mode.swallowed .text raw = [] := by
  induction hraw with
  | nil => exact ⟨rfl, rfl⟩
  | unit hu hraw ih => simpa [Mode.after, Mode.swallowed, Mode.next_unit hu] using ih
  | lf hu hraw ih =>
      simpa [Mode.after, Mode.swallowed, Mode.next_unit hu, show Mode.next .text 10 = .lf from rfl] using ih
  | crlf hu hraw ih =>
      simpa [Mode.after, Mode.swallowed, Mode.next_unit hu, show Mode.next .text 13 = .cr from rfl,
        show Mode.next .cr 10 = .crlf from rfl] using ih

theorem mode_tail : ∀ tail ∈ tails, Mode.swallowed .text tail = [] ∧
    (Mode.after .text tail).settled = Mode.after .text tail := by
  decide

theorem takeEvents_none (h : search text = none) : takeEvents text = ([], text) := by
  rw [takeEvents]
  split
  case h_1 => rfl
  case h_2 hsome => rw [h] at hsome; cases hsome

theorem takeEvents_some {boundary : Nat} (h : search text = some boundary) :
    takeEvents text =
      ((text.take boundary, (text.drop boundary).take (skipLength text boundary))
          :: (takeEvents (text.drop (boundary + skipLength text boundary))).1,
        (takeEvents (text.drop (boundary + skipLength text boundary))).2) := by
  rw [takeEvents]
  split
  case h_1 hnone => rw [h] at hnone; cases hnone
  case h_2 found hsome =>
    obtain rfl := Option.some.inj (h.symm.trans hsome)
    rfl

/-- What is left after a boundary. -/
theorem takeEvents_raw (h : search (raw ++ rest) = some raw.length) (skip : Nat)
    (hskip : (if rest[0]? = some 13 then 4 else 2) = skip) :
    takeEvents (raw ++ rest) =
      ((raw, rest.take skip) :: (takeEvents (rest.drop skip)).1, (takeEvents (rest.drop skip)).2) := by
  have hlength : skipLength (raw ++ rest) raw.length = skip := by
    rw [← hskip, skipLength, List.getElem?_append_right (Nat.le_refl _), Nat.sub_self]
  have hdrop : (raw ++ rest).drop (raw.length + skip) = rest.drop skip := by
    rw [← List.drop_drop, List.drop_left]
  rw [takeEvents_some h, hlength, hdrop, List.take_left, List.drop_left]

/-- The loop over the boundaries does what the format says, unless it swallows something. -/
structure Follows (data : List Units → Units) (future text : Units) : Prop where
  none : search (takeEvents text).2 = none
  skipped : (∀ event ∈ (takeEvents text).1, ∀ u ∈ event.2, isLineEnd u = true) ↔
    Mode.swallowed .text text = []
  ended : Mode.swallowed .text text = [] → Ended ((takeEvents text).2 ++ future)
  mode : Mode.swallowed .text text = [] →
    (Mode.after .text text).settled = Mode.after .text (takeEvents text).2
  payloads : Mode.swallowed .text text = [] → payloadsWith data (text ++ future) =
    ((takeEvents text).1.flatMap fun event => payloadOf data event.1)
      ++ payloadsWith data ((takeEvents text).2 ++ future)

/-- A boundary after which the same is left as the format leaves. -/
theorem Follows.cons {skipped left : Units} (h : Follows data future left)
    (htake : takeEvents text = ((raw, skipped) :: (takeEvents left).1, (takeEvents left).2))
    (hskipped : ∀ u ∈ skipped, isLineEnd u = true)
    (hswallowed : Mode.swallowed .text text = Mode.swallowed .text left)
    (hmode : (Mode.after .text text).settled = (Mode.after .text left).settled)
    (hpayloads : payloadsWith data (text ++ future) =
      payloadOf data raw ++ payloadsWith data (left ++ future)) : Follows data future text := by
  constructor
  case none => rw [htake]; exact h.none
  case skipped =>
    rw [htake, hswallowed, List.forall_mem_cons, ← h.skipped]
    exact and_iff_right hskipped
  case ended => rw [htake, hswallowed]; exact h.ended
  case mode => rw [htake, hswallowed, hmode]; exact h.mode
  case payloads =>
    intro hnothing
    rw [htake, hpayloads, h.payloads (hswallowed ▸ hnothing), List.flatMap_cons, List.append_assoc]

/-- A boundary that swallows a text unit. -/
theorem Follows.swallow {skipped left : Units} (h : Follows data future left)
    (htake : takeEvents text = ((raw, skipped) :: (takeEvents left).1, (takeEvents left).2))
    (hskipped : u ∈ skipped) (hu : isLineEnd u = false) (hswallowed : Mode.swallowed .text text ≠ []) :
    Follows data future text := by
  constructor
  case none => rw [htake]; exact h.none
  case skipped =>
    refine iff_of_false (fun hends => ?_) hswallowed
    rw [htake] at hends
    exact absurd (hends _ List.mem_cons_self u hskipped) (Bool.eq_false_iff.1 hu)
  case ended => exact fun hnothing => absurd hnothing hswallowed
  case mode => exact fun hnothing => absurd hnothing hswallowed
  case payloads => exact fun hnothing => absurd hnothing hswallowed

theorem mode_raw (hraw : Dense raw) (rest : Units) :
    Mode.swallowed .text (raw ++ rest) = Mode.swallowed .text rest
    ∧ Mode.after .text (raw ++ rest) = Mode.after .text rest := by
  obtain ⟨hafter, hswallowed⟩ := mode_dense hraw
  rw [Mode.swallowed_append, Mode.after_append, hswallowed, hafter, List.nil_append]
  exact ⟨rfl, rfl⟩

theorem takeEvents_follows (hnil : data [] = []) (hblank : ∀ lines, data ([] :: lines) = data lines)
    (text : Units) (hended : Ended (text ++ future)) : Follows data future text := by
  induction hlength : text.length using Nat.strongRecOn generalizing text with
  | ind length ih =>
      subst hlength
      obtain ⟨raw, tail, rfl, hraw, hcases⟩ := dense_cases text hended
      obtain ⟨hswallowed, hafter⟩ := mode_raw hraw tail
      rcases hcases with ⟨hnone, htail⟩ | ⟨hsome, boundary, rest, rfl, hboundary⟩
      case inl =>
        have htake := takeEvents_none hnone
        obtain ⟨hnothing, hmode⟩ := mode_tail tail htail
        constructor
        case none => rw [htake]; exact hnone
        case skipped =>
          rw [htake, hswallowed, hnothing]
          simp
        case ended => rw [htake]; exact fun _ => hended
        case mode => rw [htake, hafter, hmode]; exact fun _ => rfl
        case payloads => rw [htake]; exact fun _ => rfl
      case inr =>
        have hpayloads := payloadsWith_raw hnil hblank hboundary hraw (rest ++ future)
        have hrest : Ended (rest ++ future) := by
          have hboth : raw ++ (boundary ++ rest) ++ future
              = (raw ++ boundary) ++ (rest ++ future) := by simp
          rw [hboth] at hended
          exact hended.of_append
        have hshort : rest.length < (raw ++ (boundary ++ rest)).length := by
          cases hboundary <;> simp <;> omega
        simp only [← List.append_assoc] at hpayloads
        cases hboundary with
        | lf_lf =>
            refine (ih _ hshort rest hrest rfl).cons (takeEvents_raw hsome 2 rfl) ?_ ?_ ?_ ?_
            · simp [isLineEnd]
            · exact hswallowed
            · exact congrArg Mode.settled hafter
            · simpa using hpayloads
        | lf_crlf =>
            have hleft : (10 :: rest).length < (raw ++ ([10, 13, 10] ++ rest)).length := by simp; omega
            have hended' : Ended ((10 :: rest) ++ future) := by simpa [Ended] using hrest
            refine (ih _ hleft (10 :: rest) hended' rfl).cons (takeEvents_raw hsome 2 rfl) ?_ ?_ ?_ ?_
            · simp [isLineEnd]
            · exact hswallowed
            · exact congrArg Mode.settled hafter
            · simpa [payloadsWith_lf hnil] using hpayloads
        | crlf_crlf =>
            refine (ih _ hshort rest hrest rfl).cons (takeEvents_raw hsome 4 rfl) ?_ ?_ ?_ ?_
            · simp [isLineEnd]
            · exact hswallowed
            · exact congrArg Mode.settled hafter
            · simpa using hpayloads
        | crlf_lf =>
            rcases rest with _ | ⟨u, rest⟩
            case nil =>
              refine (ih _ hshort [] hrest rfl).cons (takeEvents_raw hsome 4 rfl) ?_ ?_ ?_ ?_
              · simp [isLineEnd]
              · exact hswallowed
              · exact (congrArg Mode.settled hafter).trans rfl
              · simpa using hpayloads
            case cons =>
              have hleft : rest.length < (raw ++ ([13, 10, 10] ++ u :: rest)).length := by simp; omega
              have hfollows := ih _ hleft rest hrest.2 rfl
              have htake := takeEvents_raw hsome 4 rfl
              rcases Bool.eq_false_or_eq_true (isLineEnd u) with hend | hunit
              case inr =>
                refine hfollows.swallow (u := u) htake (by simp) hunit ?_
                rw [hswallowed]
                simp [Mode.swallowed, Mode.next, hunit]
              case inl =>
                rcases (by simpa [isLineEnd] using hend : u = 10 ∨ u = 13) with rfl | rfl
                case inl =>
                  refine hfollows.cons htake ?_ hswallowed (congrArg Mode.settled hafter) ?_
                  · simp [isLineEnd]
                  · simpa [payloadsWith_lf hnil] using hpayloads
                case inr =>
                  have hnext : (rest ++ future).head? = some 10 := hrest.1 rfl
                  refine hfollows.cons htake ?_ hswallowed (congrArg Mode.settled hafter) ?_
                  · simp [isLineEnd]
                  · simpa [payloadsWith_cr hnil hnext] using hpayloads

/-- A buffer without a boundary has lost nothing. -/
theorem swallowed_none (hended : Ended (text ++ future)) (hnone : search text = none) :
    Mode.swallowed .text text = [] := by
  obtain ⟨raw, tail, rfl, hraw, hcases⟩ := dense_cases text hended
  rcases hcases with ⟨-, htail⟩ | ⟨hsome, -⟩
  · rw [(mode_raw hraw tail).1, (mode_tail tail htail).1]
  · rw [hnone] at hsome
    cases hsome

theorem readTexts_follows (hnil : data [] = []) (hblank : ∀ lines, data ([] :: lines) = data lines)
    (texts : List Units) {buffer : Units} (hended : Ended (buffer ++ texts.flatten))
    (hnone : search buffer = none) :
    ((∀ event ∈ readTexts buffer texts, ∀ u ∈ event.2, isLineEnd u = true)
      ↔ NothingSwallowed (Mode.after .text buffer) texts)
    ∧ (NothingSwallowed (Mode.after .text buffer) texts →
      payloadsWith data (buffer ++ texts.flatten) =
        (readTexts buffer texts).flatMap fun event => payloadOf data event.1) := by
  induction texts generalizing buffer with
  | nil =>
      rw [List.flatten_nil, List.append_nil] at hended ⊢
      exact ⟨iff_of_true nofun trivial, fun _ => payloadsWith_tail hnil hended hnone⟩
  | cons chunk texts ih =>
      rw [List.flatten_cons, ← List.append_assoc] at hended ⊢
      have hfollows := takeEvents_follows hnil hblank (buffer ++ chunk) hended
      have hswallowed : Mode.swallowed .text (buffer ++ chunk)
          = (Mode.after .text buffer).swallowed chunk := by
        rw [List.append_assoc] at hended
        rw [Mode.swallowed_append, swallowed_none hended hnone, List.nil_append]
      simp only [readTexts, NothingSwallowed, List.forall_mem_append, hfollows.skipped, hswallowed,
        List.flatMap_append, ← Mode.after_append]
      by_cases hnothing : (Mode.after .text buffer).swallowed chunk = []
      case neg =>
        exact ⟨iff_of_false (fun h => hnothing h.1) (fun h => hnothing h.1),
          fun h => absurd h.1 hnothing⟩
      case pos =>
        have hclean := hswallowed.trans hnothing
        obtain ⟨hiff, hpayloads⟩ := ih (hfollows.ended hclean) hfollows.none
        rw [hiff, hfollows.mode hclean]
        refine ⟨Iff.rfl, fun h => ?_⟩
        rw [hfollows.payloads hclean, hpayloads h.2]

end

/-! ## Data lines -/

section

variable {line : Units} {lines : List Units}

theorem field_colon (value : Units) : field (dataName ++ 58 :: value) = (dataName, dropSpace value) := by
  rfl

theorem startsData_iff : startsData line = true ↔ ∃ value, line = dataName ++ 58 :: value := by
  rw [startsData, List.isPrefixOf_iff_prefix]
  constructor
  case mp =>
    rintro ⟨value, rfl⟩
    exact ⟨value, by simp⟩
  case mpr =>
    rintro ⟨value, rfl⟩
    exact ⟨value, by simp⟩

/-- A data line has the name `data` and a colon, or is only the name. -/
theorem isData_iff : isData line = true ↔ line = dataName ∨ startsData line = true := by
  constructor
  case mp =>
    intro h
    rw [isData, beq_iff_eq, field] at h
    split at h
    case h_1 => exact .inl h
    case h_2 colon value hdrop =>
      have hcolon : colon = 58 := by
        have hhead := List.head?_dropWhile_not (fun u => decide (u ≠ 58)) line
        rw [hdrop] at hhead
        simpa using hhead
      subst hcolon
      change line.takeWhile (fun u => decide (u ≠ 58)) = dataName at h
      refine .inr (startsData_iff.2 ⟨value, ?_⟩)
      rw [← h, ← hdrop]
      exact List.takeWhile_append_dropWhile.symm
  case mpr =>
    rintro (rfl | hstarts)
    · rfl
    · obtain ⟨value, rfl⟩ := startsData_iff.1 hstarts
      rw [isData, field_colon, beq_self_eq_true]

theorem dataOf_nil : dataOf [] = [] := rfl

theorem dataOf_blank (lines : List Units) : dataOf ([] :: lines) = dataOf lines := rfl

/-- The driver reads the data lines that are not only the name. -/
theorem dataOf_eq (lines : List Units) : dataOf lines =
    [10].intercalate (((lines.filter isData).filter fun line => line ≠ dataName).map
      fun line => (field line).2) := by
  have hfilter : lines.filter startsData
      = (lines.filter isData).filter fun line => line ≠ dataName := by
    rw [List.filter_filter]
    refine List.filter_congr fun line _ => ?_
    rw [Bool.eq_iff_iff, Bool.and_eq_true, decide_eq_true_eq, isData_iff]
    constructor
    case mp =>
      intro hstarts
      refine ⟨?_, .inr hstarts⟩
      rintro rfl
      cases hstarts
    case mpr =>
      rintro ⟨hname, rfl | hstarts⟩
      · exact absurd rfl hname
      · exact hstarts
  rw [dataOf, hfilter]
  congr 1
  refine List.map_congr_left fun line hline => ?_
  rw [← hfilter] at hline
  obtain ⟨value, rfl⟩ := startsData_iff.1 (List.mem_filter.1 hline).2
  rw [field_colon]
  rfl

/-- Without the lines that are only the name nothing is missing, exactly if they are harmless. -/
theorem dataOf_of_harmless (h : BareHarmless lines) : dataOf lines = payload lines := by
  rw [dataOf_eq, payload]
  by_cases hbare : dataName ∈ lines
  case neg =>
    have hall : ∀ line ∈ lines.filter isData, decide (line ≠ dataName) = true := by
      intro line hline
      rw [decide_eq_true_eq]
      rintro rfl
      exact hbare (List.mem_of_mem_filter hline)
    rw [List.filter_eq_self.2 hall]
  case pos =>
    obtain ⟨only, honly⟩ := List.length_eq_one_iff.1 (h hbare)
    have hmem : dataName ∈ lines.filter isData := List.mem_filter.2 ⟨hbare, rfl⟩
    rw [honly, List.mem_singleton] at hmem
    rw [honly, ← hmem]
    rfl

theorem count_payload (hlines : ∀ line ∈ lines, 10 ∉ line) :
    (payload lines).count 10 = (lines.filter isData).length - 1
    ∧ (dataOf lines).count 10 =
      ((lines.filter isData).filter fun line => line ≠ dataName).length - 1 := by
  have hvalue : ∀ line ∈ lines, 10 ∉ (field line).2 :=
    fun line hline hmem => hlines line hline (field_subset line hmem)
  constructor
  case left =>
    rw [payload, count_intercalate, List.length_map]
    intro value hmem
    obtain ⟨line, hline, rfl⟩ := List.mem_map.1 hmem
    exact hvalue line (List.mem_of_mem_filter hline)
  case right =>
    rw [dataOf_eq, count_intercalate, List.length_map]
    intro value hmem
    obtain ⟨line, hline, rfl⟩ := List.mem_map.1 hmem
    exact hvalue line (List.mem_of_mem_filter (List.mem_of_mem_filter hline))

theorem count_dataOf_le (hlines : ∀ line ∈ lines, 10 ∉ line) :
    (dataOf lines).count 10 ≤ (payload lines).count 10 := by
  obtain ⟨hpayload, hdata⟩ := count_payload hlines
  have hle := List.length_filter_le (fun line => decide (line ≠ dataName)) (lines.filter isData)
  omega

theorem count_dataOf_lt (hlines : ∀ line ∈ lines, 10 ∉ line) (h : ¬ BareHarmless lines) :
    (dataOf lines).count 10 < (payload lines).count 10 := by
  obtain ⟨hpayload, hdata⟩ := count_payload hlines
  rw [BareHarmless, Classical.not_imp] at h
  obtain ⟨hbare, hmany⟩ := h
  have hmem : dataName ∈ lines.filter isData := List.mem_filter.2 ⟨hbare, rfl⟩
  have hpos := List.length_pos_of_mem hmem
  have hlt : ((lines.filter isData).filter fun line => line ≠ dataName).length
      < (lines.filter isData).length := by
    refine List.length_filter_lt_length_iff_exists.2 ⟨dataName, hmem, by simp⟩
  omega

/-- What is dropped has no line feeds. -/
theorem count_payloadsWith (data : List Units → Units) (text : Units) :
    ((payloadsWith data text).map (List.count 10)).sum =
      ((events text).map fun lines => (data lines).count 10).sum := by
  rw [payloadsWith]
  induction events text with
  | nil => rfl
  | cons lines events ih =>
      rw [List.map_cons, List.map_cons, List.sum_cons, List.filter_cons]
      split
      case isTrue => rw [List.map_cons, List.sum_cons, ih]
      case isFalse hnil =>
        rw [decide_eq_true_eq, ne_eq, Classical.not_not] at hnil
        rw [ih, hnil, List.count_nil, Nat.zero_add]

theorem payloads_eq_iff (text : Units) :
    payloadsWith dataOf text = payloads text ↔ ∀ lines ∈ events text, BareHarmless lines := by
  constructor
  case mp =>
    intro hsame lines hlines
    refine Classical.byContradiction fun hharm => ?_
    have hlt : ((events text).map fun lines => (dataOf lines).count 10).sum
        < ((events text).map fun lines => (payload lines).count 10).sum := by
      refine List.sum_lt_sum _ _ (fun event hevent => ?_) ⟨lines, hlines, ?_⟩
      · exact count_dataOf_le (events_lines text event hevent)
      · exact count_dataOf_lt (events_lines text lines hlines) hharm
    rw [← count_payloadsWith, ← count_payloadsWith, hsame] at hlt
    exact Nat.lt_irrefl _ hlt
  case mpr =>
    intro hharmless
    rw [payloads, payloadsWith, payloadsWith,
      List.map_congr_left fun lines hlines => dataOf_of_harmless (hharmless lines hlines)]

end

/-! ## The stream -/

section

theorem bodyText_within (decoder : TextDecoder) (bytes : Nat) (chunks : List (List UInt8))
    (h : bytes + chunks.flatten.length ≤ maxBytes) :
    bodyText decoder bytes chunks =
      ((decoder.decodeAll chunks).2.map replaced
        ++ (if replaced (decoder.decodeAll chunks).1.finish = [] then []
          else [replaced (decoder.decodeAll chunks).1.finish]), none) := by
  induction chunks generalizing decoder bytes with
  | nil => rfl
  | cons value chunks ih =>
      rw [List.flatten_cons, List.length_append] at h
      have hroom : ¬ maxBytes < bytes + value.length := by omega
      simp only [bodyText, if_neg hroom, TextDecoder.decodeAll]
      rw [ih _ _ (by omega)]
      rfl

theorem bodyText_beyond (decoder : TextDecoder) (bytes : Nat) (chunks : List (List UInt8))
    (hbytes : bytes ≤ maxBytes) (h : maxBytes < bytes + chunks.flatten.length) :
    (bodyText decoder bytes chunks).2 = some "model response exceeds 16 MiB" := by
  induction chunks generalizing decoder bytes with
  | nil => simp at h; omega
  | cons value chunks ih =>
      rw [List.flatten_cons, List.length_append] at h
      by_cases hroom : maxBytes < bytes + value.length
      case pos => simp only [bodyText, if_pos hroom]
      case neg =>
        simp only [bodyText, if_neg hroom]
        exact ih _ _ (by omega) (by omega)

/-- The text that each chunk completes. -/
def textsOf (chunks : List (List UInt8)) : List Units :=
  (TextDecoder.decodeAll {} chunks).2.map replaced

theorem textsOf_flatten {text : List Char} {chunks : List (List UInt8)}
    (hbytes : chunks.flatten = utf8 text) : (textsOf chunks).flatten = units (withoutMark text) := by
  rw [textsOf, replaced_flatten, (decodeAll_utf8 hbytes).1, replaced_map]

theorem bodyText_utf8 {text : List Char} {chunks : List (List UInt8)}
    (hbytes : chunks.flatten = utf8 text) (h : chunks.flatten.length ≤ maxBytes) :
    bodyText {} 0 chunks = (textsOf chunks, none) := by
  have hfinish : replaced (TextDecoder.decodeAll {} chunks).1.finish = [] := by
    rw [(decodeAll_utf8 hbytes).2]
    rfl
  rw [bodyText_within _ _ _ (by omega), if_pos hfinish, List.append_nil, textsOf]

theorem ended_withoutMark {text : List Char} (h : Ended (units text)) :
    Ended (units (withoutMark text)) := by
  cases text with
  | nil => exact h
  | cons c text =>
      rw [withoutMark]
      split
      · rw [units, List.flatMap_cons] at h
        exact h.of_append
      · exact h

theorem flatMap_payloadOf (events : List (Units × Units)) :
    events.flatMap (fun event => payloadOf dataOf event.1) =
      (events.map fun event => dataOf (splitLines [] event.1)).filter (· ≠ []) := by
  induction events with
  | nil => rfl
  | cons event events ih =>
      rw [List.flatMap_cons, ih, List.map_cons, ← List.singleton_append, List.filter_append, payloadOf]

/-- However a stream is cut, the driver yields the payloads the format defines and loses no
    text exactly if the stream is not too long, no text unit follows a blank line that is a
    CRLF and an LF in the chunk that completes it, and lines that are only `data` are
    harmless. -/
theorem events_split_iff (text : List Char) (chunks : List (List UInt8))
    (hbytes : chunks.flatten = utf8 text) (hends : Ended (units text)) :
    ((sseDataEvents chunks).error = none
      ∧ (sseDataEvents chunks).yields = payloads (units (withoutMark text))
      ∧ ∀ skipped ∈ (sseDataEvents chunks).skipped, ∀ u ∈ skipped, isLineEnd u = true)
    ↔ chunks.flatten.length ≤ maxBytes ∧ NothingSwallowed .text (textsOf chunks)
      ∧ ∀ lines ∈ events (units (withoutMark text)), BareHarmless lines := by
  by_cases hlength : chunks.flatten.length ≤ maxBytes
  case neg =>
    have herror := bodyText_beyond {} 0 chunks (Nat.zero_le _) (by omega)
    refine iff_of_false (fun h => ?_) fun h => hlength h.1
    have hnone : (bodyText {} 0 chunks).2 = none := h.1
    rw [herror] at hnone
    cases hnone
  case pos =>
    have htexts := textsOf_flatten hbytes
    have hended : Ended ([] ++ (textsOf chunks).flatten) := by
      rw [List.nil_append, htexts]
      exact ended_withoutMark hends
    obtain ⟨hskipped, hyields⟩ := readTexts_follows dataOf_nil dataOf_blank (textsOf chunks) hended rfl
    rw [List.nil_append, htexts, flatMap_payloadOf] at hyields
    simp only [sseDataEvents, bodyText_utf8 hbytes hlength, List.forall_mem_map, hskipped,
      true_and, hlength]
    constructor
    case mp =>
      rintro ⟨hsame, hnothing⟩
      exact ⟨hnothing, (payloads_eq_iff _).1 ((hyields hnothing).trans hsame)⟩
    case mpr =>
      rintro ⟨hnothing, hharmless⟩
      exact ⟨(hyields hnothing).symm.trans ((payloads_eq_iff _).2 hharmless), hnothing⟩

end

private def oneEvent : List Char := ['d', 'a', 't', 'a', ':', ' ', 'a', '\n', '\n']

theorem events_split_iff_oneEvent :
    ((sseDataEvents [utf8 oneEvent]).error = none
      ∧ (sseDataEvents [utf8 oneEvent]).yields = payloads (units (withoutMark oneEvent))
      ∧ ∀ skipped ∈ (sseDataEvents [utf8 oneEvent]).skipped, ∀ u ∈ skipped, isLineEnd u = true)
    ↔ [utf8 oneEvent].flatten.length ≤ maxBytes ∧ NothingSwallowed .text (textsOf [utf8 oneEvent])
      ∧ ∀ lines ∈ events (units (withoutMark oneEvent)), BareHarmless lines :=
  events_split_iff oneEvent [utf8 oneEvent] (by decide +kernel) (by decide +kernel)

/-- Two events, the first ended by a CRLF and an LF. -/
private def mixedEnds : List Char :=
  ['d', 'a', 't', 'a', ':', ' ', 'a', '\r', '\n', '\n', 'd', 'a', 't', 'a', ':', ' ', 'b', '\n', '\n']

private theorem mixedEnds_text : bodyText {} 0 [utf8 mixedEnds] = ([units mixedEnds], none)
    ∧ Ended (units mixedEnds) ∧ payloads (units (withoutMark mixedEnds)) = [[97], [98]] := by
  decide +kernel

/-- Where the two blank lines lie, and how far each is skipped. -/
private theorem mixedEnds_search :
    search (units mixedEnds) = some 7 ∧ skipLength (units mixedEnds) 7 = 4
    ∧ search ((units mixedEnds).drop 11) = some 6 ∧ skipLength ((units mixedEnds).drop 11) 6 = 2
    ∧ ((units mixedEnds).drop 11).drop 8 = [] := by
  decide +kernel

private theorem mixedEnds_taken : takeEvents (units mixedEnds)
    = ([([100, 97, 116, 97, 58, 32, 97], [13, 10, 10, 100]), ([97, 116, 97, 58, 32, 98], [10, 10])],
      []) := by
  obtain ⟨hfirst, hskip, hsecond, hskip', hlast⟩ := mixedEnds_search
  rw [takeEvents_some hfirst, hskip, takeEvents_some hsecond, hskip', hlast,
    @takeEvents_none [] rfl]
  rfl

/-- The first unit of the second event is skipped with the blank line before it, and the
    event is lost. -/
theorem event_swallowed :
    Ended (units mixedEnds)
    ∧ payloads (units (withoutMark mixedEnds)) = [[97], [98]]
    ∧ (sseDataEvents [utf8 mixedEnds]).yields = [[97]]
    ∧ (sseDataEvents [utf8 mixedEnds]).skipped = [[13, 10, 10, 100], [10, 10]]
    ∧ (sseDataEvents [utf8 mixedEnds]).error = none := by
  have hreading : sseDataEvents [utf8 mixedEnds]
      = ⟨[[97]], [[13, 10, 10, 100], [10, 10]], none⟩ := by
    rw [sseDataEvents, mixedEnds_text.1]
    simp only [readTexts, List.nil_append, mixedEnds_taken]
    decide +kernel
  rw [hreading]
  exact ⟨mixedEnds_text.2.1, mixedEnds_text.2.2, rfl, rfl, rfl⟩

end Sse

end LingxiOS
