-- SUMMARY: The event-stream format: lines, events and data payloads.
import Mathlib.Data.List.Basic

/-! # Event Streams

Text is a list of code units. A line ends at CRLF, LF or CR, an event at an empty line, and
an event that is not ended is dropped. The payload of an event is made of its `data` fields. -/

namespace EventStream

abbrev Units := List Nat

/-! ## The format -/

/-- The events of a stream as their lines, after those read so far. -/
def read : List Units → Units → Units → List (List Units)
  | _, _, [] => []
  | lines, line, 13 :: 10 :: rest =>
      if line = [] then lines :: read [] [] rest else read (lines ++ [line]) [] rest
  | lines, line, 13 :: rest =>
      if line = [] then lines :: read [] [] rest else read (lines ++ [line]) [] rest
  | lines, line, 10 :: rest =>
      if line = [] then lines :: read [] [] rest else read (lines ++ [line]) [] rest
  | lines, line, u :: rest => read lines (line ++ [u]) rest

def events (text : Units) : List (List Units) := read [] [] text

/-- The value of a field without the space it may start with. -/
def dropSpace : Units → Units
  | 32 :: value => value
  | value => value

/-- The name and the value of the field on a line. -/
def field (line : Units) : Units × Units :=
  match line.dropWhile (· ≠ 58) with
  | [] => (line, [])
  | _ :: value => (line.takeWhile (· ≠ 58), dropSpace value)

/-- The units of `data`. -/
def dataName : Units := [100, 97, 116, 97]

def isData (line : Units) : Bool := (field line).1 == dataName

def payload (lines : List Units) : Units :=
  [10].intercalate ((lines.filter isData).map fun line => (field line).2)

/-- What some function makes of the lines of each event, without the empty ones. -/
def payloadsWith (data : List Units → Units) (text : Units) : List Units :=
  ((events text).map data).filter (· ≠ [])

def payloads (text : Units) : List Units := payloadsWith payload text

/-! ## Line ends -/

def isLineEnd (u : Nat) : Bool := u == 10 || u == 13

/-- Every line ends at LF or at CRLF. -/
def Ended : Units → Prop
  | [] => True
  | u :: rest => (u = 13 → rest.head? = some 10) ∧ Ended rest

instance decidableEnded : (text : Units) → Decidable (Ended text)
  | [] => inferInstanceAs (Decidable True)
  | u :: rest =>
      have := decidableEnded rest
      inferInstanceAs (Decidable ((u = 13 → rest.head? = some 10) ∧ Ended rest))

section

variable {lines : List Units} {line rest : Units} {u : Nat}

theorem Ended.drop {text : Units} (h : Ended text) (n : Nat) : Ended (text.drop n) := by
  induction n generalizing text with
  | zero => exact h
  | succ n ih =>
      cases text with
      | nil => trivial
      | cons u text => exact ih h.2

theorem Ended.of_append {before after : Units} (h : Ended (before ++ after)) : Ended after := by
  simpa using h.drop before.length

theorem read_lf : read lines line (10 :: rest) =
    if line = [] then lines :: read [] [] rest else read (lines ++ [line]) [] rest := by
  rw [read]

theorem read_crlf : read lines line (13 :: 10 :: rest) =
    if line = [] then lines :: read [] [] rest else read (lines ++ [line]) [] rest := by
  rw [read]

theorem read_unit (h : isLineEnd u = false) :
    read lines line (u :: rest) = read lines (line ++ [u]) rest := by
  simp only [isLineEnd, Bool.or_eq_false_iff, beq_eq_false_iff_ne] at h
  rw [read]
  · exact fun _ hcr => absurd hcr h.2
  · exact h.2
  · exact h.1

end

/-! ## Blank lines -/

section

variable {data : List Units → Units} (hnil : data [] = [])

include hnil in
/-- A line end where an event starts changes nothing. -/
theorem payloadsWith_lf (rest : Units) : payloadsWith data (10 :: rest) = payloadsWith data rest := by
  simp [payloadsWith, events, read_lf, hnil]

include hnil in
theorem payloadsWith_crlf (rest : Units) :
    payloadsWith data (13 :: 10 :: rest) = payloadsWith data rest := by
  simp [payloadsWith, events, read_crlf, hnil]

include hnil in
/-- The first half of a line end changes nothing either. -/
theorem payloadsWith_cr {rest : Units} (h : rest.head? = some 10) :
    payloadsWith data (13 :: rest) = payloadsWith data rest := by
  obtain ⟨rest, rfl⟩ := List.head?_eq_some_iff.1 h
  rw [payloadsWith_crlf hnil, payloadsWith_lf hnil]

end

/-! ## The units of a payload -/

/-- No line of the events has a line feed. -/
def Lines (events : List (List Units)) : Prop := ∀ event ∈ events, ∀ line ∈ event, 10 ∉ line

theorem lines_cons {lines : List Units} {rest : List (List Units)} (hlines : ∀ l ∈ lines, 10 ∉ l)
    (hrest : Lines rest) : Lines (lines :: rest) := by
  intro event hevent
  rcases List.mem_cons.1 hevent with rfl | hlater
  · exact hlines
  · exact hrest event hlater

theorem read_lines (lines : List Units) (line text : Units) (hlines : ∀ l ∈ lines, 10 ∉ l)
    (hline : 10 ∉ line) : Lines (read lines line text) := by
  have hmore {lines : List Units} {line : Units} (hlines : ∀ l ∈ lines, 10 ∉ l) (hline : 10 ∉ line) :
      ∀ l ∈ lines ++ [line], 10 ∉ l := by
    intro l hl
    rcases List.mem_append.1 hl with hold | hnew
    · exact hlines l hold
    · exact List.mem_singleton.1 hnew ▸ hline
  fun_induction read lines line text with
  | case1 => nofun
  | case2 lines rest ih => exact lines_cons hlines (ih nofun nofun)
  | case3 lines line rest hnew ih => exact ih (hmore hlines hline) nofun
  | case4 lines rest hcr ih => exact lines_cons hlines (ih nofun nofun)
  | case5 lines line rest hcr hnew ih => exact ih (hmore hlines hline) nofun
  | case6 lines rest ih => exact lines_cons hlines (ih nofun nofun)
  | case7 lines line rest hnew ih => exact ih (hmore hlines hline) nofun
  | case8 lines line u rest hcrlf hcr hlf ih =>
      refine ih hlines fun hmem => ?_
      rcases List.mem_append.1 hmem with hold | hnew
      · exact hline hold
      · exact hlf (List.mem_singleton.1 hnew).symm

theorem events_lines (text : Units) : Lines (events text) :=
  read_lines [] [] text nofun nofun

/-- Between the values stand the line feeds. -/
theorem count_intercalate {values : List Units} (h : ∀ value ∈ values, 10 ∉ value) :
    ([10].intercalate values).count 10 = values.length - 1 := by
  induction values with
  | nil => rfl
  | cons value values ih =>
      have hvalue : value.count 10 = 0 := List.count_eq_zero.2 (h value List.mem_cons_self)
      have hvalues := ih fun other hother => h other (List.mem_cons_of_mem _ hother)
      cases values with
      | nil => simpa using hvalue
      | cons other values =>
          rw [List.intercalate_cons_cons]
          simp only [List.count_append, hvalue, hvalues, List.length_cons]
          simp
          omega

/-- The units of a field are those of its line. -/
theorem field_subset (line : Units) : (field line).2 ⊆ line := by
  unfold field
  split
  case h_1 => exact List.nil_subset _
  case h_2 value hvalue =>
    have hsub : value ⊆ line := fun u hu =>
      (List.dropWhile_suffix _).subset (hvalue ▸ List.mem_cons_of_mem _ hu)
    refine List.Subset.trans ?_ hsub
    unfold dropSpace
    split
    · exact List.subset_cons_self _ _
    · exact List.Subset.refl _

end EventStream
