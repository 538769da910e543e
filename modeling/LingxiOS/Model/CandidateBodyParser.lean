-- SUMMARY: The streaming parser of a candidate answer.
import LingxiOS.Base.JsonGrammar
import LingxiOS.Base.TextCoding
import LingxiOS.Protocol.Stringify

/-! # Candidate Body Parser

The model writes its answer as a JSON object, and while the object streams in only the text
of its `body` is shown. The parser takes chunks of code units and reads each chunk character
by character, so a pair that a cut divides arrives as two characters. -/

namespace LingxiOS

open JsonText (Units parse)
open TextCoding (isHigh isLow characters)
open Stringify (isWhiteSpace)

namespace CandidateBodyParser

inductive State where
  | start | key | colon | value | body | skip | separator | done | invalid
  deriving DecidableEq

/-- The fields of a parser but its `size`. -/
structure Fields where
  state : State := .start
  token : Units := []
  key : Units := []
  quoted : Bool := false
  escaped : Bool := false
  depth : Int := 0
  keys : List Units := []
  escape : Units := []
  highSurrogate : Units := []
  deriving DecidableEq

/-- `body`, `status`, `checks`, `gaps` and `taskRef`. -/
def bodyKey : Units := [98, 111, 100, 121]
def knownKeys : List Units :=
  [bodyKey, [115, 116, 97, 116, 117, 115], [99, 104, 101, 99, 107, 115], [103, 97, 112, 115],
    [116, 97, 115, 107, 82, 101, 102]]

/-- `JSON.parse(token) as string`; every token parsed so starts with a quote. -/
def parseString (token : Units) : Except String Units :=
  match parse token with
  | some (.str text) => .ok text
  | _ => .error "SyntaxError"

/-! ## Characters -/

/-- One character appended: the half of a pair held back, and the output. -/
def appendChar (highSurrogate char : Units) : Units × Units :=
  if highSurrogate ≠ [] then ([], highSurrogate ++ char)
  else if char.length = 1 ∧ char.all isHigh then (char, [])
  else ([], char)

def appendAll (highSurrogate : Units) : List Units → Units × Units
  | [] => (highSurrogate, [])
  | char :: chars =>
      let r := appendChar highSurrogate char
      ((appendAll r.1 chars).1, r.2 ++ (appendAll r.1 chars).2)

def append (highSurrogate text : Units) : Units × Units :=
  appendAll highSurrogate (characters text)

/-- An escape that takes more characters. -/
def unfinished (escape : Units) : Bool :=
  escape == [92, 117] || ([92, 117].isPrefixOf escape && escape.length < 6)

/-- A character inside the body. -/
def readBody (p : Fields) (char : Units) : Except String (Fields × Units) :=
  if p.escape ≠ [] then
    let escape := p.escape ++ char
    if unfinished escape then .ok ({ p with escape }, [])
    else do
      let text ← parseString (34 :: escape ++ [34])
      let r := append p.highSurrogate text
      .ok ({ p with escape := [], highSurrogate := r.1 }, r.2)
  else if char = [92] then .ok ({ p with escape := char }, [])
  else if char = [34] then
    if p.highSurrogate ≠ [] then .error "unfinished surrogate"
    else .ok ({ p with state := .separator }, [])
  else if char.head?.any (· < 32) then .error "unescaped control"
  else
    let r := append p.highSurrogate char
    .ok ({ p with highSurrogate := r.1 }, r.2)

/-- A character before or inside a key. -/
def readKey (p : Fields) (char : Units) : Except String Fields :=
  if p.token = [] ∧ char.any isWhiteSpace then .ok p
  else if p.token = [] ∧ char ≠ [34] then .error "expected key"
  else
    let token := p.token ++ char
    if token.length = 1 then .ok { p with token }
    else if p.escaped then .ok { p with token, escaped := false }
    else if char = [92] then .ok { p with token, escaped := true }
    else if char ≠ [34] then .ok { p with token }
    else do
      let key ← parseString token
      if key ∉ knownKeys ∨ key ∈ p.keys then .error "unknown or repeated key"
      else .ok { p with key, keys := p.keys ++ [key], token := [], state := .colon }

/-- Where a character leaves the quotes and the nesting of a skipped value. -/
def skipMarks (p : Fields) (char : Units) : Fields :=
  if p.quoted then
    if p.escaped then { p with escaped := false }
    else if char = [92] then { p with escaped := true }
    else if char = [34] then { p with quoted := false }
    else p
  else if char = [34] then { p with quoted := true }
  else if char = [123] ∨ char = [91] then { p with depth := p.depth + 1 }
  else if char = [125] ∨ char = [93] then { p with depth := p.depth - 1 }
  else p

/-- A character of a value that is not shown, or after it. -/
def readSkip (p : Fields) (char : Units) : Except String Fields :=
  if ¬p.quoted ∧ p.depth = 0 ∧ (char = [44] ∨ char = [125]) then
    if (parse p.token).isNone then .error "SyntaxError"
    else .ok { p with token := [], state := if char = [44] then .key else .done }
  else
    let p := skipMarks { p with token := p.token ++ char } char
    if p.depth < 0 then .error "invalid nesting" else .ok p

/-- A character between the parts of the object. -/
def readMark (p : Fields) (char : Units) : Except String Fields :=
  if char.any isWhiteSpace then .ok p
  else if p.state = .start ∧ char = [123] then .ok { p with state := .key }
  else if p.state = .colon ∧ char = [58] then .ok { p with state := .value }
  else if p.state = .value then
    if p.key = bodyKey then
      if char ≠ [34] then .error "body must be text" else .ok { p with state := .body }
    else
      .ok { p with
        token := char
        quoted := decide (char = [34])
        depth := if char = [123] ∨ char = [91] then 1 else 0
        state := .skip }
  else if p.state = .separator ∧ char = [44] then .ok { p with state := .key }
  else if p.state = .separator ∧ char = [125] then .ok { p with state := .done }
  else .error "invalid candidate JSON"

/-- One turn of the loop over a chunk. -/
def step (p : Fields) (char : Units) : Except String (Fields × Units) :=
  match p.state with
  | .invalid => .ok (p, [])
  | .body => readBody p char
  | .key => (readKey p char).map (·, [])
  | .skip => (readSkip p char).map (·, [])
  | _ => (readMark p char).map (·, [])

def read (p : Fields) : List Units → Except String (Fields × Units)
  | [] => .ok (p, [])
  | char :: chars => do
      let r ← step p char
      let q ← read r.1 chars
      .ok (q.1, r.2 ++ q.2)

end CandidateBodyParser

structure CandidateBodyParser extends CandidateBodyParser.Fields where
  size : Nat := 0

namespace CandidateBodyParser

def maxSize : Nat := 256000

variable (parser : CandidateBodyParser)

def invalid : Bool := decide (parser.state = .invalid)

def complete : Bool := decide (parser.state = .done ∧ bodyKey ∈ parser.keys)

/-- What is thrown while a chunk is read is caught; an invalid parser keeps only its state. -/
def push (chunk : Units) : CandidateBodyParser × Units :=
  let size := parser.size + chunk.length
  if maxSize < size then ({ parser with size, state := .invalid }, [])
  else
    match read parser.toFields (characters chunk) with
    | .ok r => ({ toFields := r.1, size }, r.2)
    | .error _ => ({ parser with size, state := .invalid }, [])

/-- A run over chunks, with what each push returns. -/
def pushAll (parser : CandidateBodyParser) : List Units → CandidateBodyParser × List Units
  | [] => (parser, [])
  | chunk :: chunks =>
      ((pushAll (parser.push chunk).1 chunks).1,
        (parser.push chunk).2 :: (pushAll (parser.push chunk).1 chunks).2)

/-! ## Halves of pairs -/

variable {p : Fields} {u w : Nat} {text rest : Units}

theorem parseString_quote (text : Units) : parseString (34 :: text)
    = match JsonText.readString text with
      | some r => if JsonText.skipSpace r.2 = [] then .ok r.1 else .error "SyntaxError"
      | none => .error "SyntaxError" := by
  rw [parseString, JsonText.parse_quote]
  cases JsonText.readString text with
  | none => rfl
  | some r =>
      by_cases hrest : JsonText.skipSpace r.2 = []
      case pos => simp [hrest]
      case neg => simp [hrest]

/-- An escape as it is between two characters of the body. -/
inductive Escaping : Units → Prop
  | idle : Escaping []
  | begun : Escaping [92]
  | digits (hex : Units) (h : hex.length < 4) : Escaping (92 :: 117 :: hex)

/-- Half of a pair is none of the characters the parser looks for. -/
structure Half (u : Nat) : Prop where
  white : isWhiteSpace u = false
  quote : u ≠ 34
  backslash : u ≠ 92
  comma : u ≠ 44
  colon : u ≠ 58
  curly : u ≠ 123
  square : u ≠ 91
  uncurly : u ≠ 125
  unsquare : u ≠ 93
  printed : ¬u < 32
  letter : u ≠ 117
  hex : JsonText.hexDigit? u = none
  short : JsonText.shortEscape? u = none

theorem half_of_bounds (hlow : 0xD800 ≤ u) (hhigh : u < 0xE000) : Half u where
  white := by simp [isWhiteSpace]; omega
  quote := by omega
  backslash := by omega
  comma := by omega
  colon := by omega
  curly := by omega
  square := by omega
  uncurly := by omega
  unsquare := by omega
  printed := by omega
  letter := by omega
  hex := by
    rw [JsonText.hexDigit?, if_neg (by omega), if_neg (by omega), if_neg (by omega)]
  short := by
    simp only [JsonText.shortEscape?]
    repeat rw [if_neg (by omega)]

theorem half_of_high (h : isHigh u = true) : Half u := by
  simp only [isHigh, Bool.and_eq_true, decide_eq_true_eq] at h
  exact half_of_bounds h.1 (by omega)

theorem half_of_low (h : isLow u = true) : Half u := by
  simp only [isLow, Bool.and_eq_true, decide_eq_true_eq] at h
  exact half_of_bounds (by omega) h.2

theorem not_high_of_low (h : isLow u = true) : isHigh u = false := by
  simp only [isLow, Bool.and_eq_true, decide_eq_true_eq] at h
  simp only [isHigh, Bool.and_eq_false_iff, decide_eq_false_iff_not]
  omega

theorem unfinished_iff {escape : Units} :
    unfinished escape = true ↔ ∃ hex, escape = 92 :: 117 :: hex ∧ hex.length < 4 := by
  match escape with
  | [] => simp [unfinished]
  | [a] => simp [unfinished, List.isPrefixOf]
  | a :: b :: hex =>
      simp only [unfinished, List.isPrefixOf, Bool.or_eq_true, beq_iff_eq, Bool.and_eq_true,
        decide_eq_true_eq, List.cons.injEq, List.length_cons]
      constructor
      · rintro (⟨rfl, rfl, rfl⟩ | ⟨⟨rfl, rfl, -⟩, hlength⟩)
        · exact ⟨[], ⟨rfl, rfl, rfl⟩, Nat.succ_pos _⟩
        · exact ⟨hex, ⟨rfl, rfl, rfl⟩, by omega⟩
      · rintro ⟨hex', ⟨rfl, rfl, rfl⟩, hlength⟩
        exact .inr ⟨⟨rfl, rfl, trivial⟩, by omega⟩

/-- An escape with half a pair in it is no escape once it is finished. -/
theorem parseString_half {escape : Units} (h : Escaping escape) (hne : escape ≠ []) (hu : Half u)
    (hfinished : ¬unfinished (escape ++ [u])) (rest : Units) :
    ¬unfinished (escape ++ u :: rest)
      ∧ parseString (34 :: (escape ++ u :: rest) ++ [34]) = .error "SyntaxError" := by
  cases h with
  | idle => exact absurd rfl hne
  | begun =>
      constructor
      · simp [unfinished_iff, hu.letter]
      · simp [parseString_quote, JsonText.readString, hu.letter, hu.short]
  | digits hex hlength =>
      have hfour : hex.length = 3 := by
        simp [unfinished_iff] at hfinished
        omega
      obtain ⟨a, b, c, rfl⟩ := List.length_eq_three.1 hfour
      constructor
      · simp [unfinished_iff]
      · simp [parseString_quote, JsonText.readString, JsonText.readHex, hu.hex]

/-! ## What one character does -/

theorem readBody_escape {char : Units} (hescape : p.escape ≠ []) :
    readBody p char
      = if unfinished (p.escape ++ char) then .ok ({ p with escape := p.escape ++ char }, [])
        else (parseString (34 :: (p.escape ++ char) ++ [34])).map fun text =>
          ({ p with escape := [], highSurrogate := (append p.highSurrogate text).1 },
            (append p.highSurrogate text).2) := by
  simp only [readBody, if_pos hescape]
  rfl

theorem readBody_plain {char : Units} (hescape : p.escape = []) (hbackslash : char ≠ [92])
    (hquote : char ≠ [34]) (hprinted : char.head?.any (· < 32) = false) :
    readBody p char = .ok ({ p with highSurrogate := (append p.highSurrogate char).1 },
      (append p.highSurrogate char).2) := by
  simp [readBody, hescape, hbackslash, hquote, hprinted]

/-! ## A pair is read like its halves -/

theorem append_pair (highSurrogate : Units) (hu : isHigh u = true) (hw : isLow w = true) :
    append highSurrogate [u, w]
      = ((append (append highSurrogate [u]).1 [w]).1,
        (append highSurrogate [u]).2 ++ (append (append highSurrogate [u]).1 [w]).2) := by
  have hlow := not_high_of_low hw
  by_cases hheld : highSurrogate = []
  case pos => simp [append, appendAll, appendChar, characters, hheld, hu, hw]
  case neg => simp [append, appendAll, appendChar, characters, hheld, hu, hw, hlow]

theorem readBody_pair (hp : Escaping p.escape) (hu : isHigh u = true) (hw : isLow w = true) :
    readBody p [u, w]
      = (readBody p [u]).bind fun r => (readBody r.1 [w]).map fun q => (q.1, r.2 ++ q.2) := by
  have hhigh := half_of_high hu
  have hlow := half_of_low hw
  by_cases hescape : p.escape = []
  case pos =>
    rw [readBody_plain hescape (by simp) (by simp) (by simpa using hhigh.printed),
      readBody_plain hescape (by simpa using hhigh.backslash) (by simpa using hhigh.quote)
        (by simpa using hhigh.printed), append_pair _ hu hw]
    simp only [Except.bind]
    rw [readBody_plain (by exact hescape) (by simpa using hlow.backslash)
      (by simpa using hlow.quote) (by simpa using hlow.printed)]
    rfl
  case neg =>
    by_cases hopen : unfinished (p.escape ++ [u])
    case pos =>
      rw [readBody_escape hescape, readBody_escape hescape, if_pos hopen]
      simp only [Except.bind]
      rw [readBody_escape (by simp)]
      simp only [List.append_assoc, List.cons_append, List.nil_append]
      split
      · rfl
      · cases parseString (34 :: (p.escape ++ [u, w, 34])) <;> rfl
    case neg =>
      obtain ⟨-, hfirst⟩ := parseString_half hp hescape hhigh hopen []
      obtain ⟨hboth, hsecond⟩ := parseString_half hp hescape hhigh hopen [w]
      rw [readBody_escape hescape, readBody_escape hescape, if_neg hopen, if_neg hboth, hfirst,
        hsecond]
      rfl

theorem readKey_pair (hu : Half u) (hw : Half w) :
    readKey p [u, w] = (readKey p [u]).bind fun q => readKey q [w] := by
  by_cases htoken : p.token = []
  case pos => simp [readKey, htoken, hu.white, hw.white, hu.quote, Except.bind]
  case neg =>
    by_cases hescaped : p.escaped
    case pos => simp [readKey, htoken, hescaped, hw.backslash, hw.quote, Except.bind]
    case neg =>
      simp [readKey, htoken, hescaped, hu.backslash, hu.quote, hw.backslash, hw.quote, Except.bind]

/-- A character that is none of the marks of a skipped value. -/
theorem readSkip_plain {char : Units} (h : ∀ u ∈ [34, 92, 44, 91, 93, 123, 125], char ≠ [u]) :
    readSkip p char
      = if p.depth < 0 then .error "invalid nesting"
        else .ok { p with token := p.token ++ char, escaped := p.escaped && !p.quoted } := by
  simp only [List.forall_mem_cons, List.not_mem_nil, false_imp_iff, implies_true, and_true] at h
  obtain ⟨h34, h92, h44, h91, h93, h123, h125⟩ := h
  cases hquoted : p.quoted with
  | false => simp [readSkip, skipMarks, *]
  | true => cases hescaped : p.escaped <;> simp [readSkip, skipMarks, *]

theorem Half.ne_mark (hu : Half u) : ∀ v ∈ [34, 92, 44, 91, 93, 123, 125], [u] ≠ [v] := by
  simp [hu.quote, hu.backslash, hu.comma, hu.square, hu.unsquare, hu.curly, hu.uncurly]

theorem readSkip_pair (hu : Half u) (hw : Half w) :
    readSkip p [u, w] = (readSkip p [u]).bind fun q => readSkip q [w] := by
  rw [readSkip_plain (by simp), readSkip_plain hu.ne_mark]
  by_cases hdepth : p.depth < 0
  case pos => simp [hdepth, Except.bind]
  case neg =>
    simp only [hdepth, if_false, Except.bind]
    rw [readSkip_plain hw.ne_mark]
    simp [hdepth]

theorem readBody_state (hu : Half u) {r : Fields × Units} (h : readBody p [u] = .ok r) :
    r.1.state = p.state := by
  by_cases hescape : p.escape = []
  case pos =>
    rw [readBody_plain hescape (by simpa using hu.backslash) (by simpa using hu.quote)
      (by simpa using hu.printed)] at h
    cases h
    rfl
  case neg =>
    rw [readBody_escape hescape] at h
    split at h
    · cases h
      rfl
    · cases htext : parseString (34 :: (p.escape ++ [u]) ++ [34]) with
      | error e => rw [htext] at h; cases h
      | ok text => rw [htext] at h; cases h; rfl

theorem readKey_state (hu : Half u) {q : Fields} (h : readKey p [u] = .ok q) :
    q.state = p.state := by
  by_cases htoken : p.token = []
  case pos => simp [readKey, htoken, hu.white, hu.quote] at h
  case neg =>
    cases hescaped : p.escaped with
    | false =>
        simp only [readKey, htoken, hescaped, List.length_append] at h
        simp [hu.backslash, hu.quote, htoken] at h
        rw [← h]
    | true =>
        simp [readKey, htoken, hescaped] at h
        rw [← h]

theorem bind_congr_ok {ε α β : Type} {x : Except ε α} {f g : α → Except ε β}
    (h : ∀ a, x = .ok a → f a = g a) : x.bind f = x.bind g := by
  cases x with
  | error e => rfl
  | ok a => exact h a rfl

/-- Reading a pair at once is reading its halves one after the other. -/
theorem step_pair (hp : Escaping p.escape) (hu : isHigh u = true) (hw : isLow w = true) :
    step p [u, w] = (step p [u]).bind fun r => (step r.1 [w]).map fun q => (q.1, r.2 ++ q.2) := by
  have hhigh := half_of_high hu
  have hlow := half_of_low hw
  cases hstate : p.state with
  | invalid => simp [step, hstate, Except.bind, Except.map]
  | body =>
      have hstep (char : Units) : step p char = readBody p char := by simp only [step, hstate]
      rw [hstep, hstep, readBody_pair hp hu hw]
      refine bind_congr_ok fun r hr => ?_
      simp only [step, readBody_state hhigh hr, hstate]
  | key =>
      have hstep (char : Units) : step p char = (readKey p char).map (·, []) := by
        simp only [step, hstate]
      rw [hstep, hstep, readKey_pair hhigh hlow]
      cases hr : readKey p [u] with
      | error e => rfl
      | ok q =>
          simp only [Except.bind, Except.map, step, readKey_state hhigh hr, hstate]
          cases readKey q [w] <;> rfl
  | skip =>
      have hstep (char : Units) : step p char = (readSkip p char).map (·, []) := by
        simp only [step, hstate]
      rw [hstep, hstep, readSkip_pair hhigh hlow]
      cases hr : readSkip p [u] with
      | error e => rfl
      | ok q =>
          rw [readSkip_plain hhigh.ne_mark] at hr
          have hq : q.state = p.state := by split at hr <;> cases hr; rfl
          simp only [Except.bind, Except.map, step, hq, hstate]
          cases readSkip q [w] <;> rfl
  | value =>
      by_cases hkey : p.key = bodyKey
      case pos =>
        simp [step, hstate, readMark, hhigh.white, hlow.white, hkey, hhigh.quote, Except.map,
          Except.bind]
      case neg =>
        have hsecond := readSkip_plain (p := { p with
          token := [u], quoted := false, depth := 0, state := .skip }) hlow.ne_mark
        simp [step, hstate, readMark, hhigh.white, hlow.white, hkey, hhigh.quote, hhigh.curly,
          hhigh.square, Except.map, Except.bind, hsecond]
  | start | colon | separator | done =>
      simp [step, hstate, readMark, hhigh.white, hlow.white, hhigh.curly, hhigh.colon,
        hhigh.comma, hhigh.uncurly, Except.map, Except.bind]

/-! ## Unit by unit -/

/-- Reading a text whose pairs are all divided. -/
def readUnits (p : Fields) (text : Units) : Except String (Fields × Units) :=
  read p (text.map ([·]))

theorem readUnits_cons (p : Fields) (u : Nat) (text : Units) :
    readUnits p (u :: text)
      = (step p [u]).bind fun r => (readUnits r.1 text).map fun q => (q.1, r.2 ++ q.2) := by
  simp only [readUnits, List.map_cons, read]
  refine bind_congr_ok fun r _ => ?_
  cases read r.1 (text.map ([·])) <;> rfl

theorem readUnits_append (p : Fields) (text more : Units) :
    readUnits p (text ++ more)
      = (readUnits p text).bind fun r => (readUnits r.1 more).map fun q => (q.1, r.2 ++ q.2) := by
  induction text generalizing p with
  | nil =>
      show readUnits p more = (readUnits p more).map fun q => (q.1, [] ++ q.2)
      cases readUnits p more <;> rfl
  | cons u text ih =>
      rw [List.cons_append, readUnits_cons, readUnits_cons]
      cases step p [u] with
      | error e => rfl
      | ok r =>
          simp only [Except.bind, ih]
          cases readUnits r.1 text with
          | error e => rfl
          | ok q =>
              simp only [Except.map]
              cases readUnits q.1 more with
              | error e => rfl
              | ok q' => simp

/-- A parser between two characters that are read one unit at a time. -/
structure Live (p : Fields) : Prop where
  valid : p.state ≠ .invalid
  escaping : Escaping p.escape

theorem readBody_live (hp : Live p) {r : Fields × Units} (h : readBody p [u] = .ok r) :
    Live r.1 := by
  by_cases hescape : p.escape = []
  case pos =>
    simp only [readBody, hescape, ne_eq, not_true_eq_false, if_false] at h
    split_ifs at h <;> cases h
    · exact ⟨hp.valid, by rename_i h92; rw [h92]; exact .begun⟩
    · exact ⟨State.noConfusion, .idle⟩
    · exact ⟨hp.valid, .idle⟩
  case neg =>
    rw [readBody_escape hescape] at h
    split at h
    case isTrue hopen =>
      cases h
      obtain ⟨hex, hhex, hlength⟩ := unfinished_iff.1 hopen
      exact ⟨hp.valid, by simp only [hhex]; exact .digits hex hlength⟩
    case isFalse =>
      cases htext : parseString (34 :: (p.escape ++ [u]) ++ [34]) with
      | error e => rw [htext] at h; cases h
      | ok text => rw [htext] at h; cases h; exact ⟨hp.valid, .idle⟩

theorem readKey_live (hp : Live p) {q : Fields} (h : readKey p [u] = .ok q) : Live q := by
  simp only [readKey] at h
  cases hkey : parseString (p.token ++ [u]) with
  | error e =>
      simp only [hkey, bind, Except.bind] at h
      grind [Live]
  | ok key =>
      simp only [hkey, bind, Except.bind] at h
      grind [Live]

theorem readSkip_live (hp : Live p) {q : Fields} (h : readSkip p [u] = .ok q) : Live q := by
  simp only [readSkip, skipMarks] at h
  grind [Live]

theorem readMark_live (hp : Live p) {q : Fields} (h : readMark p [u] = .ok q) : Live q := by
  simp only [readMark] at h
  grind [Live]

theorem step_live (hp : Live p) {r : Fields × Units} (h : step p [u] = .ok r) : Live r.1 := by
  have hmap {x : Except String Fields} (hx : ∀ q, x = .ok q → Live q)
      (h : x.map (·, ([] : Units)) = .ok r) : Live r.1 := by
    cases x with
    | error e => cases h
    | ok q => cases h; exact hx q rfl
  cases hstate : p.state with
  | invalid => exact absurd hstate hp.valid
  | body => exact readBody_live hp (by simpa only [step, hstate] using h)
  | key => exact hmap (fun q => readKey_live hp) (by simpa only [step, hstate] using h)
  | skip => exact hmap (fun q => readSkip_live hp) (by simpa only [step, hstate] using h)
  | start | colon | value | separator | done =>
      exact hmap (fun q => readMark_live hp) (by simpa only [step, hstate] using h)

theorem readUnits_live (hp : Live p) {r : Fields × Units} (h : readUnits p text = .ok r) :
    Live r.1 := by
  induction text generalizing p r with
  | nil => cases h; exact hp
  | cons u text ih =>
      rw [readUnits_cons] at h
      cases hstep : step p [u] with
      | error e => rw [hstep] at h; cases h
      | ok q =>
          rw [hstep] at h
          cases hrest : readUnits q.1 text with
          | error e => simp only [Except.bind, hrest] at h; cases h
          | ok q' =>
              have hlive : Live q'.1 := ih (step_live hp hstep) hrest
              simp only [Except.bind, hrest] at h
              cases h
              exact hlive

/-- However pairs are divided, the text is read unit by unit. -/
theorem read_characters (hp : Live p) (text : Units) :
    read p (characters text) = readUnits p text := by
  have hcons (p : Fields) (char : Units) (chars : List Units) : read p (char :: chars)
      = (step p char).bind fun r => (read r.1 chars).map fun q => (q.1, r.2 ++ q.2) := by
    rw [read]
    refine bind_congr_ok fun r _ => ?_
    cases read r.1 chars <;> rfl
  induction text using TextCoding.characters.induct generalizing p with
  | case1 => rfl
  | case2 u => rfl
  | case3 u w rest hpair ih =>
      obtain ⟨hu, hw⟩ := Bool.and_eq_true_iff.1 hpair
      rw [characters, if_pos hpair, hcons, step_pair hp.escaping hu hw, readUnits_cons]
      cases hfirst : step p [u] with
      | error e => rfl
      | ok r =>
          simp only [Except.bind, readUnits_cons]
          cases hsecond : step r.1 [w] with
          | error e => rfl
          | ok q =>
              have hlive : Live q.1 := step_live (step_live hp hfirst) hsecond
              simp only [Except.map, ih hlive]
              cases readUnits q.1 rest with
              | error e => rfl
              | ok q' => simp
  | case4 u w rest hpair ih =>
      rw [characters, if_neg hpair, hcons, readUnits_cons]
      refine bind_congr_ok fun r hr => ?_
      rw [ih (step_live hp hr)]

/-! ## Chunk by chunk -/

variable {parser : CandidateBodyParser} {chunk : Units} {chunks : List Units}

theorem push_invalid (h : parser.state = .invalid) (chunk : Units) :
    (parser.push chunk).1.state = .invalid ∧ (parser.push chunk).2 = [] := by
  have hread (chars : List Units) : read parser.toFields chars = .ok (parser.toFields, []) := by
    induction chars with
    | nil => rfl
    | cons char chars ih =>
        have hstep : step parser.toFields char = .ok (parser.toFields, []) := by
          simp only [step, h]
        rw [read, hstep]
        show (read parser.toFields chars >>= _) = _
        rw [ih]
        rfl
  simp only [push, hread]
  split
  · exact ⟨rfl, rfl⟩
  · exact ⟨h, rfl⟩

theorem pushAll_invalid (h : parser.state = .invalid) (chunks : List Units) :
    (parser.pushAll chunks).1.state = .invalid ∧ (parser.pushAll chunks).2.flatten = [] := by
  induction chunks generalizing parser with
  | nil => exact ⟨h, rfl⟩
  | cons chunk chunks ih =>
      obtain ⟨hstate, hnone⟩ := push_invalid h chunk
      obtain ⟨hstate', hnone'⟩ := ih hstate
      exact ⟨hstate', by simp [pushAll, hnone, hnone']⟩

theorem push_eq (hp : Live parser.toFields) (hsize : parser.size + chunk.length ≤ maxSize) :
    parser.push chunk = match readUnits parser.toFields chunk with
      | .ok r => ({ toFields := r.1, size := parser.size + chunk.length }, r.2)
      | .error _ =>
          ({ parser with size := parser.size + chunk.length, state := .invalid }, []) := by
  rw [push, read_characters hp, if_neg (by omega)]

/-- A run over chunks reads them as one text, and ends as that reading does. -/
theorem pushAll_ok (hp : Live parser.toFields)
    (hsize : parser.size + chunks.flatten.length ≤ maxSize) {r : Fields × Units}
    (h : readUnits parser.toFields chunks.flatten = .ok r) :
    (parser.pushAll chunks).1.toFields = r.1 ∧ (parser.pushAll chunks).2.flatten = r.2 := by
  induction chunks generalizing parser r with
  | nil => cases h; exact ⟨rfl, rfl⟩
  | cons chunk chunks ih =>
      simp only [List.flatten_cons, List.length_append, readUnits_append] at hsize h
      cases hfirst : readUnits parser.toFields chunk with
      | error e => rw [hfirst] at h; cases h
      | ok q =>
          cases hrest : readUnits q.1 chunks.flatten with
          | error e => simp only [hfirst, Except.bind, hrest] at h; cases h
          | ok q' =>
              simp only [hfirst, Except.bind, hrest] at h
              cases h
              have hpush := @push_eq parser chunk hp (by omega)
              rw [hfirst] at hpush
              obtain ⟨hfields, hshown⟩ :=
                @ih { toFields := q.1, size := parser.size + chunk.length }
                  (readUnits_live hp hfirst) (by rwa [Nat.add_assoc]) q' hrest
              simp only [pushAll, hpush, List.flatten_cons, hshown, and_true]
              exact hfields

/-- A text that cannot be read leaves the parser invalid. -/
theorem pushAll_error (hp : Live parser.toFields)
    (hsize : parser.size + chunks.flatten.length ≤ maxSize) {e : String}
    (h : readUnits parser.toFields chunks.flatten = .error e) :
    (parser.pushAll chunks).1.state = .invalid := by
  induction chunks generalizing parser e with
  | nil => cases h
  | cons chunk chunks ih =>
      simp only [List.flatten_cons, List.length_append, readUnits_append] at hsize h
      have hpush := @push_eq parser chunk hp (by omega)
      cases hfirst : readUnits parser.toFields chunk with
      | error e' =>
          rw [hfirst] at hpush
          simp only [pushAll]
          exact (pushAll_invalid (by rw [hpush]) chunks).1
      | ok q =>
          rw [hfirst] at hpush
          cases hrest : readUnits q.1 chunks.flatten with
          | ok q' => simp only [hfirst, Except.bind, hrest] at h; cases h
          | error e' =>
              simp only [pushAll, hpush]
              exact ih (readUnits_live hp hfirst) (by simp only; omega) hrest

theorem live_start : Live {} := ⟨State.noConfusion, .idle⟩

/-- The flags and the text shown after a run are those of the text read at once. -/
theorem pushAll_start (hsize : chunks.flatten.length ≤ maxSize) :
    match readUnits {} chunks.flatten with
    | .ok r => ((pushAll {} chunks).1.toFields = r.1 ∧ r.1.state ≠ .invalid)
        ∧ (pushAll {} chunks).2.flatten = r.2
    | .error _ => (pushAll {} chunks).1.state = .invalid := by
  have hroom : ({} : CandidateBodyParser).size + chunks.flatten.length ≤ maxSize := by
    simpa using hsize
  split
  case h_1 r h =>
    obtain ⟨hfields, hshown⟩ := pushAll_ok live_start hroom h
    exact ⟨⟨hfields, (readUnits_live live_start h).valid⟩, hshown⟩
  case h_2 e h => exact pushAll_error live_start hroom h

theorem pushAll_append (parser : CandidateBodyParser) (chunks more : List Units) :
    (parser.pushAll (chunks ++ more)).2
      = (parser.pushAll chunks).2 ++ ((parser.pushAll chunks).1.pushAll more).2 := by
  induction chunks generalizing parser with
  | nil => rfl
  | cons chunk chunks ih => simp [pushAll, ih]

/-- What is shown of the beginning of a text, in some cuts, is where all that is shown starts. -/
theorem shown_prefix {part chunks : List Units} (h : part.flatten <+: chunks.flatten)
    (hsize : chunks.flatten.length ≤ maxSize) (hvalid : (pushAll {} chunks).1.invalid = false) :
    (pushAll {} part).2.flatten <+: (pushAll {} chunks).2.flatten := by
  have hwhole := pushAll_start hsize
  have hpart := pushAll_start (Nat.le_trans h.length_le hsize)
  obtain ⟨more, hmore⟩ := h
  rw [← hmore, readUnits_append] at hwhole
  cases hfirst : readUnits {} part.flatten with
  | error e =>
      simp only [hfirst, Except.bind] at hwhole
      simp [invalid, hwhole] at hvalid
  | ok r =>
      simp only [hfirst] at hpart
      cases hrest : readUnits r.1 more with
      | error e =>
          simp only [hfirst, Except.bind, hrest, Except.map] at hwhole
          simp [invalid, hwhole] at hvalid
      | ok q =>
          simp only [hfirst, Except.bind, hrest, Except.map] at hwhole
          rw [hpart.2, hwhole.2]
          exact List.prefix_append ..

/-- How a text is cut does not matter: the flags agree, and what is shown unless the text is
    invalid; and what is shown so far is where all that is shown starts. -/
theorem cuts_agree {chunks cuts : List Units} (h : chunks.flatten = cuts.flatten)
    (hsize : chunks.flatten.length ≤ maxSize) :
    (pushAll {} chunks).1.invalid = (pushAll {} cuts).1.invalid
      ∧ (pushAll {} chunks).1.complete = (pushAll {} cuts).1.complete
      ∧ ((pushAll {} chunks).1.invalid = false →
        (pushAll {} chunks).2.flatten = (pushAll {} cuts).2.flatten)
      ∧ (∀ n, (pushAll {} (chunks.take n)).2.flatten <+: (pushAll {} chunks).2.flatten)
      ∧ ∀ part : List Units, part.flatten <+: chunks.flatten →
        (pushAll {} chunks).1.invalid = false →
        (pushAll {} part).2.flatten <+: (pushAll {} chunks).2.flatten := by
  have hleft := pushAll_start hsize
  have hright := pushAll_start (h ▸ hsize)
  rw [← h] at hright
  have hprefix (n : Nat) :
      (pushAll {} (chunks.take n)).2.flatten <+: (pushAll {} chunks).2.flatten := by
    have happend := pushAll_append {} (chunks.take n) (chunks.drop n)
    rw [List.take_append_drop] at happend
    rw [happend, List.flatten_append]
    exact List.prefix_append ..
  cases hread : readUnits {} chunks.flatten with
  | error e =>
      simp only [hread] at hleft hright
      refine ⟨?_, ?_, fun hvalid => ?_, hprefix, fun part hpart => shown_prefix hpart hsize⟩
      · simp [invalid, hleft, hright]
      · simp [complete, hleft, hright]
      · simp [invalid, hleft] at hvalid
  | ok r =>
      simp only [hread] at hleft hright
      obtain ⟨⟨hfields, -⟩, hshown⟩ := hleft
      obtain ⟨⟨hfields', -⟩, hshown'⟩ := hright
      refine ⟨?_, ?_, fun _ => hshown.trans hshown'.symm, hprefix,
        fun part hpart => shown_prefix hpart hsize⟩
      · rw [invalid, invalid, hfields, hfields']
      · rw [complete, complete, hfields, hfields']

/-- A body of an escaped `A` and a pair, cut inside the key, the escape and the pair. -/
private def divided : List Units :=
  [[123, 34, 98, 111], [100, 121, 34, 58, 34, 92, 117, 48, 48], [52, 49, 0xD83D], [0xDE00, 34, 125]]

theorem cuts_agree_divided : divided.flatten = [divided.flatten].flatten
    ∧ (pushAll {} divided).2.flatten = (pushAll {} [divided.flatten]).2.flatten := by
  have hflat : divided.flatten = [divided.flatten].flatten := by decide
  have hvalid : (pushAll {} divided).1.invalid = false := by decide +kernel
  exact ⟨hflat, (cuts_agree hflat (by decide)).2.2.1 hvalid⟩

end CandidateBodyParser

end LingxiOS
