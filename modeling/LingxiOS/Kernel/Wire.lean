-- SUMMARY: The lines between the kernel manager and its runner, and when they are understood.
import LingxiOS.Protocol.Stringify

/-! # The Kernel Wire

The NDJSON protocol of `kernel-wire.ts`, with the writer of `manager.ts`, the
writer of `runner.py` and `onLine`. A JavaScript string is its UTF-16 code units,
a Python string its code points, lone surrogates included; numbers are the
literals their languages write for them. -/

namespace LingxiOS.Wire

open JsonText Stringify

/-! ## The manager's lines -/

/-- `line.replace(/[\u007f-\uffff]/g, ...)`, unit by unit. -/
def asciiUnit (u : Nat) : Units := if 0x7f ≤ u ∧ u ≤ 0xffff then hexEscape u else [u]

/-- Text that is ASCII already is not replaced. -/
theorem flatMap_asciiUnit {s : Units} (h : ∀ u ∈ s, u < 127) : s.flatMap asciiUnit = s := by
  induction s with
  | nil => rfl
  | cons u s ih =>
      obtain ⟨hu, hs⟩ := List.forall_mem_cons.1 h
      have hunit : asciiUnit u = [u] := by simp [asciiUnit]; omega
      simp [hunit, ih hs]

/-- A unit as it stands in the manager's lines. -/
def lineUnit (u : Nat) : Units := escapeChar asciiUnit u

theorem flatMap_escapeChar (u : Nat) : (escapeChar (fun c => [c]) u).flatMap asciiUnit = lineUnit u := by
  unfold lineUnit escapeChar
  cases hshort : shortEscape u with
  | some e =>
      have he : e < 127 := by
        unfold shortEscape at hshort
        split_ifs at hshort <;> cases hshort <;> decide
      exact flatMap_asciiUnit (by simp [he])
  | none =>
      by_cases hlow : u < 32
      · simp only [hlow, if_true]
        exact flatMap_asciiUnit fun v hv => (hexEscape_ascii u v hv).2
      · simp [hlow]

theorem lineUnit_surrogate {u : Nat} (h : isHigh u = true ∨ isLow u = true) :
    lineUnit u = hexEscape u := by
  have hu : 0xD800 ≤ u ∧ u < 0xE000 := by
    simp only [isHigh, isLow, Bool.and_eq_true, decide_eq_true_eq] at h
    omega
  have hshort : shortEscape u = none := by
    unfold shortEscape
    split_ifs <;> first | omega | rfl
  have hlow : ¬ u < 32 := by omega
  have hwide : 0x7f ≤ u ∧ u ≤ 0xffff := by omega
  simp [lineUnit, escapeChar, hshort, hlow, asciiUnit, hwide]

theorem flatMap_stringifyUnit (u : Nat) : (stringifyUnit u).flatMap asciiUnit = lineUnit u := by
  unfold stringifyUnit
  by_cases h : (isHigh u || isLow u) = true
  · rw [if_pos h, lineUnit_surrogate (by simpa using h)]
    exact flatMap_asciiUnit fun v hv => (hexEscape_ascii u v hv).2
  · rw [if_neg h, flatMap_escapeChar]

/-- Pairs or not, the replacement escapes a string unit by unit. -/
theorem flatMap_stringifyText (s : Units) :
    (stringifyText s).flatMap asciiUnit = s.flatMap lineUnit := by
  induction s using stringifyText.induct with
  | case1 => rfl
  | case2 u => simp [stringifyText, flatMap_stringifyUnit]
  | case3 u w rest hpair ih =>
      obtain ⟨hu, hw⟩ : isHigh u = true ∧ isLow w = true := by simpa using hpair
      have hplain : ∀ v, isHigh v = true ∨ isLow v = true → asciiUnit v = lineUnit v := by
        intro v hv
        rw [lineUnit_surrogate hv, asciiUnit, if_pos]
        simp only [isHigh, isLow, Bool.and_eq_true, decide_eq_true_eq] at hv
        omega
      simp only [stringifyText, hpair, if_true, List.flatMap_cons, ih, hplain u (.inl hu),
        hplain w (.inr hw)]
  | case4 u w rest hpair ih =>
      simp only [stringifyText, hpair, Bool.false_eq_true, if_false, List.flatMap_append,
        flatMap_stringifyUnit, ih, List.flatMap_cons]

/-- What a line of the manager is written in, strings unit by unit. -/
def lineStyle : Style := ⟨fun s => s.flatMap lineUnit, [44], [58]⟩

theorem lineUnit_bounds {u : Nat} (h : u < 0x10000) : ∀ v ∈ lineUnit u, 32 ≤ v ∧ v < 127 := by
  unfold lineUnit escapeChar
  cases hshort : shortEscape u with
  | some e =>
      have he : 32 ≤ e ∧ e < 127 := by
        unfold shortEscape at hshort
        split_ifs at hshort <;> cases hshort <;> decide
      simp [he]
  | none =>
      by_cases hlow : u < 32
      · simpa only [hlow, if_true] using hexEscape_ascii u
      · by_cases hwide : 0x7f ≤ u ∧ u ≤ 0xffff
        · simpa only [hlow, if_false, asciiUnit, hwide, and_self, if_true] using hexEscape_ascii u
        · simp only [hlow, if_false, asciiUnit, hwide, List.mem_singleton, forall_eq]
          omega

theorem lineStyle_sound : lineStyle.Sound id (· < 0x10000) where
  escape s hs rest := by
    have hread : readString (s.flatMap lineUnit ++ (34 :: rest))
        = some (s.flatMap fun u => [u], rest) := by
      refine readString_flatMap (p := (· < 0x10000)) ?_ s hs rest
      intro u hu rest
      apply readString_escapeChar (fun _ => rfl)
      intro hlow hquote hslash rest
      by_cases hwide : 0x7f ≤ u ∧ u ≤ 0xffff
      · simpa [asciiUnit, hwide] using readString_hexEscape hu rest
      · simpa [asciiUnit, hwide] using readString_plain hlow hquote hslash rest
    simpa [lineStyle] using hread
  comma := ⟨[], rfl, by simp⟩
  colon := ⟨[], rfl, by simp⟩

/-- `object[key] = value`: a property that exists keeps its place. -/
def setMember {ν : Type} (members : List (Units × Value ν)) (key : Units) (value : Value ν) :
    List (Units × Value ν) :=
  if members.any (fun m => m.1 == key) then
    members.map (fun m => if m.1 == key then (key, value) else m)
  else members ++ [(key, value)]

structure CapabilityGrant where
  name : JsString
  methods : Option (List JsString)

def CapabilityGrant.value (grant : CapabilityGrant) : Value Number :=
  .obj ((literal "name", .str grant.name.val)
    :: (grant.methods.map fun methods =>
      (literal "methods", .arr (methods.map fun method => .str method.val))).toList)

/-- `ManagerToKernel`; nothing sends a shutdown. A host's result is spread into
    its message. -/
inductive ManagerToKernel where
  | execute (id code runId cellId : JsString) (capabilities : List CapabilityGrant)
  | hostResult (requestId : JsString) (result : List (JsString × JsValue))

namespace ManagerToKernel

/-- The message as an object. -/
def value : ManagerToKernel → Value Number
  | .execute id code runId cellId capabilities =>
      .obj [(literal "type", .str (literal "execute")), (literal "id", .str id.val),
        (literal "code", .str code.val),
        (literal "context", .obj [(literal "runId", .str runId.val),
          (literal "cellId", .str cellId.val),
          (literal "capabilities", .arr (capabilities.map CapabilityGrant.value))])]
  | .hostResult requestId result =>
      .obj (result.foldl (fun members field => setMember members field.1.val field.2.val)
        [(literal "type", .str (literal "host_result")), (literal "requestId", .str requestId.val)])

/-- `write`, before the newline. -/
def text (message : ManagerToKernel) : Units :=
  (print jsStyle Number.text message.value).flatMap asciiUnit

end ManagerToKernel

theorem setMember_over {p : Nat → Prop} {members : List (Units × Value Number)} {key : Units}
    {value : Value Number} (hmembers : Value.OverMembers p members) (hkey : ∀ u ∈ key, p u)
    (hvalue : value.Over p) : Value.OverMembers p (setMember members key value) := by
  rw [overMembers_iff] at hmembers ⊢
  unfold setMember
  split
  · intro m hm
    obtain ⟨n, hn, rfl⟩ := List.mem_map.1 hm
    split
    · exact ⟨hkey, hvalue⟩
    · exact hmembers n hn
  · intro m hm
    rcases List.mem_append.1 hm with hm | hm
    · exact hmembers m hm
    · rw [List.mem_singleton.1 hm]
      exact ⟨hkey, hvalue⟩

theorem CapabilityGrant.value_over (grant : CapabilityGrant) :
    grant.value.Over (· < 0x10000) := by
  obtain ⟨name, methods⟩ := grant
  have hkeys : (∀ u ∈ literal "name", u < 0x10000) ∧ ∀ u ∈ literal "methods", u < 0x10000 := by
    decide
  cases methods with
  | none => exact ⟨hkeys.1, name.2, trivial⟩
  | some methods =>
      refine ⟨hkeys.1, name.2, hkeys.2, overItems_iff.2 ?_, trivial⟩
      intro v hv
      obtain ⟨method, -, rfl⟩ := List.mem_map.1 hv
      exact method.2

theorem ManagerToKernel.value_over (message : ManagerToKernel) :
    message.value.Over (· < 0x10000) := by
  cases message with
  | execute id code runId cellId capabilities =>
      have hgrants : Value.OverItems (· < 0x10000) (capabilities.map CapabilityGrant.value) := by
        rw [overItems_iff]
        intro v hv
        obtain ⟨grant, -, rfl⟩ := List.mem_map.1 hv
        exact grant.value_over
      have htype : ∀ u ∈ literal "execute", u < 0x10000 := by decide
      exact ⟨by decide, htype, by decide, id.2, by decide, code.2, by decide,
        ⟨by decide, runId.2, by decide, cellId.2, by decide, hgrants, trivial⟩, trivial⟩
  | hostResult requestId result =>
      have hfold : ∀ members, Value.OverMembers (· < 0x10000) members →
          Value.OverMembers (· < 0x10000)
            (result.foldl (fun members field => setMember members field.1.val field.2.val)
              members) := by
        induction result with
        | nil => exact fun _ h => h
        | cons field result ih => exact fun members h => ih _ (setMember_over h field.1.2 field.2.2)
      have htype : ∀ u ∈ literal "host_result", u < 0x10000 := by decide
      exact hfold _ ⟨by decide, htype, by decide, requestId.2, trivial⟩

/-- The line is written in one pass. -/
theorem ManagerToKernel.text_eq (message : ManagerToKernel) :
    message.text = print lineStyle Number.text message.value := by
  have hmarks : ∀ u ∈ marks, asciiUnit u = [u] := by decide
  have hstyle : jsStyle.replace asciiUnit = lineStyle := by
    simp only [Style.replace, jsStyle, lineStyle, flatMap_stringifyText]
    rfl
  have hnumber : (fun n : Number => n.text.flatMap asciiUnit) = Number.text := by
    funext n
    exact flatMap_asciiUnit fun u hu => by have := n.text_bounds u hu; omega
  rw [text, print_flatMap hmarks, hstyle, hnumber]

theorem lineStyle_within :
    lineStyle.Within Number.text (· < 0x10000) (fun u => 32 ≤ u ∧ u < 127) where
  marks := by decide
  escape s hs u hu := by
    obtain ⟨v, hv, hu⟩ := List.mem_flatMap.1 hu
    exact lineUnit_bounds (hs v hv) u hu
  comma := by decide
  colon := by decide
  number n u hu := by have := n.text_bounds u hu; omega

namespace ManagerToKernel

/-- A line of the manager is ASCII, with nothing in it that ends a line. -/
theorem text_ascii (message : ManagerToKernel) : ∀ u ∈ message.text, 32 ≤ u ∧ u < 127 := by
  rw [text_eq]
  exact print_within lineStyle_within _ message.value_over

/-- With its newline, a line of the manager is read as the message. -/
theorem parse_text (message : ManagerToKernel) :
    parse (message.text ++ [10]) = some message.value := by
  rw [text_eq, parse_print lineStyle_sound writes_text message.value_over (by decide),
    Value.denote_self]

end ManagerToKernel

/-! ## The runner's values -/

/-- A Python `str`. -/
abbrev PyString := {s : Units // ∀ c ∈ s, c < 0x110000}

/-- A number of Python's; a finite float is given by its `repr`. -/
inductive PyNumber where
  | int (n : Int)
  | float (repr : Number)
  | nan
  | infinity (negative : Bool)

namespace PyNumber

def text : PyNumber → Units
  | .int n => (Number.ofInt n).text
  | .float repr => repr.text
  | .nan => literal "NaN"
  | .infinity false => literal "Infinity"
  | .infinity true => literal "-Infinity"

/-- The literal written for a number, if it is one. -/
def number? : PyNumber → Option Number
  | .int n => some (Number.ofInt n)
  | .float repr => some repr
  | .nan | .infinity _ => none

end PyNumber

/-- The keys `json.dumps` takes. -/
inductive PyKey where
  | none
  | bool (b : Bool)
  | num (n : PyNumber)
  | str (s : PyString)

/-- The values `json.dumps` takes as they are; `default=str` makes a string of
    any other. -/
inductive PyValue where
  | none
  | bool (b : Bool)
  | num (n : PyNumber)
  | str (s : PyString)
  | list (items : List PyValue)
  | dict (entries : List (PyKey × PyValue))

/-- The string a key becomes. -/
def PyKey.text : PyKey → Units
  | .none => literal "null"
  | .bool true => literal "true"
  | .bool false => literal "false"
  | .num n => n.text
  | .str s => s.val

namespace PyValue

mutual

/-- The value as JSON, its characters and numbers still Python's. -/
def json : PyValue → Value PyNumber
  | .none => .null
  | .bool b => .bool b
  | .num n => .num n
  | .str s => .str s.val
  | .list items => .arr (jsonItems items)
  | .dict entries => .obj (jsonEntries entries)

def jsonItems : List PyValue → List (Value PyNumber)
  | [] => []
  | v :: rest => json v :: jsonItems rest

def jsonEntries : List (PyKey × PyValue) → List (Units × Value PyNumber)
  | [] => []
  | (k, v) :: rest => (k.text, json v) :: jsonEntries rest

end

end PyValue

/-- A character with `ensure_ascii=True`; two escapes past the sixteenth bit. -/
def pyAsciiChar (c : Nat) : Units :=
  if c < 127 then [c]
  else if c < 0x10000 then hexEscape c
  else hexEscape (0xD800 + (c - 0x10000) / 0x400) ++ hexEscape (0xDC00 + (c - 0x10000) % 0x400)

/-- How `json.dumps` writes. -/
def pyStyle : Style := ⟨fun s => s.flatMap (escapeChar pyAsciiChar), [44, 32], [58, 32]⟩

/-- The same with `ensure_ascii=False`. -/
def pyWideStyle : Style :=
  ⟨fun s => s.flatMap (escapeChar fun c => [c]), [44, 32], [58, 32]⟩

/-- The UTF-16 units of a character. -/
def utf16 (c : Nat) : Units :=
  if c < 0x10000 then [c]
  else [0xD800 + (c - 0x10000) / 0x400, 0xDC00 + (c - 0x10000) % 0x400]

def utf16Text (s : Units) : Units := s.flatMap utf16

theorem pyStyle_sound : pyStyle.Sound utf16Text (· < 0x110000) where
  escape s hs rest := by
    apply readString_flatMap (p := (· < 0x110000)) _ s hs rest
    intro c hc rest
    apply readString_escapeChar (fun hlow => if_pos (by omega))
    intro hlow hquote hslash rest
    unfold pyAsciiChar utf16
    by_cases hascii : c < 127
    · simpa [hascii, show c < 0x10000 by omega] using readString_plain hlow hquote hslash rest
    · by_cases hbasic : c < 0x10000
      · simpa [hascii, hbasic] using readString_hexEscape hbasic rest
      · have hhigh : 0xD800 + (c - 0x10000) / 0x400 < 0x10000 := by omega
        have hlow : 0xDC00 + (c - 0x10000) % 0x400 < 0x10000 := by omega
        simp only [hascii, hbasic, if_false, List.append_assoc, readString_hexEscape hhigh,
          readString_hexEscape hlow, Option.map_map]
        rfl
  comma := ⟨[32], rfl, by decide⟩
  colon := ⟨[32], rfl, by decide⟩

/-- A reader takes the numbers that are numbers and refuses the others. -/
theorem writes_pyNumber : Writes PyNumber.text PyNumber.number? where
  starts n := by
    cases n with
    | int n => exact writes_text.starts _
    | float repr => exact writes_text.starts repr
    | nan => exact ⟨78, literal "aN", rfl, by decide⟩
    | infinity negative =>
        cases negative with
        | false => exact ⟨73, literal "nfinity", rfl, by decide⟩
        | true => exact ⟨45, literal "Infinity", rfl, by decide⟩
  read n rest hrest := by
    cases n with
    | int n => exact writes_text.read _ rest hrest
    | float repr => exact writes_text.read repr rest hrest
    | nan => rfl
    | infinity negative => cases negative <;> rfl

/-! ## The runner's messages -/

/-- A literal of the runner. -/
def py (s : String) : PyString :=
  ⟨literal s, by
    intro c hc
    obtain ⟨char, -, rfl⟩ := List.mem_map.1 hc
    have hvalid := char.valid
    simp only [UInt32.isValidChar, Nat.isValidChar] at hvalid
    show char.val.toNat < 0x110000
    omega⟩

/-- `f"{namespace}.{method}"`. -/
def dotted (space method : PyString) : PyString :=
  ⟨space.val ++ 46 :: method.val, by
    simp only [List.mem_append, List.mem_cons]
    rintro c (hc | rfl | hc)
    · exact space.2 c hc
    · decide
    · exact method.2 c hc⟩

namespace PyValue

def dumps (v : PyValue) : Units := print pyStyle PyNumber.text v.json

def wideDumps (v : PyValue) : Units := print pyWideStyle PyNumber.text v.json

/-- No float of the value is a NaN or an infinity; keys are strings in any case. -/
def Finite (v : PyValue) : Prop := v.json.Numbers fun n => n.number?.isSome

end PyValue

theorem escapeChar_bound {c : Nat} (h : c < 0x110000) :
    ∀ u ∈ escapeChar (fun c => [c]) c, u < 0x110000 := by
  unfold escapeChar
  cases hshort : shortEscape c with
  | some e =>
      have he : e < 127 := by
        unfold shortEscape at hshort
        split_ifs at hshort <;> cases hshort <;> decide
      simp only [List.mem_cons, List.not_mem_nil, or_false, forall_eq_or_imp, forall_eq]
      omega
  | none =>
      by_cases hlow : c < 32
      · simp only [hlow, if_true]
        intro u hu
        have := hexEscape_ascii c u hu
        omega
      · simpa [hlow] using h

theorem pyNumber_bounds (n : PyNumber) : ∀ u ∈ n.text, 32 ≤ u ∧ u < 127 := by
  cases n with
  | int n => exact fun u hu => by have := (Number.ofInt n).text_bounds u hu; omega
  | float repr => exact fun u hu => by have := repr.text_bounds u hu; omega
  | nan => decide
  | infinity negative => cases negative <;> decide

theorem PyKey.text_over (k : PyKey) : ∀ c ∈ k.text, c < 0x110000 := by
  cases k with
  | none => decide
  | bool b => cases b <;> decide
  | num n => exact fun u hu => by have := pyNumber_bounds n u hu; omega
  | str s => exact s.2

mutual

theorem PyValue.json_over : (v : PyValue) → v.json.Over (· < 0x110000)
  | .none => trivial
  | .bool _ => trivial
  | .num _ => trivial
  | .str s => s.2
  | .list items => PyValue.jsonItems_over items
  | .dict entries => PyValue.jsonEntries_over entries

theorem PyValue.jsonItems_over : (vs : List PyValue) →
    Value.OverItems (· < 0x110000) (PyValue.jsonItems vs)
  | [] => trivial
  | v :: vs => ⟨v.json_over, PyValue.jsonItems_over vs⟩

theorem PyValue.jsonEntries_over : (es : List (PyKey × PyValue)) →
    Value.OverMembers (· < 0x110000) (PyValue.jsonEntries es)
  | [] => trivial
  | (k, v) :: es => ⟨k.text_over, v.json_over, PyValue.jsonEntries_over es⟩

end

theorem pyStyle_within :
    pyStyle.Within PyNumber.text (· < 0x110000) (fun u => 32 ≤ u ∧ u < 127) where
  marks := by decide
  escape s hs u hu := by
    obtain ⟨c, hc, hu⟩ := List.mem_flatMap.1 hu
    have hshort : ∀ e, shortEscape c = some e → 32 ≤ e ∧ e < 127 := by
      intro e he
      unfold shortEscape at he
      split_ifs at he <;> cases he <;> decide
    unfold escapeChar pyAsciiChar at hu
    cases hcase : shortEscape c with
    | some e =>
        have he := hshort e hcase
        rw [hcase] at hu
        rcases List.mem_pair.1 hu with rfl | rfl
        · decide
        · exact he
    | none =>
        rw [hcase] at hu
        dsimp only at hu
        split_ifs at hu
        · exact hexEscape_ascii c u hu
        · rw [List.mem_singleton.1 hu]
          omega
        · exact hexEscape_ascii c u hu
        · rcases List.mem_append.1 hu with hu | hu
          · exact hexEscape_ascii _ u hu
          · exact hexEscape_ascii _ u hu
  comma := by decide
  colon := by decide
  number := pyNumber_bounds

/-- `encoded[:limit - 80]`, where a negative stop counts from the end. -/
def preview (maxChars : Nat) (encoded : Units) : Units :=
  if 80 ≤ maxChars then encoded.take (maxChars - 80)
  else encoded.take (encoded.length - (80 - maxChars))

theorem wideDumps_over (v : PyValue) : ∀ c ∈ v.wideDumps, c < 0x110000 := by
  have hwithin : pyWideStyle.Within PyNumber.text (· < 0x110000) (· < 0x110000) :=
    { marks := by decide
      escape := by
        intro s hs u hu
        obtain ⟨c, hc, hu⟩ := List.mem_flatMap.1 hu
        exact escapeChar_bound (hs c hc) u hu
      comma := by decide
      colon := by decide
      number := fun n u hu => by have := pyNumber_bounds n u hu; omega }
  exact print_within hwithin _ v.json_over

theorem preview_subset (maxChars : Nat) (encoded : Units) : preview maxChars encoded ⊆ encoded := by
  unfold preview
  split
  · exact List.take_subset _ _
  · exact List.take_subset _ _

/-- `safe_result` of a value that is JSON as it is. -/
def safeResult (maxChars : Nat) (value : PyValue) : PyValue :=
  if value.wideDumps.length ≤ maxChars then value
  else .dict [(.str (py "truncated"), .bool true),
    (.str (py "preview"), .str ⟨preview maxChars value.wideDumps,
      fun c hc => wideDumps_over value c (preview_subset _ _ hc)⟩)]

/-- What `changed_artifacts` says about a file. -/
structure Artifact where
  path : PyString
  size : Nat
  mime : PyString
  sha256 : PyString

def Artifact.value (artifact : Artifact) : PyValue :=
  .dict [(.str (py "path"), .str artifact.path), (.str (py "size"), .num (.int artifact.size)),
    (.str (py "mime"), .str artifact.mime), (.str (py "sha256"), .str artifact.sha256)]

/-- The host's directives, as `json.loads` made them of the manager's lines. -/
abbrev Directive := {v : PyValue // v.Finite}

structure ExecutionResult where
  id : PyString
  ok : Bool
  stdout : PyString
  stderr : PyString
  /-- The value of the cell's last expression, if it ended with one. -/
  result : PyValue
  error : Option PyString
  approvalId : Option PyString
  truncated : Bool
  durationMs : Nat
  artifacts : List Artifact
  directives : List Directive

/-- What the runner emits while a cell runs. A request id is a UUID. -/
inductive KernelToManager where
  | hostCall (id : PyString) (requestId : {s : PyString // s.val ≠ []}) (callIndex : Nat)
      (space method : PyString) (args : List (PyString × PyValue))
  | executionResult (result : ExecutionResult)

def optional (s : Option PyString) : PyValue := s.elim .none .str

namespace KernelToManager

/-- The execution the message belongs to. -/
def executionId : KernelToManager → PyString
  | .hostCall id .. => id
  | .executionResult result => result.id

def value (maxChars : Nat) : KernelToManager → PyValue
  | .hostCall id requestId callIndex space method args =>
      .dict [(.str (py "type"), .str (py "host_call")), (.str (py "id"), .str id),
        (.str (py "requestId"), .str requestId.val),
        (.str (py "callIndex"), .num (.int callIndex)),
        (.str (py "action"), .str (dotted space method)),
        (.str (py "args"), .dict (args.map fun arg => (.str arg.1, arg.2)))]
  | .executionResult result =>
      .dict [(.str (py "type"), .str (py "execution_result")), (.str (py "id"), .str result.id),
        (.str (py "ok"), .bool result.ok), (.str (py "stdout"), .str result.stdout),
        (.str (py "stderr"), .str result.stderr),
        (.str (py "result"), safeResult maxChars result.result),
        (.str (py "error"), optional result.error),
        (.str (py "approvalId"), optional result.approvalId),
        (.str (py "truncated"), .bool result.truncated),
        (.str (py "durationMs"), .num (.int result.durationMs)),
        (.str (py "artifacts"), .list (result.artifacts.map Artifact.value)),
        (.str (py "directives"), .list (result.directives.map Subtype.val))]

/-- `emit`, before the newline. -/
def text (maxChars : Nat) (message : KernelToManager) : Units := (message.value maxChars).dumps

/-- The message carries no float that JSON has no literal for: none in the
    arguments of a call; none in a result, or the result is cut to a preview. -/
def Finite (maxChars : Nat) : KernelToManager → Prop
  | .hostCall _ _ _ _ _ args => ∀ arg ∈ args, arg.2.Finite
  | .executionResult result =>
      result.result.Finite ∨ maxChars < result.result.wideDumps.length

end KernelToManager

/-! ## What the manager makes of a line -/

/-- `message[key]`; of two members with one name the later counts. -/
def field (message : Value Number) (key : String) : Option (Value Number) :=
  match message with
  | .obj members => members.reverse.lookup (literal key)
  | _ => none

/-- A property that is a string with something in it. -/
def nonempty : Option (Value Number) → Option Units
  | some (.str []) => none
  | some (.str s) => some s
  | _ => none

/-- What `onLine` does with a line. -/
inductive Received where
  /-- Not JSON: the line is logged. -/
  | nonJson
  | ready
  | protocolError
  /-- No execution waits for the message, or it names no request. -/
  | unmatched
  /-- The call goes to the host; its answer carries the request id. -/
  | call (requestId action : Units) (callIndex args : Option (Value Number))
  /-- The execution is settled with the message. -/
  | settled (message : Value Number)

/-- `onHostCall`, up to the host: `executionId` is that of the pending execution. -/
def onHostCall (pending : Option Units) (message : Value Number) : Received :=
  match pending, field message "id", nonempty (field message "requestId"),
    nonempty (field message "action") with
  | some executionId, some (.str id), some requestId, some action =>
      if executionId = id then
        .call requestId action (field message "callIndex") (field message "args")
      else .unmatched
  | _, _, _, _ => .unmatched

/-- The switch over the type of a message. -/
def onMessage (pending : Option Units) (message : Value Number) : Received :=
  match field message "type" with
  | some (.str type) =>
      if type = literal "ready" then .ready
      else if type = literal "host_call" then onHostCall pending message
      else if type = literal "protocol_error" then .protocolError
      else if type = literal "execution_result" then
        match pending, field message "id" with
        | some executionId, some (.str id) =>
            if executionId = id then .settled message else .unmatched
        | _, _ => .unmatched
      else .unmatched
  | _ => .unmatched

def onLine (pending : Option Units) (line : Units) : Received :=
  match parse line with
  | none => .nonJson
  | some message => onMessage pending message

/-- The member of an object that a reader finds for a value of Python's. -/
def read (v : PyValue) : Option (Value Number) := v.json.denote PyNumber.number? utf16Text

theorem parse_dumps (v : PyValue) : parse v.dumps = read v := by
  have hparse : parse (v.dumps ++ []) = read v :=
    parse_print pyStyle_sound writes_pyNumber v.json_over (by simp)
  rwa [List.append_nil] at hparse

theorem read_isSome (v : PyValue) : (read v).isSome ↔ v.Finite := Value.denote_isSome _

theorem read_hostCall (id : PyString) (requestId : {s : PyString // s.val ≠ []}) (callIndex : Nat)
    (space method : PyString) (args : List (PyString × PyValue)) (maxChars : Nat) :
    read ((KernelToManager.hostCall id requestId callIndex space method args).value maxChars)
      = (read (.dict (args.map fun arg => (.str arg.1, arg.2)))).map fun object =>
        .obj [(literal "type", .str (literal "host_call")), (literal "id", .str (utf16Text id.val)),
          (literal "requestId", .str (utf16Text requestId.val.val)),
          (literal "callIndex", .num (Number.ofInt callIndex)),
          (literal "action", .str (utf16Text (dotted space method).val)),
          (literal "args", object)] := by
  simp only [read, KernelToManager.value, PyValue.json, PyValue.jsonEntries]
  simp only [Value.denote, Value.denoteMembers, PyNumber.number?]
  cases Value.denoteMembers PyNumber.number? utf16Text
    (PyValue.jsonEntries (args.map fun arg => (.str arg.1, arg.2))) with
  | none => rfl
  | some members => rfl

def readOptional (s : Option PyString) : Value Number :=
  s.elim .null fun s => .str (utf16Text s.val)

theorem read_executionResult (r : ExecutionResult) (maxChars : Nat) :
    read ((KernelToManager.executionResult r).value maxChars)
      = (read (safeResult maxChars r.result)).bind fun result =>
        (read (.list (r.artifacts.map Artifact.value))).bind fun artifacts =>
        (read (.list (r.directives.map Subtype.val))).map fun directives =>
        .obj [(literal "type", .str (literal "execution_result")),
          (literal "id", .str (utf16Text r.id.val)), (literal "ok", .bool r.ok),
          (literal "stdout", .str (utf16Text r.stdout.val)),
          (literal "stderr", .str (utf16Text r.stderr.val)), (literal "result", result),
          (literal "error", readOptional r.error), (literal "approvalId", readOptional r.approvalId),
          (literal "truncated", .bool r.truncated),
          (literal "durationMs", .num (Number.ofInt r.durationMs)),
          (literal "artifacts", artifacts), (literal "directives", directives)] := by
  have hoptional : ∀ s, (optional s).json.denote PyNumber.number? utf16Text
      = some (readOptional s) := by
    intro s
    cases s <;> rfl
  simp only [read, KernelToManager.value, PyValue.json, PyValue.jsonEntries]
  simp only [Value.denote, Value.denoteMembers, PyNumber.number?, hoptional]
  cases (safeResult maxChars r.result).json.denote PyNumber.number? utf16Text with
  | none => rfl
  | some result =>
      cases Value.denoteItems PyNumber.number? utf16Text
        (PyValue.jsonItems (r.artifacts.map Artifact.value)) with
      | none => rfl
      | some artifacts =>
          cases Value.denoteItems PyNumber.number? utf16Text
            (PyValue.jsonItems (r.directives.map Subtype.val)) with
          | none => rfl
          | some directives => rfl

theorem numbersItems_json {q : PyNumber → Prop} {vs : List PyValue} :
    Value.NumbersItems q (PyValue.jsonItems vs) ↔ ∀ v ∈ vs, v.json.Numbers q := by
  induction vs with
  | nil => simp [PyValue.jsonItems, Value.NumbersItems]
  | cons v vs ih => simp [PyValue.jsonItems, Value.NumbersItems, ih]

theorem numbersMembers_json {q : PyNumber → Prop} {es : List (PyKey × PyValue)} :
    Value.NumbersMembers q (PyValue.jsonEntries es) ↔ ∀ e ∈ es, e.2.json.Numbers q := by
  induction es with
  | nil => simp [PyValue.jsonEntries, Value.NumbersMembers]
  | cons e es ih => simp [PyValue.jsonEntries, Value.NumbersMembers, ih]

theorem finite_list {vs : List PyValue} : (PyValue.list vs).Finite ↔ ∀ v ∈ vs, v.Finite :=
  numbersItems_json

theorem finite_dict {es : List (PyKey × PyValue)} :
    (PyValue.dict es).Finite ↔ ∀ e ∈ es, e.2.Finite :=
  numbersMembers_json

theorem finite_safeResult (maxChars : Nat) (v : PyValue) :
    (safeResult maxChars v).Finite ↔ v.Finite ∨ maxChars < v.wideDumps.length := by
  unfold safeResult
  by_cases hlength : v.wideDumps.length ≤ maxChars
  · simp [hlength, Nat.not_lt.2 hlength]
  · simp only [hlength, if_false, Nat.not_le.1 hlength, or_true, iff_true, finite_dict]
    simp [PyValue.Finite, PyValue.json, Value.Numbers]

theorem finite_artifact (artifact : Artifact) : artifact.value.Finite :=
  ⟨trivial, rfl, trivial, trivial, trivial⟩

/-- What the manager is to make of a message: a call is handed on under its request
    id, a result settles its execution. -/
def Correlated (message : KernelToManager) : Received → Prop
  | .call requestId action _ _ =>
      match message with
      | .hostCall _ id _ space method _ =>
          requestId = utf16Text id.val.val ∧ action = utf16Text (dotted space method).val
      | .executionResult _ => False
  | .settled object =>
      match message with
      | .hostCall .. => False
      | .executionResult r => field object "id" = some (.str (utf16Text r.id.val))
  | _ => False

theorem utf16Text_ne_nil {s : Units} (h : s ≠ []) : utf16Text s ≠ [] := by
  cases s with
  | nil => exact absurd rfl h
  | cons c s =>
      simp only [utf16Text, List.flatMap_cons, utf16]
      split <;> simp

theorem nonempty_str {s : Units} (h : s ≠ []) : nonempty (some (.str s)) = some s := by
  cases s with
  | nil => exact absurd rfl h
  | cons c s => rfl

theorem onMessage_hostCall {message : Value Number} {id requestId action : Units}
    (htype : field message "type" = some (.str (literal "host_call")))
    (hid : field message "id" = some (.str id))
    (hrequest : field message "requestId" = some (.str requestId)) (hrequestId : requestId ≠ [])
    (haction : field message "action" = some (.str action)) (hne : action ≠ []) :
    onMessage (some id) message
      = .call requestId action (field message "callIndex") (field message "args") := by
  have hready : literal "host_call" ≠ literal "ready" := by decide
  simp only [onMessage, htype, hready, if_false, if_true, onHostCall, hid, hrequest, haction,
    nonempty_str hrequestId, nonempty_str hne]

theorem onMessage_executionResult {message : Value Number} {id : Units}
    (htype : field message "type" = some (.str (literal "execution_result")))
    (hid : field message "id" = some (.str id)) :
    onMessage (some id) message = .settled message := by
  have hready : literal "execution_result" ≠ literal "ready" := by decide
  have hcall : literal "execution_result" ≠ literal "host_call" := by decide
  have herror : literal "execution_result" ≠ literal "protocol_error" := by decide
  simp only [onMessage, htype, hready, hcall, herror, if_false, if_true, hid]

/-- A call is correlated exactly if its arguments are finite. -/
theorem onLine_hostCall (id : PyString) (requestId : {s : PyString // s.val ≠ []})
    (callIndex : Nat) (space method : PyString) (args : List (PyString × PyValue))
    (maxChars : Nat) :
    Correlated (.hostCall id requestId callIndex space method args)
        (onLine (some (utf16Text id.val)) (KernelToManager.text maxChars
          (.hostCall id requestId callIndex space method args)))
      ↔ ∀ arg ∈ args, arg.2.Finite := by
  have hiff := read_isSome (.dict (args.map fun arg => (.str arg.1, arg.2)))
  rw [finite_dict, List.forall_mem_map] at hiff
  unfold onLine KernelToManager.text
  rw [parse_dumps, read_hostCall]
  cases hargs : read (.dict (args.map fun arg => (.str arg.1, arg.2))) with
  | none =>
      rw [hargs] at hiff
      simpa [Correlated] using hiff
  | some object =>
      rw [hargs] at hiff
      refine iff_of_true ?_ (hiff.1 rfl)
      have haction : utf16Text (dotted space method).val ≠ [] :=
        utf16Text_ne_nil (by simp [dotted])
      rw [Option.map_some]
      dsimp only
      rw [onMessage_hostCall rfl rfl rfl (utf16Text_ne_nil requestId.2) rfl haction]
      exact ⟨rfl, rfl⟩

/-- A result is correlated exactly if it is finite or cut to a preview. -/
theorem onLine_executionResult (r : ExecutionResult) (maxChars : Nat) :
    Correlated (.executionResult r) (onLine (some (utf16Text r.id.val))
        (KernelToManager.text maxChars (.executionResult r)))
      ↔ r.result.Finite ∨ maxChars < r.result.wideDumps.length := by
  obtain ⟨artifacts, hartifacts⟩ : ∃ w, read (.list (r.artifacts.map Artifact.value)) = some w := by
    rw [← Option.isSome_iff_exists, read_isSome, finite_list, List.forall_mem_map]
    exact fun artifact _ => finite_artifact artifact
  obtain ⟨directives, hdirectives⟩ :
      ∃ w, read (.list (r.directives.map Subtype.val)) = some w := by
    rw [← Option.isSome_iff_exists, read_isSome, finite_list, List.forall_mem_map]
    exact fun directive _ => directive.2
  have hiff := read_isSome (safeResult maxChars r.result)
  rw [finite_safeResult] at hiff
  unfold onLine KernelToManager.text
  rw [parse_dumps, read_executionResult, hartifacts, hdirectives]
  cases hresult : read (safeResult maxChars r.result) with
  | none =>
      rw [hresult] at hiff
      simpa [Correlated] using hiff
  | some result =>
      rw [hresult] at hiff
      refine iff_of_true ?_ (hiff.1 rfl)
      rw [Option.bind_some, Option.bind_some, Option.map_some]
      dsimp only
      rw [onMessage_executionResult rfl rfl]
      rfl

/-- The wire in both directions. Every line of the manager is ASCII without a line
    break and reads back as its message. Every line of the runner is ASCII without a
    line break, and the manager correlates it exactly if no NaN and no infinity
    stands in it. -/
theorem lines_understood (maxChars : Nat) :
    (∀ message : ManagerToKernel, (∀ u ∈ message.text, 32 ≤ u ∧ u < 127) ∧
      parse (message.text ++ [10]) = some message.value) ∧
    ∀ message : KernelToManager, (∀ u ∈ message.text maxChars, 32 ≤ u ∧ u < 127) ∧
      (Correlated message (onLine (some (utf16Text message.executionId.val))
        (message.text maxChars)) ↔ message.Finite maxChars) := by
  refine ⟨fun message => ⟨message.text_ascii, message.parse_text⟩, fun message => ⟨?_, ?_⟩⟩
  · exact print_within pyStyle_within _ (PyValue.json_over _)
  · cases message with
    | hostCall id requestId callIndex space method args =>
        exact onLine_hostCall id requestId callIndex space method args maxChars
    | executionResult r => exact onLine_executionResult r maxChars

/-- `host.market.quote(price=float("nan"))`. -/
private def nanCall : KernelToManager :=
  .hostCall (py "e1") ⟨py "r1", by decide⟩ 0 (py "market") (py "quote")
    [(py "price", .num .nan)]

/-- The line of a call with a NaN is not JSON to the manager, so nothing answers it. -/
theorem nan_call_unanswered :
    onLine (some (utf16Text nanCall.executionId.val)) (nanCall.text 8000) = .nonJson ∧
    ¬ ∀ message : KernelToManager, Correlated message
      (onLine (some (utf16Text message.executionId.val)) (message.text 8000)) := by
  have hline : onLine (some (utf16Text nanCall.executionId.val)) (nanCall.text 8000)
      = .nonJson := by
    have hargs : read (.dict [(.str (py "price"), .num .nan)]) = none := rfl
    unfold onLine KernelToManager.text nanCall
    rw [parse_dumps, read_hostCall, List.map_cons, List.map_nil, hargs]
    rfl
  have hlost : ¬ Correlated nanCall .nonJson := not_false
  refine ⟨hline, not_forall.2 ⟨nanCall, ?_⟩⟩
  rw [hline]
  exact hlost

end LingxiOS.Wire
