-- SUMMARY: Reading the body of a memory page by page.
import LingxiOS.Base.TextCoding
import LingxiOS.Memory.Documents

/-! # Memory Pages

An offset counts UTF-16 units and a page is bounded in bytes, cut back to a whole character.
A page that has no room for the first character is empty, and the next offset is its own. -/

namespace LingxiOS.Memories

open TextCoding

/-! ## The source -/

/-- Where the bytes before some index end in a whole character. -/
def cutBack (buffer : List UInt8) : Nat → Nat
  | 0 => 0
  | n + 1 => if buffer[n + 1]?.any isContinuation then cutBack buffer n else n + 1

def excerpt (text : List Nat) (bytes : Nat) : List Nat :=
  let buffer := encode text
  if buffer.length ≤ bytes then text
  else
    let (decoder, chars) := Decoder.read {} (buffer.take (cutBack buffer bytes))
    replaced (chars ++ decoder.finish)

structure MemoryReadInput where
  offset : Option Int
  length : Option Int

/-- What `parseMemoryInput` checks of the range. -/
def parseMemoryRange (input : MemoryReadInput) : Except String Unit :=
  if input.offset.any fun n => !isSafeInteger n || decide (n < 0) then
    .error "invalid memory offset"
  else if input.length.any fun n => !isSafeInteger n || decide (n < 1) then
    .error "invalid memory length"
  else if 2400 < input.length.getD 2400 || 16384 < input.offset.getD 0 then
    .error "invalid memory read range"
  else .ok ()

/-- A document without its body and its sources. -/
structure MemoryEntry where
  id : String
  scope : MemoryScope
  path : String
  title : String
  description : String
  layer : MemoryLayer
  kind : String
  origin : MemoryOrigin
  locked : Bool
  version : Int
  status : MemoryStatus
  validUntil : Option Int
  updatedAt : Int
  deriving DecidableEq

def memoryEntry (document : MemoryDocument) : MemoryEntry :=
  ⟨document.id, document.scope, document.path, document.title, document.description,
    document.layer, document.kind, document.origin, document.locked, document.version,
    document.status, document.validUntil, document.updatedAt⟩

structure MemoryPage where
  document : MemoryEntry
  body : List Nat
  offset : Nat
  nextOffset : Option Nat
  sources : List MemorySource
  omittedSources : Nat
  deriving DecidableEq

/-- The page at an offset. -/
def memoryPage (document : MemoryDocument) (offset length : Nat) : MemoryPage :=
  let text := units document.body.toList
  let body := excerpt (text.drop offset) length
  { document := memoryEntry document
    body := body
    offset := offset
    nextOffset := if offset + body.length < text.length then some (offset + body.length) else none
    sources := document.sources.take 4
    omittedSources := document.sources.length - 4 }

/-- `memory.read` of a document that was found. -/
def readMemoryPage (document : MemoryDocument) (input : MemoryReadInput) :
    Except String MemoryPage := do
  parseMemoryRange input
  let offset := (input.offset.getD 0).toNat
  if 0 < offset && (units document.body.toList)[offset]?.any isLow then
    throw "memory offset splits a Unicode character"
  pure (memoryPage document offset (input.length.getD 2400).toNat)

/-! ## Excerpts -/

/-- As many characters as some bytes hold. -/
def fitting : Nat → List Char → List Char
  | _, [] => []
  | bytes, c :: chars =>
      if c.utf8Size ≤ bytes then c :: fitting (bytes - c.utf8Size) chars else []

variable {chars : List Char} {bytes : Nat} {c : Char}

theorem utf8_cons (c : Char) (chars : List Char) :
    utf8 (c :: chars) = String.utf8EncodeChar c ++ utf8 chars := rfl

theorem length_utf8_cons (c : Char) (chars : List Char) :
    (utf8 (c :: chars)).length = c.utf8Size + (utf8 chars).length := by
  rw [utf8_cons, List.length_append, String.length_utf8EncodeChar]

/-- What fits is within the bytes, and either all that is there or all there is room for. -/
theorem fitting_split (bytes : Nat) (chars : List Char) :
    ∃ rest, chars = fitting bytes chars ++ rest ∧ (utf8 (fitting bytes chars)).length ≤ bytes
      ∧ ∀ c ∈ rest.head?, bytes < (utf8 (fitting bytes chars)).length + c.utf8Size := by
  induction chars generalizing bytes with
  | nil => exact ⟨[], rfl, Nat.zero_le _, by simp⟩
  | cons c chars ih =>
      rw [fitting]
      split
      · rename_i hc
        obtain ⟨rest, hsplit, hle, hnext⟩ := ih (bytes - c.utf8Size)
        refine ⟨rest, congrArg (c :: ·) hsplit, ?_, fun d hd => ?_⟩
        · rw [length_utf8_cons]
          omega
        · have hroom := hnext d hd
          rw [length_utf8_cons]
          omega
      · rename_i hc
        exact ⟨c :: chars, rfl, Nat.zero_le _, by simpa [utf8] using hc⟩

/-- Going back from inside a character ends where it starts. -/
theorem cutBack_eq {before rest : List UInt8} {n : Nat} (hlow : before.length ≤ n)
    (hhigh : n < before.length + c.utf8Size) :
    cutBack (before ++ (String.utf8EncodeChar c ++ rest)) n = before.length := by
  obtain ⟨first, more, hbytes, hfirst, hmore⟩ := utf8EncodeChar_cases c
  induction n with
  | zero =>
      rw [cutBack]
      omega
  | succ n ih =>
      rw [cutBack]
      rcases Nat.lt_or_eq_of_le hlow with hinside | hstart
      · obtain ⟨d, hd⟩ : ∃ d, n + 1 = before.length + (d + 1) := ⟨n - before.length, by omega⟩
        have hlength : more.length + 1 = c.utf8Size := by
          rw [← String.length_utf8EncodeChar c, hbytes, List.length_cons]
        have hbyte : (before ++ (String.utf8EncodeChar c ++ rest))[n + 1]? = more[d]? := by
          rw [hd, List.getElem?_append_right (by omega), hbytes,
            Nat.add_sub_cancel_left, List.cons_append, List.getElem?_cons_succ,
            List.getElem?_append_left (by omega)]
        have hcontinues : more[d]?.any isContinuation = true := by
          rw [List.getElem?_eq_getElem (by omega)]
          exact hmore _ (List.getElem_mem _)
        rw [hbyte, if_pos hcontinues]
        exact ih (by omega) (by omega)
      · have hbyte : (before ++ (String.utf8EncodeChar c ++ rest))[n + 1]? = some first := by
          rw [← hstart, List.getElem?_append_right (by omega), hbytes, Nat.sub_self]
          rfl
        rw [hbyte, Option.any_some, hfirst, if_neg (by simp), hstart]

theorem utf8_append (chars more : List Char) : utf8 (chars ++ more) = utf8 chars ++ utf8 more :=
  List.flatMap_append

theorem excerpt_short {text : List Nat} (h : (encode text).length ≤ bytes) :
    excerpt text bytes = text :=
  if_pos h

/-- A text that is too long is cut to the characters that fit. -/
theorem excerpt_long {text : List Nat} (h : bytes < (encode text).length) :
    excerpt text bytes = units (fitting bytes (scalars text)) := by
  obtain ⟨rest, hsplit, hle, hnext⟩ := fitting_split bytes (scalars text)
  cases rest with
  | nil =>
      rw [List.append_nil] at hsplit
      rw [← hsplit] at hle
      exact absurd h (Nat.not_lt.2 hle)
  | cons c rest =>
      have hroom := hnext c rfl
      have hbytes : encode text = utf8 (fitting bytes (scalars text))
          ++ (String.utf8EncodeChar c ++ utf8 rest) := by
        rw [encode]
        conv_lhs => rw [hsplit, utf8_append, utf8_cons]
      rw [excerpt, if_neg (Nat.not_le.2 h), hbytes, cutBack_eq hle hroom, List.take_left, read_utf8]
      change replaced ((fitting bytes (scalars text)).map some ++ []) = _
      rw [List.append_nil, replaced_map]

/-- An excerpt of characters is those that fit. -/
theorem excerpt_units (bytes : Nat) (chars : List Char) :
    excerpt (units chars) bytes = units (fitting bytes chars) := by
  rcases Nat.lt_or_ge bytes (encode (units chars)).length with hlong | hshort
  · rw [excerpt_long hlong, scalars_units]
  · obtain ⟨rest, hsplit, -, hnext⟩ := fitting_split bytes chars
    have hall : rest = [] := by
      cases rest with
      | nil => rfl
      | cons c rest =>
          have hroom := hnext c rfl
          have hlength := congrArg (fun chars => (utf8 chars).length) hsplit
          simp only [utf8_append, utf8_cons, List.length_append, String.length_utf8EncodeChar]
            at hlength
          rw [encode_units] at hshort
          omega
    rw [hall, List.append_nil] at hsplit
    rw [excerpt_short hshort, ← hsplit]

/-! ## One page -/

theorem units_append (chars more : List Char) : units (chars ++ more) = units chars ++ units more :=
  List.flatMap_append

theorem length_charUnits_pos (c : Char) : 0 < (charUnits c).length := by
  unfold charUnits
  split
  · exact Nat.one_pos
  · exact Nat.two_pos

theorem length_charUnits_le (c : Char) : (charUnits c).length ≤ c.utf8Size := by
  have hpos := c.utf8Size_pos
  unfold charUnits
  split
  · exact hpos
  · rename_i hlarge
    have hmore : c.utf8Size ≠ 1 := by
      intro hone
      have hascii := UInt32.le_iff_toNat_le.1 (Char.utf8Size_eq_one_iff.1 hone)
      exact hlarge (Nat.lt_of_le_of_lt hascii (by decide))
    rw [List.length_cons, List.length_singleton]
    omega

theorem length_units_le (chars : List Char) : (units chars).length ≤ (utf8 chars).length := by
  induction chars with
  | nil => exact Nat.le_refl 0
  | cons c chars ih =>
      have hc := length_charUnits_le c
      have hunits : units (c :: chars) = charUnits c ++ units chars := rfl
      rw [length_utf8_cons, hunits, List.length_append]
      omega

theorem length_utf8_toList (s : String) : (utf8 s.toList).length = s.utf8ByteSize := by
  have hbytes := congrArg ByteArray.size (String.utf8Encode_toList (b := s))
  rwa [List.utf8Encode, List.size_toByteArray] at hbytes

/-- The first unit of a text is no second half of a pair. -/
theorem head_units (chars : List Char) : (units chars).head?.any isLow = false := by
  cases chars with
  | nil => rfl
  | cons c chars =>
      have hunits : units (c :: chars) = charUnits c ++ units chars := rfl
      rw [hunits]
      rcases charUnits_cases c with ⟨hc, hplain⟩ | ⟨u, w, hc, hu, -⟩
      · rw [hc]
        simp [isLow]
        omega
      · rw [hc]
        simp [isHigh, isLow] at hu ⊢
        omega

variable {document : MemoryDocument} {length : Option Int} {before : List Char}

/-- The lengths a page may have. -/
def AllowedLength (length : Option Int) : Prop := ∀ n ∈ length, 1 ≤ n ∧ n ≤ 2400

theorem parseMemoryRange_eq {n : Nat} (hn : n ≤ 16384) (hlength : AllowedLength length) :
    parseMemoryRange ⟨some n, length⟩ = .ok () := by
  have hoffset : (!isSafeInteger n || decide ((n : Int) < 0)) = false := by
    unfold isSafeInteger maxSafeInteger
    simp
    omega
  have hsafe : (length.any fun n => !isSafeInteger n || decide (n < 1)) = false := by
    cases length with
    | none => rfl
    | some m =>
        have hm := hlength m rfl
        unfold isSafeInteger maxSafeInteger
        simp
        omega
  have hrange : (decide (2400 < length.getD 2400) || decide (16384 < (some (n : Int)).getD 0))
      = false := by
    cases length with
    | none =>
        simp
        omega
    | some m =>
        have hm := hlength m rfl
        simp
        omega
  unfold parseMemoryRange
  simp only [Option.any_some, hoffset, hsafe, hrange, Bool.false_eq_true, if_false]

/-- At the start of a character the page is what fits of the rest. -/
theorem readMemoryPage_eq (hbody : document.body.toList = before ++ chars)
    (hsize : document.body.utf8ByteSize ≤ memoryBodyBytes) (hlength : AllowedLength length) :
    readMemoryPage document ⟨some (units before).length, length⟩
      = .ok (memoryPage document (units before).length (length.getD 2400).toNat) := by
  have hunits : units document.body.toList = units before ++ units chars := by
    rw [hbody, units_append]
  have hoffset : (units before).length ≤ 16384 := by
    have hle := length_units_le document.body.toList
    rw [length_utf8_toList, hunits, List.length_append] at hle
    unfold memoryBodyBytes at hsize
    omega
  have hlow : (decide (0 < (units before).length)
      && (units document.body.toList)[(units before).length]?.any isLow) = false := by
    rw [hunits, List.getElem?_append_right (Nat.le_refl _), Nat.sub_self,
      ← List.head?_eq_getElem?, head_units, Bool.and_false]
  unfold readMemoryPage
  rw [parseMemoryRange_eq hoffset hlength]
  simp only [Option.getD_some, Int.toNat_natCast, hlow]
  rfl

theorem memoryPage_body (hbody : document.body.toList = before ++ chars) (n : Nat) :
    (memoryPage document (units before).length n).body = units (fitting n chars) := by
  simp only [memoryPage]
  rw [hbody, units_append, List.drop_left, excerpt_units]

/-- The next page is there if not everything fits. -/
theorem memoryPage_next (hbody : document.body.toList = before ++ chars) {n : Nat}
    {rest : List Char} (hsplit : chars = fitting n chars ++ rest) :
    (memoryPage document (units before).length n).nextOffset
      = if rest = [] then none else some (units (before ++ fitting n chars)).length := by
  have hlength : (units document.body.toList).length
      = (units before).length + ((units (fitting n chars)).length + (units rest).length) := by
    rw [hbody, units_append, List.length_append]
    conv_lhs => rw [hsplit, units_append, List.length_append]
  have hpage : (memoryPage document (units before).length n).nextOffset
      = if (units before).length + (memoryPage document (units before).length n).body.length
          < (units document.body.toList).length
        then some ((units before).length
          + (memoryPage document (units before).length n).body.length) else none := rfl
  rw [hpage, memoryPage_body hbody, hlength, units_append, List.length_append]
  cases rest with
  | nil => simp [units]
  | cons c rest =>
      have hpos : 0 < (units (c :: rest)).length := by
        have hunits : units (c :: rest) = charUnits c ++ units rest := rfl
        have hc := length_charUnits_pos c
        rw [hunits, List.length_append]
        omega
      rw [if_pos (by omega), if_neg (List.cons_ne_nil c rest)]

/-! ## Every page -/

/-- The pages from an offset on, to the last one. -/
inductive Reads (document : MemoryDocument) (length : Option Int) : Nat → List (List Nat) → Prop
  | last {offset : Nat} {page : MemoryPage}
      (h : readMemoryPage document ⟨some offset, length⟩ = .ok page)
      (hend : page.nextOffset = none) : Reads document length offset [page.body]
  | more {offset next : Nat} {page : MemoryPage} {pages : List (List Nat)}
      (h : readMemoryPage document ⟨some offset, length⟩ = .ok page)
      (hnext : page.nextOffset = some next) (hrest : Reads document length next pages) :
      Reads document length offset (page.body :: pages)

/-- All of a text, and no part of a character. -/
structure Whole (text : List Nat) (pages : List (List Nat)) : Prop where
  text : pages.flatten = text
  paired : ∀ page ∈ pages, WellPaired page

theorem size_of_mem_fitting {n : Nat} (h : c ∈ fitting n chars) : c.utf8Size ≤ n := by
  induction chars generalizing n with
  | nil => cases h
  | cons d chars ih =>
      rw [fitting] at h
      split at h
      · rename_i hd
        rcases List.mem_cons.1 h with rfl | hrest
        · exact hd
        · exact (ih hrest).trans (Nat.sub_le n d.utf8Size)
      · cases h

/-- Reading that ends has read what was there, and every character had room on its page. -/
theorem Reads.whole {pages : List (List Nat)}
    (h : Reads document length (units before).length pages)
    (hbody : document.body.toList = before ++ chars)
    (hsize : document.body.utf8ByteSize ≤ memoryBodyBytes) (hlength : AllowedLength length) :
    Whole (units chars) pages ∧ ∀ c ∈ chars, c.utf8Size ≤ (length.getD 2400).toNat := by
  generalize hoffset : (units before).length = offset at h
  induction h generalizing before chars with
  | last hread hend =>
      subst hoffset
      obtain ⟨rest, hsplit, -, -⟩ := fitting_split (length.getD 2400).toNat chars
      rw [readMemoryPage_eq hbody hsize hlength] at hread
      cases hread
      rw [memoryPage_next hbody hsplit] at hend
      have hrest : rest = [] := by
        by_contra hne
        rw [if_neg hne] at hend
        cases hend
      rw [hrest, List.append_nil] at hsplit
      rw [memoryPage_body hbody, ← hsplit]
      refine ⟨⟨by simp, by simpa using wellPaired_units chars⟩, fun c hc => ?_⟩
      rw [hsplit] at hc
      exact size_of_mem_fitting hc
  | more hread hnext _ ih =>
      subst hoffset
      obtain ⟨rest, hsplit, -, -⟩ := fitting_split (length.getD 2400).toNat chars
      rw [readMemoryPage_eq hbody hsize hlength] at hread
      cases hread
      rw [memoryPage_next hbody hsplit] at hnext
      split at hnext
      · cases hnext
      · have hafter : document.body.toList
            = (before ++ fitting (length.getD 2400).toNat chars) ++ rest := by
          rw [hbody, List.append_assoc, ← hsplit]
        obtain ⟨hwhole, hfits⟩ := ih hafter (Option.some.inj hnext)
        rw [memoryPage_body hbody]
        refine ⟨⟨?_, List.forall_mem_cons.2 ⟨wellPaired_units _, hwhole.paired⟩⟩, fun c hc => ?_⟩
        · conv_rhs => rw [hsplit, units_append]
          rw [List.flatten_cons, hwhole.text]
        · rw [hsplit] at hc
          rcases List.mem_append.1 hc with hfitting | hrest
          · exact size_of_mem_fitting hfitting
          · exact hfits c hrest

/-- Where every character has room on a page, each page makes progress. -/
theorem reads_of_fits (hbody : document.body.toList = before ++ chars)
    (hsize : document.body.utf8ByteSize ≤ memoryBodyBytes) (hlength : AllowedLength length)
    (hfits : ∀ c ∈ chars, c.utf8Size ≤ (length.getD 2400).toNat) :
    ∃ pages, Reads document length (units before).length pages := by
  induction hn : chars.length using Nat.strong_induction_on generalizing before chars with
  | _ n ih =>
      subst hn
      obtain ⟨rest, hsplit, -, -⟩ := fitting_split (length.getD 2400).toNat chars
      have hread := readMemoryPage_eq hbody hsize hlength
      have hnext := memoryPage_next hbody hsplit
      by_cases hrest : rest = []
      · rw [if_pos hrest] at hnext
        exact ⟨_, .last hread hnext⟩
      · rw [if_neg hrest] at hnext
        have hafter : document.body.toList
            = (before ++ fitting (length.getD 2400).toNat chars) ++ rest := by
          rw [hbody, List.append_assoc, ← hsplit]
        have hshorter : rest.length < chars.length := by
          cases chars with
          | nil =>
              rw [fitting, List.nil_append] at hsplit
              exact absurd hsplit.symm hrest
          | cons c chars =>
              have hlengths := congrArg List.length hsplit
              rw [fitting, if_pos (hfits c List.mem_cons_self)] at hlengths
              simp only [List.length_append, List.length_cons] at hlengths
              rw [List.length_cons]
              omega
        have hrests : ∀ c ∈ rest, c.utf8Size ≤ (length.getD 2400).toNat := fun c hc =>
          hfits c (by rw [hsplit]; exact List.mem_append_right _ hc)
        obtain ⟨pages, hpages⟩ := ih rest.length hshorter hafter hrests rfl
        exact ⟨_, .more hread hnext hpages⟩

/-- Reading from the start ends with the whole body exactly when no character takes more bytes
    than a page has. -/
theorem reads_whole_iff (document : MemoryDocument)
    (hsize : document.body.utf8ByteSize ≤ memoryBodyBytes) (hlength : AllowedLength length) :
    (∃ pages, Reads document length 0 pages ∧ Whole (units document.body.toList) pages)
      ↔ ∀ c ∈ document.body.toList, c.utf8Size ≤ (length.getD 2400).toNat := by
  have hbody : document.body.toList = [] ++ document.body.toList := rfl
  constructor
  · rintro ⟨pages, hpages : Reads document length (units []).length pages, -⟩
    exact (hpages.whole hbody hsize hlength).2
  · intro hfits
    obtain ⟨pages, hpages⟩ := reads_of_fits hbody hsize hlength hfits
    exact ⟨pages, hpages, (hpages.whole hbody hsize hlength).1⟩

private def bodyOf (body : String) : MemoryDocument where
  scope := ⟨"t", "user", "u"⟩
  path := "notes.md"
  title := "Notes"
  description := "Notes"
  body := body
  layer := .core
  kind := "note"
  origin := .explicit
  locked := false
  version := 1
  status := .active
  sources := []
  validUntil := none
  updatedAt := 0
  id := "m"

theorem reads_whole_iff_three :
    ∃ pages, Reads (bodyOf "é中a") (some 3) 0 pages ∧ Whole (units "é中a".toList) pages := by
  have hlength : AllowedLength (some 3) := by
    rintro n ⟨⟩
    omega
  have hfits : (("é中a" : String).toList.all fun c => decide (c.utf8Size ≤ 3)) = true := by
    decide +kernel
  refine (reads_whole_iff (bodyOf "é中a") (by decide +kernel) hlength).2 fun c hc => ?_
  exact of_decide_eq_true (List.all_eq_true.1 hfits c hc)

/-- A page that leads to itself is read forever. -/
theorem not_reads_of_next {offset : Nat} {page : MemoryPage}
    (h : readMemoryPage document ⟨some offset, length⟩ = .ok page)
    (hnext : page.nextOffset = some offset) (pages : List (List Nat)) :
    ¬ Reads document length offset pages := by
  intro hreads
  induction hreads with
  | last hread hend =>
      cases h.symm.trans hread
      rw [hend] at hnext
      cases hnext
  | more hread hmore _ ih =>
      cases h.symm.trans hread
      cases hmore.symm.trans hnext
      exact ih h hnext

/-- No page of one byte has room for a character of three. -/
theorem one_byte_page :
    readMemoryPage (bodyOf "中") ⟨some 0, some 1⟩
        = .ok ⟨memoryEntry (bodyOf "中"), [], 0, some 0, [], 0⟩
      ∧ ∀ pages, ¬ Reads (bodyOf "中") (some 1) 0 pages := by
  have hpage : readMemoryPage (bodyOf "中") ⟨some 0, some 1⟩
      = .ok ⟨memoryEntry (bodyOf "中"), [], 0, some 0, [], 0⟩ := by decide +kernel
  exact ⟨hpage, not_reads_of_next hpage rfl⟩

end LingxiOS.Memories
