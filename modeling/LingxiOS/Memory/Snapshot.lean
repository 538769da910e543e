-- SUMMARY: The memory snapshot of a prompt within a byte budget.
import LingxiOS.Base.Double
import LingxiOS.Base.Greedy
import LingxiOS.Protocol.JsonSize
import LingxiOS.Protocol.LiveValue

/-! # Memory Snapshots

A snapshot has four lists of records. It is cut down to a budget record by record: one that
does not fit in the bytes left is counted as omitted, and those after it are still tried. -/

namespace LingxiOS.Memories

open JsonText Stringify

/-! ## Snapshots -/

/-- The lists of a snapshot, in the order they are filled. -/
inductive Field where
  | core | directory | recalled | strategies
  deriving DecidableEq

def Field.all : List Field := [.core, .directory, .recalled, .strategies]

def Field.name : Field → String
  | .core => "core"
  | .directory => "directory"
  | .recalled => "recalled"
  | .strategies => "strategies"

inductive SnapshotStatus where
  | available | unavailable

def SnapshotStatus.text : SnapshotStatus → String
  | .available => "available"
  | .unavailable => "unavailable"

inductive Retrieval where
  | browse | keyword | hybrid | keywordEmbeddingUnavailable | optionalTimeout | optionalDeferred

def Retrieval.text : Retrieval → String
  | .browse => "browse"
  | .keyword => "keyword"
  | .hybrid => "hybrid"
  | .keywordEmbeddingUnavailable => "keyword_embedding_unavailable"
  | .optionalTimeout => "optional_timeout"
  | .optionalDeferred => "optional_deferred"

/-- A document, an entry, a hit or a strategy: an object with some properties. -/
abbrev Item := List (Units × Live)

/-- What `JSON.stringify` writes of an item. -/
def itemValue (item : Item) : Value Number := .obj (Live.serializeMembers item)

example (item : Item) : Live.serialize (.obj item) = some (itemValue item) := rfl

/-- The budget of the settings: a share of the context window above zero, and a safe integer. -/
structure MemoryBudget where
  ratio : ℚ
  ratioText : Number
  maxTokens : ℕ
  ratio_denotes : Double.ofLiteral ratioText = .finite ratio
  ratio_pos : 0 < ratio
  maxTokens_safe : maxTokens < 2 ^ 53

/-- `Omit<MemorySnapshot, 'id'>`. -/
structure SnapshotContents where
  status : SnapshotStatus
  items : Field → List Item
  omitted : Field → ℕ
  budget : MemoryBudget
  retrieval : List Retrieval
  /-- An array has less than 2³² items. -/
  items_lt : ∀ field, (items field).length < 2 ^ 32

structure MemorySnapshot extends SnapshotContents where
  id : Units

def SnapshotContents.members (contents : SnapshotContents) : List (Units × Value Number) :=
  (literal "status", .str (literal contents.status.text))
  :: Field.all.map (fun field =>
      (literal field.name, .arr ((contents.items field).map itemValue)))
  ++ [(literal "omitted", .obj (Field.all.map fun field =>
        (literal field.name, .num (.ofInt (contents.omitted field))))),
      (literal "budget", .obj [(literal "ratio", .num contents.budget.ratioText),
        (literal "maxTokens", .num (.ofInt contents.budget.maxTokens))]),
      (literal "retrieval", .arr (contents.retrieval.map fun mode => .str (literal mode.text)))]

def MemorySnapshot.members (snapshot : MemorySnapshot) : List (Units × Value Number) :=
  snapshot.toSnapshotContents.members ++ [(literal "id", .str snapshot.id)]

/-- `Buffer.byteLength(JSON.stringify(value))`. -/
def jsonBytes (members : List (Units × Value Number)) : ℕ :=
  byteLength (print jsStyle Number.text (.obj members))

/-- `createHash('sha256').update(text).digest('hex')`. -/
structure Sha256 where
  hex : Units → Units
  hex_length : ∀ text, (hex text).length = 64
  hex_digits : ∀ text, ∀ u ∈ hex text, (48 ≤ u ∧ u ≤ 57) ∨ (97 ≤ u ∧ u ≤ 102)

def memoryDigest (sha256 : Sha256) (members : List (Units × Value Number)) : Units :=
  sha256.hex (print jsStyle Number.text (.obj members))

def snapshotMemories (sha256 : Sha256) (input : SnapshotContents) : MemorySnapshot :=
  { input with id := literal "memory:" ++ memoryDigest sha256 input.members }

/-! ## Fitting -/

def effectiveMax (budget : MemoryBudget) (contextWindowTokens availableTokens : Double) : Double :=
  max (.finite 0) (min (.finite budget.maxTokens)
    (min (contextWindowTokens.scale budget.ratio).floor availableTokens))

/-- The source with empty lists. -/
def MemorySnapshot.emptied (source : MemorySnapshot) : MemorySnapshot :=
  { source with items := fun _ => [], items_lt := fun _ => by simp }

def base (source : MemorySnapshot) : ℕ := jsonBytes source.emptied.members + 128

/-- The state of the loops. -/
structure Fitting where
  remaining : Double
  items : Field → List Item
  omitted : Field → ℕ

/-- The bytes an item takes in a list, with a comma. -/
def itemBytes (item : Item) : ℕ := jsonBytes (Live.serializeMembers item) + 1

def fitItem (field : Field) (fitting : Fitting) (item : Item) : Fitting :=
  if fitting.remaining < .finite (itemBytes item) then
    { fitting with
      omitted := Function.update fitting.omitted field (fitting.omitted field + 1) }
  else
    { fitting with
      remaining := fitting.remaining.minus (itemBytes item)
      items := Function.update fitting.items field (fitting.items field ++ [item]) }

def fitField (source : SnapshotContents) (fitting : Fitting) (field : Field) : Fitting :=
  (source.items field).foldl (fitItem field) fitting

def fitFields (source : MemorySnapshot) (limit : Double) : Fitting :=
  Field.all.foldl (fitField source.toSnapshotContents)
    ⟨max (.finite 0) (limit.minus (base source)), fun _ => [], source.omitted⟩

/-! ## Entries -/

abbrev Entry := Field × Item

/-- The items of all lists, in the order they are tried. -/
def entries (items : Field → List Item) : List Entry :=
  Field.all.flatMap fun field => (items field).map (field, ·)

/-- The items of one list among some entries. -/
def ofField (field : Field) (list : List Entry) : List Item :=
  list.filterMap fun entry => if entry.1 = field then some entry.2 else none

theorem ofField_entries (items : Field → List Item) (field : Field) :
    ofField field (entries items) = items field := by
  have hown (other : Field) : ofField field ((items other).map (other, ·))
      = if other = field then items other else [] := by
    by_cases h : other = field <;> simp [ofField, List.filterMap_map, h]
  simp only [ofField] at hown
  cases field <;> simp [entries, Field.all, ofField, hown]

/-- Entries that are in the order of a snapshot are the entries of their lists. -/
theorem entries_ofField {items : Field → List Item} {list : List Entry}
    (h : list.Sublist (entries items)) : entries (ofField · list) = list := by
  have hpart {field : Field} {part : List Entry} (hpart : part.Sublist ((items field).map (field, ·))) :
      ∃ kept : List Item, part = kept.map (field, ·) := by
    obtain ⟨kept, -, rfl⟩ := List.sublist_map_iff.1 hpart
    exact ⟨kept, rfl⟩
  have hparts : ∃ items' : Field → List Item, list = entries items' := by
    simp only [entries, Field.all, List.flatMap_cons, List.flatMap_nil, List.append_nil] at h
    obtain ⟨core, rest, rfl, hcore, h⟩ := List.sublist_append_iff.1 h
    obtain ⟨directory, rest, rfl, hdirectory, h⟩ := List.sublist_append_iff.1 h
    obtain ⟨recalled, strategies, rfl, hrecalled, hstrategies⟩ := List.sublist_append_iff.1 h
    obtain ⟨core, rfl⟩ := hpart hcore
    obtain ⟨directory, rfl⟩ := hpart hdirectory
    obtain ⟨recalled, rfl⟩ := hpart hrecalled
    obtain ⟨strategies, rfl⟩ := hpart hstrategies
    exact ⟨Field.rec core directory recalled strategies, by simp [entries, Field.all]⟩
  obtain ⟨items', rfl⟩ := hparts
  simp only [ofField_entries]

@[simp] theorem ofField_nil (field : Field) : ofField field [] = [] := rfl

@[simp] theorem ofField_cons (field : Field) (entry : Entry) (list : List Entry) :
    ofField field (entry :: list)
      = if entry.1 = field then entry.2 :: ofField field list else ofField field list := by
  by_cases h : entry.1 = field <;> simp [ofField, h]

/-! ## The loops -/

def entryBytes (entry : Entry) : ℚ := itemBytes entry.2

def fitEntry (fitting : Fitting) (entry : Entry) : Fitting := fitItem entry.1 fitting entry.2

theorem fitFields_eq_foldl (source : MemorySnapshot) (limit : Double) : fitFields source limit
    = (entries source.items).foldl fitEntry
        ⟨max (.finite 0) (limit.minus (base source)), fun _ => [], source.omitted⟩ := by
  simp only [fitFields, entries, fitEntry, List.foldl_flatMap, List.foldl_map]
  rfl

/-- What the loops make of some entries. -/
structure Fits (room : ℚ) (list : List Entry) (fitting fitting' : Fitting) : Prop where
  remaining : fitting'.remaining
    = .finite (room - Greedy.total entryBytes (Greedy.keep entryBytes room list))
  items : ∀ field, fitting'.items field
    = fitting.items field ++ ofField field (Greedy.keep entryBytes room list)
  omitted : ∀ field,
    fitting'.omitted field + (ofField field (Greedy.keep entryBytes room list)).length
      = fitting.omitted field + (ofField field list).length

theorem fits_foldl {room : ℚ} {fitting : Fitting} (h : fitting.remaining = .finite room)
    (list : List Entry) : Fits room list fitting (list.foldl fitEntry fitting) := by
  induction list generalizing room fitting with
  | nil => exact ⟨by simp [h, Greedy.keep], by simp [Greedy.keep], by simp [Greedy.keep]⟩
  | cons entry rest ih =>
      by_cases hlt : room < entryBytes entry
      case pos =>
        have hstep : fitEntry fitting entry = { fitting with
            omitted := Function.update fitting.omitted entry.1 (fitting.omitted entry.1 + 1) } :=
          if_pos (by rw [h]; exact Double.finite_lt_finite.2 hlt)
        obtain ⟨hremaining, hitems, homitted⟩ := @ih room (fitEntry fitting entry) (by rw [hstep, h])
        refine ⟨?_, fun field => ?_, fun field => ?_⟩
        · rwa [Greedy.keep_cons_of_lt hlt]
        · rw [Greedy.keep_cons_of_lt hlt, List.foldl_cons, hitems, hstep]
        · rw [Greedy.keep_cons_of_lt hlt, List.foldl_cons, homitted, hstep]
          by_cases hfield : entry.1 = field
          · subst hfield
            simp
            omega
          · simp [hfield, Ne.symm hfield]
      case neg =>
        have hle := not_lt.1 hlt
        have hstep : fitEntry fitting entry = { fitting with
            remaining := fitting.remaining.minus (itemBytes entry.2)
            items := Function.update fitting.items entry.1 (fitting.items entry.1 ++ [entry.2]) } :=
          if_neg (by rw [h]; exact fun hfinite => hlt (Double.finite_lt_finite.1 hfinite))
        obtain ⟨hremaining, hitems, homitted⟩ :=
          @ih (room - entryBytes entry) (fitEntry fitting entry) (by rw [hstep, h]; rfl)
        refine ⟨?_, fun field => ?_, fun field => ?_⟩
        · rw [Greedy.keep_cons_of_le hle, List.foldl_cons, hremaining, Greedy.total_cons,
            sub_add_eq_sub_sub]
        · rw [Greedy.keep_cons_of_le hle, List.foldl_cons, hitems, hstep]
          by_cases hfield : entry.1 = field
          · subst hfield
            simp
          · simp [hfield, Ne.symm hfield]
        · have hrest := homitted field
          rw [hstep] at hrest
          rw [Greedy.keep_cons_of_le hle, List.foldl_cons, hstep]
          by_cases hfield : entry.1 = field <;> simp [hfield] at hrest ⊢ <;> omega

theorem effectiveMax_finite (budget : MemoryBudget) (contextWindowTokens availableTokens : Double) :
    ∃ q : ℚ, 0 ≤ q ∧ effectiveMax budget contextWindowTokens availableTokens = .finite q := by
  have hzero : Double.finite 0 ≤ effectiveMax budget contextWindowTokens availableTokens :=
    le_max_left _ _
  have hmost : effectiveMax budget contextWindowTokens availableTokens
      ≤ .finite budget.maxTokens := by
    refine max_le (Double.finite_le_finite.2 (Nat.cast_nonneg _)) (min_le_left _ _)
  obtain ⟨q, hq⟩ := Double.finite_of_le hzero hmost
  rw [hq] at hzero
  exact ⟨q, Double.finite_le_finite.1 hzero, hq⟩

/-- The room for items. -/
def roomOf (source : MemorySnapshot) (limit : ℚ) : ℚ := max 0 (limit - base source)

/-- The entries that are kept. -/
def keptEntries (source : MemorySnapshot) (limit : ℚ) : List Entry :=
  Greedy.keep entryBytes (roomOf source limit) (entries source.items)

theorem fits_fields (source : MemorySnapshot) (limit : ℚ) :
    Fits (roomOf source limit) (entries source.items)
      ⟨max (.finite 0) ((Double.finite limit).minus (base source)), fun _ => [], source.omitted⟩
      (fitFields source (.finite limit)) := by
  rw [fitFields_eq_foldl]
  exact fits_foldl (Double.max_finite _ _) _

theorem items_fitFields (source : MemorySnapshot) (limit : ℚ) (field : Field) :
    (fitFields source (.finite limit)).items field = ofField field (keptEntries source limit) := by
  have hitems := (fits_fields source limit).items field
  rwa [List.nil_append] at hitems

theorem fitFields_sublist (source : MemorySnapshot) (limit : ℚ) (field : Field) :
    ((fitFields source (.finite limit)).items field).Sublist (source.items field) := by
  have hkept := (Greedy.keep_sublist entryBytes (roomOf source limit)
    (entries source.items)).filterMap fun entry => if entry.1 = field then some entry.2 else none
  rw [items_fitFields]
  exact (ofField_entries source.items field) ▸ hkept

theorem items_lt_fitFields (source : MemorySnapshot) (contextWindowTokens availableTokens : Double)
    (field : Field) : ((fitFields source (effectiveMax source.budget contextWindowTokens
      availableTokens)).items field).length < 2 ^ 32 := by
  obtain ⟨limit, -, hlimit⟩ := effectiveMax_finite source.budget contextWindowTokens availableTokens
  rw [hlimit]
  exact (fitFields_sublist source limit field).length_le.trans_lt (source.items_lt field)

def fitMemorySnapshot (sha256 : Sha256) (source : MemorySnapshot)
    (contextWindowTokens availableTokens : Double) : MemorySnapshot :=
  let fitting := fitFields source (effectiveMax source.budget contextWindowTokens availableTokens)
  snapshotMemories sha256 { source.toSnapshotContents with
    items := fitting.items
    omitted := fitting.omitted
    items_lt := items_lt_fitFields source contextWindowTokens availableTokens }

/-! ## Sizes -/

def listBytes (items : List Item) : ℕ :=
  byteLength (print jsStyle Number.text (.arr (items.map itemValue)))

def countBytes (n : ℕ) : ℕ := byteLength (Number.ofInt n).text

/-- The bytes that depend on the items, the counts and the identifier. -/
def variableBytes (snapshot : MemorySnapshot) : ℕ :=
  (Field.all.map fun field => listBytes (snapshot.items field)).sum
    + (Field.all.map fun field => countBytes (snapshot.omitted field)).sum
    + byteLength (stringifyText snapshot.id)

/-- Snapshots that agree in the rest differ in those bytes only. -/
theorem jsonBytes_members {a b : MemorySnapshot} (hstatus : a.status = b.status)
    (hbudget : a.budget = b.budget) (hretrieval : a.retrieval = b.retrieval) :
    jsonBytes a.members + variableBytes b = jsonBytes b.members + variableBytes a := by
  have hid (snapshot : MemorySnapshot) := byteLength_str snapshot.id
  have hnumber (n : Number) : print jsStyle Number.text (.num n) = n.text := rfl
  simp only [jsonBytes, MemorySnapshot.members, SnapshotContents.members, variableBytes, listBytes,
    countBytes, Field.all, List.map_cons, List.map_nil, List.cons_append, List.nil_append,
    byteLength_obj, hid, hnumber, List.sum_cons, List.sum_nil, List.length_cons, List.length_nil,
    hstatus, hbudget, hretrieval]
  omega

theorem listBytes_nil : listBytes [] = 2 := by decide

theorem listBytes_le (items : List Item) : listBytes items ≤ 2 + (items.map itemBytes).sum := by
  have hcommas : (items.map itemBytes).sum
      = (items.map fun item => jsonBytes (Live.serializeMembers item)).sum + items.length := by
    induction items with
    | nil => rfl
    | cons item rest ih =>
        simp only [List.map_cons, List.sum_cons, List.length_cons, ih, itemBytes]
        omega
  rw [listBytes, byteLength_arr, hcommas, List.map_map, List.length_map]
  show 2 + (items.map fun item => jsonBytes (Live.serializeMembers item)).sum + _ ≤ _
  omega

theorem countBytes_eq (n : ℕ) : countBytes n = max 1 (Nat.digits 10 n).length := by
  have hascii : ∀ u ∈ (Number.ofInt n).text, u < 0x80 := fun u hu => by
    have hbounds := (Number.ofInt n).text_bounds u hu
    omega
  rw [countBytes, byteLength_ascii hascii, Number.length_ofInt (Int.natCast_nonneg n),
    Int.natAbs_natCast]

/-- A count that grows by less than 2³² takes ten digits more at most. -/
theorem countBytes_add_le {n k : ℕ} (h : k < 2 ^ 32) : countBytes (n + k) ≤ countBytes n + 10 := by
  have hn : n < 10 ^ max 1 (Nat.digits 10 n).length :=
    (Nat.lt_base_pow_length_digits (by decide)).trans_le
      (Nat.pow_le_pow_right (by decide) (le_max_right _ _))
  have hsum : n + k < 10 ^ (max 1 (Nat.digits 10 n).length + 10) := by
    have hone : 10 ^ 1 ≤ 10 ^ max 1 (Nat.digits 10 n).length :=
      Nat.pow_le_pow_right (by decide) (le_max_left _ _)
    rw [Nat.pow_add]
    omega
  rw [countBytes_eq, countBytes_eq]
  refine max_le (by omega) ?_
  exact (Nat.digits_length_le_iff (by decide) _).2 hsum

/-- The identifier of a snapshot has 71 characters. -/
theorem byteLength_snapshotMemories (sha256 : Sha256) (input : SnapshotContents) :
    byteLength (stringifyText (snapshotMemories sha256 input).id) = 71 := by
  have hname : ∀ u ∈ literal "memory:", 32 ≤ u ∧ u < 0x80 ∧ u ≠ 34 ∧ u ≠ 92 := by decide
  have hplain : ∀ u ∈ literal "memory:" ++ memoryDigest sha256 input.members,
      32 ≤ u ∧ u < 0x80 ∧ u ≠ 34 ∧ u ≠ 92 := by
    intro u hu
    rcases List.mem_append.1 hu with hu | hu
    · exact hname u hu
    · have hdigit := sha256.hex_digits _ u hu
      omega
  rw [snapshotMemories, stringifyText_plain hplain, byteLength_ascii fun u hu => (hplain u hu).2.1,
    List.length_append, memoryDigest, sha256.hex_length]
  rfl

/-- The bytes of some entries. -/
def bytesOf (list : List Entry) : ℕ := (list.map fun entry => itemBytes entry.2).sum

theorem total_entryBytes (list : List Entry) : Greedy.total entryBytes list = bytesOf list := by
  induction list with
  | nil => rfl
  | cons entry rest ih => simp only [Greedy.total_cons, ih, bytesOf, List.map_cons, List.sum_cons,
      Nat.cast_add, entryBytes]

theorem bytesOf_pos {list : List Entry} (h : list ≠ []) : 0 < bytesOf list := by
  obtain ⟨entry, rest, rfl⟩ := List.exists_cons_of_ne_nil h
  simp only [bytesOf, List.map_cons, List.sum_cons, itemBytes]
  omega

theorem bytesOf_entries (items : Field → List Item) : bytesOf (entries items)
    = (Field.all.map fun field => ((items field).map itemBytes).sum).sum := by
  simp [bytesOf, entries, Field.all, Function.comp_def]

/-! ## The result -/

section Result

variable (sha256 : Sha256) (source : MemorySnapshot) (contextWindowTokens availableTokens : Double)
  {limit : ℚ}

/-- A snapshot cut down to a limit. -/
structure Fitted (source : MemorySnapshot) (limit : Double) (result : MemorySnapshot) : Prop where
  sublist : ∀ field, (result.items field).Sublist (source.items field)
  counted : ∀ field, (result.items field).length + result.omitted field
    = (source.items field).length + source.omitted field
  /-- An item is left out only if it has no room beside the earlier ones that are kept, and
      those kept later are smaller. -/
  in_order : ∀ before entry after, entries source.items = before ++ entry :: after →
    ∃ earlier later, earlier.Sublist before ∧ later.Sublist after
      ∧ (entries result.items = earlier ++ entry :: later
        ∨ entries result.items = earlier ++ later
          ∧ limit < .finite ((base source + bytesOf earlier + itemBytes entry.2 : ℕ) : ℚ)
          ∧ ∀ e ∈ later, itemBytes e.2 < itemBytes entry.2)
  size_le : (∃ field, result.items field ≠ []) → .finite (jsonBytes result.members) ≤ limit

variable {contextWindowTokens availableTokens}
  (hlimit : effectiveMax source.budget contextWindowTokens availableTokens = .finite limit)

include hlimit

theorem entries_fitMemorySnapshot :
    entries (fitMemorySnapshot sha256 source contextWindowTokens availableTokens).items
      = keptEntries source limit := by
  have hitems : (fitMemorySnapshot sha256 source contextWindowTokens availableTokens).items
      = (ofField · (keptEntries source limit)) := by
    funext field
    rw [← items_fitFields, ← hlimit]
    rfl
  rw [hitems]
  exact entries_ofField (Greedy.keep_sublist _ _ _)

theorem sublist_fitMemorySnapshot (field : Field) :
    ((fitMemorySnapshot sha256 source contextWindowTokens availableTokens).items field).Sublist
      (source.items field) := by
  have hsublist := fitFields_sublist source limit field
  rw [← hlimit] at hsublist
  exact hsublist

theorem counted_fitMemorySnapshot (field : Field) :
    ((fitMemorySnapshot sha256 source contextWindowTokens availableTokens).items field).length
      + (fitMemorySnapshot sha256 source contextWindowTokens availableTokens).omitted field
      = (source.items field).length + source.omitted field := by
  have homitted := (fits_fields source limit).omitted field
  have hitems := items_fitFields source limit field
  rw [ofField_entries] at homitted
  rw [keptEntries] at hitems
  rw [← hitems, ← hlimit] at homitted
  change ((fitFields source _).items field).length + (fitFields source _).omitted field = _
  rw [Nat.add_comm, homitted]
  exact Nat.add_comm _ _

theorem jsonBytes_fitMemorySnapshot :
    jsonBytes (fitMemorySnapshot sha256 source contextWindowTokens availableTokens).members + 17
      ≤ base source
        + bytesOf (entries
          (fitMemorySnapshot sha256 source contextWindowTokens availableTokens).items) := by
  have hcounted := counted_fitMemorySnapshot sha256 source hlimit
  have hsublist := sublist_fitMemorySnapshot sha256 source hlimit
  have hsame := @jsonBytes_members
    (fitMemorySnapshot sha256 source contextWindowTokens availableTokens) source.emptied rfl rfl rfl
  have hid : byteLength (stringifyText
      (fitMemorySnapshot sha256 source contextWindowTokens availableTokens).id) = 71 :=
    byteLength_snapshotMemories sha256 _
  have hempty (field : Field) : listBytes (source.emptied.items field) = 2 := listBytes_nil
  have homitted (field : Field) : source.emptied.omitted field = source.omitted field := rfl
  generalize fitMemorySnapshot sha256 source contextWindowTokens availableTokens = result at *
  have hcount (field : Field) :
      countBytes (result.omitted field) ≤ countBytes (source.omitted field) + 10 := by
    have hfield := hcounted field
    have hlt := source.items_lt field
    have hlength := (hsublist field).length_le
    obtain ⟨k, hk⟩ := Nat.exists_eq_add_of_le
      (show source.omitted field ≤ result.omitted field by omega)
    rw [hk]
    exact countBytes_add_le (by omega)
  have hcore := listBytes_le (result.items .core)
  have hdirectory := listBytes_le (result.items .directory)
  have hrecalled := listBytes_le (result.items .recalled)
  have hstrategies := listBytes_le (result.items .strategies)
  have hcore' := hcount .core
  have hdirectory' := hcount .directory
  have hrecalled' := hcount .recalled
  have hstrategies' := hcount .strategies
  simp only [variableBytes, Field.all, List.map_cons, List.map_nil, List.sum_cons, List.sum_nil,
    hempty, homitted, hid] at hsame
  simp only [base, bytesOf_entries, Field.all, List.map_cons, List.map_nil, List.sum_cons, List.sum_nil]
  omega

end Result

/-- Cut down to the smallest of three limits, a snapshot keeps the first items that fit, counts
    the others and takes no more bytes than the limit if it keeps any. -/
theorem fitMemorySnapshot_fitted (sha256 : Sha256) (source : MemorySnapshot)
    (contextWindowTokens availableTokens : Double) :
    Fitted source (effectiveMax source.budget contextWindowTokens availableTokens)
      (fitMemorySnapshot sha256 source contextWindowTokens availableTokens) := by
  obtain ⟨limit, hpos, hlimit⟩ :=
    effectiveMax_finite source.budget contextWindowTokens availableTokens
  have hentries := entries_fitMemorySnapshot sha256 source hlimit
  have hsize := jsonBytes_fitMemorySnapshot sha256 source hlimit
  have hnonneg (entry : Entry) : 0 ≤ entryBytes entry := Nat.cast_nonneg _
  have hroom : 0 ≤ roomOf source limit := le_max_left _ _
  rw [hlimit]
  refine ⟨sublist_fitMemorySnapshot sha256 source hlimit,
    counted_fitMemorySnapshot sha256 source hlimit, fun before entry after hsplit => ?_, ?_⟩
  · obtain ⟨later, hlater, hkept⟩ :=
      Greedy.keep_split hnonneg (roomOf source limit) before entry after
    rw [← hsplit, ← keptEntries, ← hentries] at hkept
    refine ⟨_, later, Greedy.keep_sublist _ _ before, hlater, hkept.imp_right ?_⟩
    rintro ⟨hkept, hfull, hsmaller⟩
    refine ⟨hkept, Double.finite_lt_finite.2 ?_, fun e he => Nat.cast_lt.1 (hsmaller e he)⟩
    have hle := (le_max_right 0 (limit - base source)).trans_lt hfull
    rw [total_entryBytes, sub_lt_iff_lt_add', ← add_assoc] at hle
    rw [Nat.cast_add, Nat.cast_add]
    exact hle
  · rintro ⟨field, hne⟩
    have htotal : Greedy.total entryBytes (keptEntries source limit) ≤ roomOf source limit :=
      Greedy.total_keep_le hroom _
    rw [← hentries, total_entryBytes] at htotal
    have hkept : entries
        (fitMemorySnapshot sha256 source contextWindowTokens availableTokens).items ≠ [] := by
      intro hnil
      have hitems := ofField_entries
        (fitMemorySnapshot sha256 source contextWindowTokens availableTokens).items field
      rw [hnil] at hitems
      exact hne hitems.symm
    have hbytes : (0 : ℚ) < _ := Nat.cast_pos.2 (bytesOf_pos hkept)
    rw [roomOf] at htotal
    have hroom := (lt_max_iff.1 (hbytes.trans_le htotal)).resolve_left (lt_irrefl 0)
    rw [max_eq_right hroom.le, le_sub_iff_add_le'] at htotal
    refine Double.finite_le_finite.2 (le_trans ?_ htotal)
    exact_mod_cast (Nat.le_add_right _ 17).trans hsize

end LingxiOS.Memories
