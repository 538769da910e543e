-- SUMMARY: candidateHash before and after the message is stored.
import LingxiOS.Base.Latest
import LingxiOS.Outcome.Column

/-! # Candidate Digests

A candidate is known by a digest of its body and its artifacts. It is taken where the candidate
is checked and where it is committed, of the artifacts as a run reported them, and once more
where a reader is sent the state, of the message as the database gives it back. -/

namespace LingxiOS.CandidateHash

open JsonText (Units Value Number print parse)
open Stringify (Live literal jsStyle)
open Workspace (property safeInteger? split isForbidden foldUnit isLowerHex)
open Column (stored)

/-! ## Artifacts -/

def validPath (path : Units) : Bool :=
  0 < path.length && path.length ≤ 4096 && !path.any isForbidden
    && (split path).all fun part => part ≠ [] && part ≠ literal "." && part ≠ literal ".."

def isString : Live → Bool
  | .str _ => true
  | _ => false

def isReference : Live → Bool
  | .str s => 0 < s.length && s.length ≤ 2000
  | _ => false

def validSource : Live → Except String Bool
  | .undefined => .ok true
  | .null => .error "Cannot read properties of null (reading 'ref')"
  | source => .ok (isReference (property source "ref") && isReference (property source "version"))

/-- `/^[a-f0-9]{64}$/i`. -/
def isDigest : Live → Bool
  | .str s => s.length == 64 && s.all fun u => isLowerHex (foldUnit u)
  | _ => false

/-- The condition on one item; `every` passes over a hole. -/
def isArtifact : Live → Except String Bool
  | .hole => .ok true
  | item =>
      match property item "path", safeInteger? (property item "size") with
      | .str path, some size =>
          if validPath path && 0 ≤ size then do
            let sourced ← validSource (property item "source")
            return sourced && isString (property item "mime") && isDigest (property item "sha256")
          else .ok false
      | _, _ => .ok false

def everyArtifact : List Live → Except String Bool
  | [] => .ok true
  | item :: rest => do
      if ← isArtifact item then everyArtifact rest
      else return false

def isHole : Live → Bool
  | .hole => true
  | _ => false

def pathOf (artifact : Live) : Units :=
  match property artifact "path" with
  | .str path => path
  | _ => []

def snapshotArtifacts : Live → Except String (List Live)
  | .arr items =>
      if 512 < items.length then .error "invalid response artifacts"
      else do
        let valid ← everyArtifact items
        if !valid then .error "invalid response artifacts"
        -- `new Map` of a list with a hole.
        else if items.any isHole then .error "Iterator value undefined is not an entry object"
        else .ok (lastByKey pathOf items)
  | _ => .error "invalid response artifacts"

/-! ## Digests -/

structure Candidate where
  body : Live
  artifacts : Live

namespace Candidate

/-- `JSON.stringify({ body: candidate.body, artifacts })`. -/
def text (body : Live) (artifacts : List Live) : Units :=
  (Live.stringify (.obj [(literal "body", body), (literal "artifacts", .arr artifacts)])).getD []

/-- The text that the digest is taken of; a clone of an artifact is written as the artifact. -/
def hashed (candidate : Candidate) : Except String Units := do
  let artifacts ← snapshotArtifacts candidate.artifacts
  return text candidate.body artifacts

/-- What of a message is a candidate. -/
def ofMessage (message : Live) : Candidate where
  body := property message "body"
  artifacts := property (property message "envelope") "artifacts"

end Candidate

variable (sha256 : Units → String)

def candidateHash (candidate : Candidate) : Except String String := do
  return sha256 (← candidate.hashed)

/-- The digest that verification records are stored under: the service checks a candidate with
    a snapshot of its artifacts. -/
def verificationHash (candidate : Candidate) : Except String String := do
  let artifacts ← snapshotArtifacts candidate.artifacts
  candidateHash sha256 { candidate with artifacts := .arr artifacts }

/-- The digest of a `response.committed` event. -/
def committedHash (message : Live) : Except String String :=
  candidateHash sha256 (.ofMessage message)

/-- The digest of a `state` item, of the message in the row that was read. -/
def stateHash (row : Live) : Except String String := candidateHash sha256 (.ofMessage row)

/-! ## What is accepted -/

variable {sha256} {item : Live} {items kept : List Live}

/-- An item that is accepted as an artifact. -/
structure IsArtifact (item : Live) : Prop where
  path : ∃ path, property item "path" = .str path ∧ validPath path = true
  size : ∃ size, safeInteger? (property item "size") = some size ∧ 0 ≤ size
  source : validSource (property item "source") = .ok true
  mime : isString (property item "mime") = true
  sha256 : isDigest (property item "sha256") = true

theorem isArtifact_iff (h : isHole item = false) :
    isArtifact item = .ok true ↔ IsArtifact item := by
  have hitem : isArtifact item =
      match property item "path", safeInteger? (property item "size") with
      | .str path, some size =>
          if validPath path && 0 ≤ size then do
            let sourced ← validSource (property item "source")
            return sourced && isString (property item "mime") && isDigest (property item "sha256")
          else .ok false
      | _, _ => .ok false := by
    cases item <;> first | rfl | cases h
  rw [hitem]
  constructor
  · intro hok
    split at hok
    case h_2 => cases hok
    case h_1 path size hpath hsize =>
      split at hok
      case isFalse => cases hok
      case isTrue hvalid =>
        rw [Bool.and_eq_true, decide_eq_true_eq] at hvalid
        cases hsource : validSource (property item "source") with
        | error message =>
            rw [hsource] at hok
            cases hok
        | ok sourced =>
            rw [hsource] at hok
            have hall := Except.ok.inj hok
            rw [Bool.and_eq_true, Bool.and_eq_true] at hall
            obtain ⟨⟨rfl, hmime⟩, hsha⟩ := hall
            exact ⟨⟨path, hpath, hvalid.1⟩, ⟨size, hsize, hvalid.2⟩, hsource, hmime, hsha⟩
  · rintro ⟨⟨path, hpath, hvalid⟩, ⟨size, hsize, hpos⟩, hsource, hmime, hsha⟩
    simp only [hpath, hsize, hvalid, hpos, decide_true, Bool.and_self, if_true, hsource, hmime,
      hsha]
    rfl

theorem everyArtifact_iff :
    everyArtifact items = .ok true ↔ ∀ item ∈ items, isArtifact item = .ok true := by
  induction items with
  | nil => simp [everyArtifact]
  | cons item rest ih =>
      rw [everyArtifact, List.forall_mem_cons]
      cases hitem : isArtifact item with
      | error message =>
          refine iff_of_false (fun h => by cases h) fun h => ?_
          cases h.1
      | ok valid =>
          cases valid with
          | true =>
              rw [← ih]
              exact (and_iff_right rfl).symm
          | false =>
              refine iff_of_false (fun h => by cases h) fun h => ?_
              cases h.1

theorem IsArtifact.not_hole (h : IsArtifact item) : isHole item = false := by
  obtain ⟨path, hpath, -⟩ := h.path
  cases item <;> first | rfl | cases hpath

/-- The items are artifacts exactly when they pass and none is a hole. -/
theorem everyArtifact_and_iff : everyArtifact items = .ok true ∧ items.any isHole = false
    ↔ ∀ item ∈ items, IsArtifact item := by
  rw [everyArtifact_iff, List.any_eq_false]
  constructor
  · rintro ⟨hitems, hholes⟩ item hitem
    exact (isArtifact_iff (by simpa using hholes item hitem)).1 (hitems item hitem)
  · intro h
    refine ⟨fun item hitem => ?_, fun item hitem => ?_⟩
    · exact (isArtifact_iff (h item hitem).not_hole).2 (h item hitem)
    · simp [(h item hitem).not_hole]

theorem snapshotArtifacts_eq_ok_iff : snapshotArtifacts (.arr items) = .ok kept ↔
    items.length ≤ 512 ∧ (∀ item ∈ items, IsArtifact item) ∧ kept = lastByKey pathOf items := by
  rw [snapshotArtifacts, ← everyArtifact_and_iff]
  by_cases hlength : 512 < items.length
  case pos =>
    rw [if_pos hlength]
    exact iff_of_false (fun h => by cases h) fun h => absurd hlength (Nat.not_lt.2 h.1)
  case neg =>
    rw [if_neg hlength]
    have hle : items.length ≤ 512 := Nat.not_lt.1 hlength
    cases everyArtifact items with
    | error message => exact iff_of_false (fun h => by cases h) fun h => by cases h.2.1.1
    | ok valid =>
        cases valid with
        | false => exact iff_of_false (fun h => by cases h) fun h => by cases h.2.1.1
        | true =>
            cases items.any isHole with
            | true => exact iff_of_false (fun h => by cases h) fun h => by cases h.2.1.2
            | false =>
                constructor
                · exact fun h => ⟨hle, ⟨rfl, rfl⟩, (Except.ok.inj h).symm⟩
                · exact fun h => h.2.2 ▸ rfl

/-- A snapshot is accepted as it is. -/
theorem snapshotArtifacts_kept (h : snapshotArtifacts (.arr items) = .ok kept) :
    snapshotArtifacts (.arr kept) = .ok kept := by
  obtain ⟨hlength, hitems, rfl⟩ := snapshotArtifacts_eq_ok_iff.1 h
  refine snapshotArtifacts_eq_ok_iff.2 ⟨length_lastByKey_le.trans hlength, ?_, ?_⟩
  · exact fun item hitem => hitems item (mem_of_mem_lastByKey hitem)
  · exact (lastByKey_of_nodup nodup_lastByKey).symm

/-! ## What is read back -/

theorem proper_property (h : item.Proper) (name : String) : (property item name).Proper := by
  cases item with
  | obj members =>
      rcases Column.property_cases members name with hnone | hmem
      · rw [Column.property_eq_undefined hnone]
        trivial
      · exact (Live.properMembers_iff.1 h.2 _ hmem).2
  | _ => trivial

theorem IsArtifact.isObject (h : IsArtifact item) : ∃ members, item = .obj members := by
  obtain ⟨path, hpath, -⟩ := h.path
  cases item with
  | obj members => exact ⟨members, rfl⟩
  | _ => cases hpath

theorem validSource_stored {source : Live} (hproper : source.Proper)
    (h : validSource source = .ok true) : validSource (stored source) = .ok true := by
  have hreference {name : String} (hname : isReference (property source name) = true) :
      isReference (property (stored source) name) = true := by
    rw [Column.property_stored hproper]
    cases hvalue : property source name with
    | str s =>
        rw [hvalue] at hname
        exact hname
    | _ =>
        rw [hvalue] at hname
        cases hname
  cases source with
  | undefined => rfl
  | obj members =>
      have hboth := Except.ok.inj h
      rw [Bool.and_eq_true] at hboth
      have hstored := congrArg (fun both => Except.ok (ε := String) both)
        (Bool.and_eq_true_iff.2 ⟨hreference hboth.1, hreference hboth.2⟩)
      rw [Column.stored_obj] at hstored ⊢
      exact hstored
  | _ => cases h

theorem IsArtifact.stored (h : IsArtifact item) (hproper : item.Proper) :
    IsArtifact (stored item) := by
  obtain ⟨⟨path, hpath, hvalid⟩, ⟨size, hsize, hpos⟩, hsource, hmime, hsha⟩ := h
  refine ⟨⟨path, ?_, hvalid⟩, ⟨size, ?_, hpos⟩, ?_, ?_, ?_⟩
  · rw [Column.property_stored hproper, hpath]
    rfl
  · rw [Column.property_stored hproper]
    cases hvalue : property item "size" with
    | num n =>
        rw [hvalue] at hsize
        exact hsize
    | _ =>
        rw [hvalue] at hsize
        cases hsize
  · rw [Column.property_stored hproper]
    exact validSource_stored (proper_property hproper _) hsource
  · rw [Column.property_stored hproper]
    cases hvalue : property item "mime" with
    | str s => rfl
    | _ =>
        rw [hvalue] at hmime
        cases hmime
  · rw [Column.property_stored hproper]
    cases hvalue : property item "sha256" with
    | str s =>
        rw [hvalue] at hsha
        exact hsha
    | _ =>
        rw [hvalue] at hsha
        cases hsha

theorem pathOf_stored (h : IsArtifact item) (hproper : item.Proper) :
    pathOf (stored item) = pathOf item := by
  obtain ⟨path, hpath, -⟩ := h.path
  rw [pathOf, pathOf, Column.property_stored hproper, hpath]
  rfl

theorem stored_arr (h : ∀ item ∈ items, IsArtifact item) :
    stored (.arr items) = .arr (items.map stored) := by
  rw [stored, Live.serialize, Option.map_some, Option.getD_some, Column.read,
    Column.readItems_eq_map, Live.serializeItems_eq_map, List.map_map]
  refine congrArg Live.arr (List.map_congr_left fun item hitem => ?_)
  obtain ⟨members, rfl⟩ := (h item hitem).isObject
  rfl

/-- The artifacts of a message are accepted as they come back. -/
theorem snapshotArtifacts_stored (h : snapshotArtifacts (.arr kept) = .ok kept)
    (hproper : ∀ artifact ∈ kept, artifact.Proper) :
    snapshotArtifacts (stored (.arr kept)) = .ok (kept.map stored) := by
  obtain ⟨hlength, hkept, hlast⟩ := snapshotArtifacts_eq_ok_iff.1 h
  rw [stored_arr hkept]
  refine snapshotArtifacts_eq_ok_iff.2 ⟨by simpa using hlength, ?_, ?_⟩
  · exact List.forall_mem_map.2 fun artifact hmem =>
      (hkept artifact hmem).stored (hproper artifact hmem)
  · have hpaths : (kept.map stored).map pathOf = kept.map pathOf := by
      rw [List.map_map]
      exact List.map_congr_left fun artifact hmem =>
        pathOf_stored (hkept artifact hmem) (hproper artifact hmem)
    refine (lastByKey_of_nodup ?_).symm
    rw [hpaths, hlast]
    exact nodup_lastByKey

theorem ofMessage_stored {message : Live} (hproper : message.Proper) :
    Candidate.ofMessage (stored message) = ⟨stored (Candidate.ofMessage message).body,
      stored (Candidate.ofMessage message).artifacts⟩ := by
  simp only [Candidate.ofMessage, Column.property_stored hproper,
    Column.property_stored (proper_property hproper "envelope")]

/-! ## Texts -/

/-- What is written of an artifact. -/
def written (artifact : Live) : Value Number := artifact.serialize.getD .null

/-- The names of an artifact stand in the order they are read in: `mime`, `path`, `size`,
    `sha256` and `source` with `ref` and `version`. -/
def inReadOrder (artifact : Live) : Bool := Column.inOrder (written artifact)

theorem hashed_of_kept {body artifacts : Live} (h : snapshotArtifacts artifacts = .ok kept) :
    Candidate.hashed ⟨body, artifacts⟩ = .ok (Candidate.text body kept) := by
  rw [Candidate.hashed, h]
  rfl

theorem text_eq (body : Units) (kept : List Live) : Candidate.text (.str body) kept
    = print jsStyle Number.text
        (.obj [(literal "body", .str body), (literal "artifacts", .arr (kept.map written))]) := by
  rw [Candidate.text, Live.stringify, Live.serialize]
  simp only [Live.serializeMembers, Live.serialize, Live.serializeItems_eq_map, Option.map_some,
    Option.getD_some]
  rfl

theorem written_stored (h : IsArtifact item) :
    written (stored item) = Column.rewritten (written item) := by
  obtain ⟨members, rfl⟩ := h.isObject
  rfl

/-- The text is the same once the artifacts were stored exactly when their names stand in
    order. -/
theorem text_stored_iff {body : Units} (hbody : ∀ u ∈ body, u < 0x10000)
    (hkept : ∀ artifact ∈ kept, IsArtifact artifact) (hproper : ∀ artifact ∈ kept, artifact.Proper)
    (hstorable : ∀ artifact ∈ kept, Column.storable (written artifact) = true) :
    Candidate.text (.str body) (kept.map stored) = Candidate.text (.str body) kept
      ↔ ∀ artifact ∈ kept, inReadOrder artifact = true := by
  have hwritten {artifact : Live} (hmem : artifact ∈ kept) :
      artifact.serialize = some (written artifact) := by
    obtain ⟨members, rfl⟩ := (hkept artifact hmem).isObject
    rfl
  have hover {artifact : Live} (hmem : artifact ∈ kept) : (written artifact).Over (· < 0x10000) :=
    Live.serialize_over artifact (hproper artifact hmem) _ (hwritten hmem)
  have hcandidate {values : List (Value Number)} (h : ∀ w ∈ values, w.Over (· < 0x10000)) :
      (Value.obj [(literal "body", .str body), (literal "artifacts", .arr values)]).Over
        (· < 0x10000) :=
    ⟨by decide, hbody, by decide, Stringify.overItems_iff.2 h, trivial⟩
  have hsame (artifact : Live) (hmem : artifact ∈ kept) :
      written (stored artifact) = written artifact ↔ inReadOrder artifact = true := by
    rw [written_stored (hkept artifact hmem)]
    exact Column.rewritten_eq_self_iff (Column.distinct_of_serialize artifact
      (hproper artifact hmem) _ (hwritten hmem)) (hover hmem) (hstorable artifact hmem)
  rw [text_eq, text_eq, Stringify.print_jsStyle_inj (hcandidate ?_) (hcandidate ?_)]
  · simp only [Value.obj.injEq, List.cons.injEq, Prod.mk.injEq, true_and, and_true,
      Value.arr.injEq, List.map_map, List.map_inj_left, Function.comp_apply]
    exact forall₂_congr hsame
  · intro w hw
    obtain ⟨_, hback, rfl⟩ := List.mem_map.1 hw
    obtain ⟨artifact, hmem, rfl⟩ := List.mem_map.1 hback
    rw [written_stored (hkept artifact hmem)]
    exact Column.rewritten_over (hover hmem)
  · intro w hw
    obtain ⟨artifact, hmem, rfl⟩ := List.mem_map.1 hw
    exact hover hmem

/-! ## Digests before and after -/

/-- What the message of a candidate holds of it, and what of that can be stored. -/
theorem ofMessage_parts {message : Live} {body : Units} {w : Value Number}
    (hmessage : Candidate.ofMessage message = ⟨.str body, .arr kept⟩) (hproper : message.Proper)
    (hw : message.serialize = some w) (hstorable : Column.storable w = true) :
    (∀ u ∈ body, u < 0x10000) ∧ (∀ artifact ∈ kept, artifact.Proper)
      ∧ ∀ artifact ∈ kept, Column.storable (written artifact) = true := by
  obtain ⟨hbody, hartifacts⟩ := Candidate.mk.inj hmessage
  have henvelope := proper_property hproper "envelope"
  refine ⟨?_, ?_, fun artifact hmem => ?_⟩
  · have hproper := proper_property hproper "body"
    rw [hbody] at hproper
    exact hproper
  · have hproper := proper_property henvelope "artifacts"
    rw [hartifacts] at hproper
    exact Live.properItems_iff.1 hproper
  · cases henv : property message "envelope" with
    | obj members =>
        have hwritten : (property message "envelope").serialize
            = some (.obj (Live.serializeMembers members)) := by
          rw [henv]
          rfl
        have hmembers := Column.storable_property "envelope" hw hstorable hwritten
        rw [henv] at hartifacts
        have hlist : (property (.obj members) "artifacts").serialize
            = some (.arr (kept.map written)) := by
          rw [hartifacts, Live.serialize, Live.serializeItems_eq_map]
          rfl
        have hitems := Column.storable_property "artifacts" rfl hmembers hlist
        exact Column.storableItems_iff.1 hitems _ (List.mem_map_of_mem hmem)
    | _ =>
        rw [henv] at hartifacts
        cases hartifacts

section Message

variable {sha256 : Units → String} {body : Units} {message row : Live}

theorem committedHash_eq (hmessage : Candidate.ofMessage message = ⟨.str body, .arr kept⟩)
    (hkept : snapshotArtifacts (.arr kept) = .ok kept) :
    (Candidate.ofMessage message).hashed = .ok (Candidate.text (.str body) kept)
      ∧ committedHash sha256 message = .ok (sha256 (Candidate.text (.str body) kept)) := by
  rw [committedHash, candidateHash, hmessage, hashed_of_kept hkept]
  exact ⟨rfl, rfl⟩

/-- The digest of the row that is read is the committed one exactly when the names of every
    artifact stand in the order of reading. -/
theorem stateHash_eq_committedHash_iff (hkept : snapshotArtifacts (.arr kept) = .ok kept)
    (hmessage : Candidate.ofMessage message = ⟨.str body, .arr kept⟩)
    (hproper : message.Proper) (hrow : Column.readBack message = some row)
    (hcollision : ∀ text text', (Candidate.ofMessage message).hashed = .ok text →
      (Candidate.ofMessage row).hashed = .ok text' → sha256 text' = sha256 text → text' = text) :
    stateHash sha256 row = committedHash sha256 message
      ↔ ∀ artifact ∈ kept, inReadOrder artifact = true := by
  obtain ⟨-, hartifacts, -⟩ := snapshotArtifacts_eq_ok_iff.1 hkept
  obtain ⟨w, hw, hstorable, rfl⟩ := Column.readBack_eq_some hrow
  obtain ⟨hbody, hpropers, hstorables⟩ := ofMessage_parts hmessage hproper hw hstorable
  obtain ⟨hbefore, hcommitted⟩ := committedHash_eq hmessage hkept
  have hback : (Candidate.ofMessage (stored message)).hashed
      = .ok (Candidate.text (.str body) (kept.map stored)) := by
    rw [ofMessage_stored hproper, hmessage]
    exact hashed_of_kept (snapshotArtifacts_stored hkept hpropers)
  have hstate : stateHash sha256 (stored message)
      = .ok (sha256 (Candidate.text (.str body) (kept.map stored))) := by
    rw [stateHash, candidateHash, hback]
    rfl
  rw [hstate, hcommitted, Except.ok.injEq,
    ← text_stored_iff hbody hartifacts hpropers hstorables]
  constructor
  · exact hcollision _ _ hbefore hback
  · exact fun h => h ▸ rfl

/-- The digests taken before a message is stored are one. The digest of the row that is read is
    the same exactly when every artifact that is the last of its path has its names in the order
    of reading. -/
theorem stateHash_iff (hkept : snapshotArtifacts (.arr items) = .ok kept)
    (hmessage : Candidate.ofMessage message = ⟨.str body, .arr kept⟩)
    (hproper : message.Proper) (hrow : Column.readBack message = some row)
    (hcollision : ∀ text text', (Candidate.ofMessage message).hashed = .ok text →
      (Candidate.ofMessage row).hashed = .ok text' → sha256 text' = sha256 text → text' = text) :
    ∃ hash, candidateHash sha256 ⟨.str body, .arr items⟩ = .ok hash
      ∧ verificationHash sha256 ⟨.str body, .arr items⟩ = .ok hash
      ∧ committedHash sha256 message = .ok hash
      ∧ (stateHash sha256 row = .ok hash ↔ ∀ artifact ∈ items,
          latest pathOf items (pathOf artifact) = some artifact → inReadOrder artifact = true) := by
  have hagain := snapshotArtifacts_kept hkept
  obtain ⟨-, hcommitted⟩ := committedHash_eq hmessage hagain
  have hiff := stateHash_eq_committedHash_iff hagain hmessage hproper hrow hcollision
  refine ⟨sha256 (Candidate.text (.str body) kept), ?_, ?_, hcommitted, ?_⟩
  · rw [candidateHash, hashed_of_kept hkept]
    rfl
  · rw [verificationHash, hkept]
    change candidateHash sha256 ⟨.str body, .arr kept⟩ = _
    rw [candidateHash, hashed_of_kept hagain]
    rfl
  · rw [← hcommitted, hiff, (snapshotArtifacts_eq_ok_iff.1 hkept).2.2]
    constructor
    · exact fun h artifact _ hlatest => h artifact (mem_lastByKey_iff.2 hlatest)
    · exact fun h artifact hmem => h artifact (mem_of_mem_lastByKey hmem) (mem_lastByKey_iff.1 hmem)

end Message

/-! ## Files -/

section Files

variable (path mime digest : Units) (size : Number)

/-- A file as the kernel reports it. -/
def kernelFile : Live :=
  .obj [(literal "path", .str path), (literal "size", .num size), (literal "mime", .str mime),
    (literal "sha256", .str digest)]

/-- A file as the database gives it back, with its source. -/
def databaseFile (ref version : Units) : Live :=
  .obj [(literal "mime", .str mime), (literal "path", .str path), (literal "size", .num size),
    (literal "sha256", .str digest),
    (literal "source", .obj [(literal "ref", .str ref), (literal "version", .str version)])]

theorem inReadOrder_databaseFile (ref version : Units) :
    inReadOrder (databaseFile path mime digest size ref version) = true := by
  have hnames : [literal "mime", literal "path", literal "size", literal "sha256",
      literal "source"].Pairwise fun a b => Column.readOrder a b = true := by decide +kernel
  have hsource : [literal "ref", literal "version"].Pairwise
      fun a b => Column.readOrder a b = true := by decide +kernel
  simp only [inReadOrder, written, databaseFile, Live.serialize, Live.serializeMembers,
    Option.getD_some, Column.inOrder, Column.membersInOrder, Bool.and_true, Bool.true_and,
    Bool.and_eq_true, decide_eq_true_eq]
  exact ⟨.of_map Prod.fst (fun _ _ hab => hab) hnames,
    .of_map Prod.fst (fun _ _ hab => hab) hsource⟩

/-- The digest of the file's bytes. -/
def fileDigest : Units :=
  literal "9f86d081884c7d659a2feaa0c55ad015a3bf4f1b2b0b822cd15d6c15b0f00a08"

def reported : Live := kernelFile (literal "report.csv") (literal "text/csv") fileDigest (.ofInt 4)

def recalled : Live :=
  databaseFile (literal "report.csv") (literal "text/csv") fileDigest (.ofInt 4) (literal "doc-1")
    (literal "3")

def answer (artifacts : List Live) : Live :=
  .obj [(literal "version", .num (.ofInt 2)), (literal "runId", .str (literal "run-1")),
    (literal "body", .str (literal "Done")),
    (literal "envelope", .obj [(literal "version", .num (.ofInt 1)),
      (literal "body", .str (literal "Done")), (literal "requestVersion", .num (.ofInt 1)),
      (literal "artifacts", .arr artifacts)])]

/-- The text that is hashed of an answer with the file. -/
def fileText (members : Units) : Units :=
  literal "\x7b\"body\":\"Done\",\"artifacts\":[\x7b" ++ members ++ literal "\x7d]\x7d"

def reportedText : Units :=
  fileText (literal "\"path\":\"report.csv\",\"size\":4,\"mime\":\"text/csv\",\"sha256\":\""
    ++ fileDigest ++ literal "\"")

def storedText : Units :=
  fileText (literal "\"mime\":\"text/csv\",\"path\":\"report.csv\",\"size\":4,\"sha256\":\""
    ++ fileDigest ++ literal "\"")

def recalledText : Units :=
  fileText (literal "\"mime\":\"text/csv\",\"path\":\"report.csv\",\"size\":4,\"sha256\":\""
    ++ fileDigest ++ literal "\",\"source\":\x7b\"ref\":\"doc-1\",\"version\":\"3\"\x7d")

/-- SHA-256 on the three texts. -/
def digestOf (text : Units) : String :=
  if text = reportedText then "f577182f5ee65e54e3a91afc04bb954a02432a026960bc7e8d1d1949c3af0781"
  else if text = storedText then "7a619ca8980fd1dc054d9a6acb291e25780e4693e546585bf89d3dd169feed02"
  else if text = recalledText then
    "58f15820c452da03c2fc3862dc04c83d88e722c00f2f24e22b1a36b8d6f1e6bb"
  else ""

theorem hashed_recalled :
    (Candidate.ofMessage (answer [recalled])).hashed = .ok recalledText
      ∧ (Column.readBack (answer [recalled])).map (fun row => (Candidate.ofMessage row).hashed)
        = some (.ok recalledText) := by
  unfold answer recalled databaseFile recalledText fileText fileDigest
  repeat rw [Stringify.literal_ofList]
  decide +kernel

theorem stateHash_iff_recalled : ∃ row hash, Column.readBack (answer [recalled]) = some row
    ∧ verificationHash digestOf ⟨.str (literal "Done"), .arr [recalled]⟩ = .ok hash
    ∧ stateHash digestOf row = .ok hash := by
  obtain ⟨hbefore, hafter⟩ := hashed_recalled
  obtain ⟨row, hrow, hback⟩ := Option.map_eq_some_iff.1 hafter
  have hkept : snapshotArtifacts (.arr [recalled]) = .ok [recalled] := by
    refine snapshotArtifacts_eq_ok_iff.2 ⟨by decide, ?_, rfl⟩
    refine everyArtifact_and_iff.1 ?_
    unfold recalled databaseFile fileDigest
    repeat rw [Stringify.literal_ofList]
    decide +kernel
  have hproper : (answer [recalled]).Proper := by
    unfold answer recalled databaseFile fileDigest
    repeat rw [Stringify.literal_ofList]
    decide +kernel
  have hcollision (text text' : Units)
      (htext : (Candidate.ofMessage (answer [recalled])).hashed = .ok text)
      (htext' : (Candidate.ofMessage row).hashed = .ok text')
      (_ : digestOf text' = digestOf text) : text' = text := by
    rw [hbefore] at htext
    rw [hback] at htext'
    exact (Except.ok.inj htext').symm.trans (Except.ok.inj htext)
  obtain ⟨hash, -, hverified, -, hiff⟩ := stateHash_iff hkept rfl hproper hrow hcollision
  refine ⟨row, hash, hrow, hverified, hiff.2 fun artifact hmem _ => ?_⟩
  rw [List.mem_singleton.1 hmem]
  exact inReadOrder_databaseFile _ _ _ _ _ _

/-- The digest of an answer with the kernel's file changes when the answer was stored. -/
theorem reported_hash_changes :
    verificationHash digestOf ⟨.str (literal "Done"), .arr [reported]⟩
        = .ok "f577182f5ee65e54e3a91afc04bb954a02432a026960bc7e8d1d1949c3af0781"
      ∧ committedHash digestOf (answer [reported])
        = .ok "f577182f5ee65e54e3a91afc04bb954a02432a026960bc7e8d1d1949c3af0781"
      ∧ (Column.readBack (answer [reported])).map (stateHash digestOf)
        = some (.ok "7a619ca8980fd1dc054d9a6acb291e25780e4693e546585bf89d3dd169feed02") := by
  unfold answer reported kernelFile digestOf reportedText storedText recalledText fileText fileDigest
  repeat rw [Stringify.literal_ofList]
  decide +kernel

end Files

end LingxiOS.CandidateHash
