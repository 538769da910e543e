-- SUMMARY: Workspace manifests: what is accepted, and what can be restored.
import LingxiOS.Base.Checks
import LingxiOS.Base.Double
import LingxiOS.Base.JsMap
import LingxiOS.Protocol.LiveValue

/-! # Workspace Manifests

A checkpoint lists directories and files by their paths. Two paths must differ in more than
their case, and each directory above an entry must be listed too. -/

namespace LingxiOS.Workspace

open JsonText Stringify

/-! ## Paths -/

def split (path : Units) : List Units := path.splitOn 47

def join (parts : List Units) : Units := [47].intercalate parts

/-- Lower case in ASCII, as the `i` flag of a pattern compares its letters. -/
def foldUnit (u : Nat) : Nat := if 65 ≤ u ∧ u ≤ 90 then u + 32 else u

def reservedNames : List Units :=
  (["con", "prn", "aux", "nul"] ++ ["com", "lpt"].flatMap fun port =>
    ["1", "2", "3", "4", "5", "6", "7", "8", "9"].map (port ++ ·)).map literal

/-- `/^(con|prn|aux|nul|com[1-9]|lpt[1-9])(?:\.|$)/i`. -/
def isReserved (part : Units) : Bool :=
  reservedNames.contains ((part.takeWhile (· != 46)).map foldUnit)

def validPart (part : Units) : Bool :=
  part ≠ [] && part ≠ literal "." && part ≠ literal ".."
    && !(part.getLast? == some 46 || part.getLast? == some 32) && !isReserved part

/-- `/[\\\u0000-\u001f\u007f:]/`. -/
def isForbidden (u : Nat) : Bool := u == 92 || u < 32 || u == 127 || u == 58

def validPath (path : Units) : Bool :=
  path ≠ [] && path.length ≤ 1024 && !path.any isForbidden && (split path).all validPart

def workspacePath : Live → Except String Units
  | .str path => if validPath path then .ok path else .error "invalid workspace path"
  | _ => .error "invalid workspace path"

/-! ## Entries -/

inductive EntryKind where
  | directory | file
  deriving DecidableEq

inductive WorkspaceEntry where
  | directory (path : Units)
  | file (path : Units) (size : Nat) (sha256 objectKey : Units)
  deriving DecidableEq

namespace WorkspaceEntry

def path : WorkspaceEntry → Units
  | directory path | file path _ _ _ => path

def kind : WorkspaceEntry → EntryKind
  | directory _ => .directory
  | file _ _ _ _ => .file

def size : WorkspaceEntry → Nat
  | directory _ => 0
  | file _ size _ _ => size

end WorkspaceEntry

structure WorkspaceLimits where
  maxEntries : Nat
  maxBytes : Nat
  maxFileBytes : Nat
  timeoutMs : Nat

def defaultWorkspaceLimits : WorkspaceLimits where
  maxEntries := 4096
  maxBytes := 128 * 1024 * 1024
  maxFileBytes := 32 * 1024 * 1024
  timeoutMs := 60000

/-- `value[name]`, of a value that has no such property by nature. -/
def property (value : Live) (name : String) : Live :=
  match value with
  | .obj members => ((members.find? fun m => m.1 = literal name).map Prod.snd).getD .undefined
  | _ => .undefined

/-- `value === text`. -/
def isText (value : Live) (text : Units) : Bool :=
  match value with
  | .str s => s == text
  | _ => false

/-- `value && typeof value === 'object'`. -/
def isObject : Live → Bool
  | .arr _ | .obj _ | .date _ => true
  | _ => false

/-- The integer a value is, if `Number.isSafeInteger` holds of it. -/
def safeInteger? : Live → Option Int
  | .num n => (Double.ofLiteral n).integer?.filter fun k => k.natAbs < 2 ^ 53
  | _ => none

def isLowerHex (u : Nat) : Bool := (48 ≤ u && u ≤ 57) || (97 ≤ u && u ≤ 102)

/-- `/^[a-f0-9]{64}$/`. -/
def isSha256 (text : Units) : Bool := text.length == 64 && text.all isLowerHex

/-- `/^[a-f0-9]{64}-\d+$/`. -/
def isAttempt (text : Units) : Bool :=
  isSha256 (text.take 64) && (text.drop 64).head? == some 45 && text.drop 65 ≠ []
    && (text.drop 65).all fun u => 48 ≤ u && u ≤ 57

/-- `/^workspaces\/[a-f0-9]{64}\/[a-f0-9]{64}-\d+\/[a-f0-9-]{36}\/[a-f0-9]{64}$/`. -/
def isObjectKey (key : Units) : Bool :=
  match split key with
  | [root, session, attempt, upload, content] =>
      root = literal "workspaces" && isSha256 session && isAttempt attempt
        && (upload.length == 36 && upload.all fun u => isLowerHex u || u == 45) && isSha256 content
  | _ => false

def readFile (limits : WorkspaceLimits) (path : Units) (item : Live) : Option WorkspaceEntry :=
  match safeInteger? (property item "size"), property item "sha256", property item "objectKey" with
  | some size, .str sha256, .str objectKey =>
      if isText (property item "kind") (literal "file") ∧ 0 ≤ size ∧ size ≤ limits.maxFileBytes ∧ isSha256 sha256
          ∧ isObjectKey objectKey then
        some (.file path size.toNat sha256 objectKey)
      else none
  | _, _, _ => none

/-! ## Checking -/

/-- What the loop over the entries keeps: the bytes so far, and the kind of each path in lower
    case. -/
structure Checking where
  total : Nat
  seen : JsMap Units EntryKind

def Checking.see (checking : Checking) (key : Units) (entry : WorkspaceEntry) : Checking where
  total := checking.total + entry.size
  seen := checking.seen.set key entry.kind

variable (toLowerCase : Units → Units) (limits : WorkspaceLimits)

/-- One turn of the loop; there is no entry in a hole. -/
def readEntry (checking : Checking) (item : Live) : Except String (WorkspaceEntry × Checking) :=
  if !isObject item then .error "invalid workspace entry"
  else do
    let path ← workspacePath (property item "path")
    if checking.seen.has (toLowerCase path) then .error "duplicate workspace path"
    else if isText (property item "kind") (literal "directory") then
      .ok (.directory path, checking.see (toLowerCase path) (.directory path))
    else
      match readFile limits path item with
      | none => .error "invalid workspace file"
      | some entry =>
          if limits.maxBytes < checking.total + entry.size then
            .error "workspace byte limit exceeded"
          else .ok (entry, checking.see (toLowerCase path) entry)

def readEntries (checking : Checking) : List Live → Except String (List WorkspaceEntry × Checking)
  | [] => .ok ([], checking)
  | item :: rest => do
      let (entry, checking) ← readEntry toLowerCase limits checking item
      let (entries, checking) ← readEntries checking rest
      return (entry :: entries, checking)

/-- `parts.slice(0, length).join('/')` for each length below that of the parts. -/
def ancestors (path : Units) : List Units :=
  (List.range' 1 ((split path).length - 1)).map fun length => join ((split path).take length)

def checkedWorkspaceEntries (value : Live) : Except String (List WorkspaceEntry) :=
  match value with
  | .arr items =>
      if limits.maxEntries < items.length then .error "workspace entry limit exceeded"
      else do
        let (entries, checking) ← readEntries toLowerCase limits ⟨0, .empty⟩ items
        if entries.any fun entry => (ancestors entry.path).any fun parent =>
            checking.seen.get? (toLowerCase parent) ≠ some .directory then
          .error "workspace parent directory is missing"
        else .ok (entries.insertionSort fun left right => left.path ≤ right.path)
  | _ => .error "workspace entry limit exceeded"

/-! ## What is read -/

variable {toLowerCase limits} {checking checking' : Checking} {item : Live} {items : List Live}
  {entry : WorkspaceEntry} {entries : List WorkspaceEntry} {path : Units}

/-- The item an entry is read from. -/
structure Describes (item : Live) (entry : WorkspaceEntry) : Prop where
  path : property item "path" = .str entry.path
  kind : property item "kind" = .str (literal (match entry with
    | .directory _ => "directory"
    | .file _ _ _ _ => "file"))
  content : ∀ path size sha256 objectKey, entry = .file path size sha256 objectKey →
    safeInteger? (property item "size") = some (size : Int)
      ∧ property item "sha256" = .str sha256 ∧ property item "objectKey" = .str objectKey

theorem isText_iff {value : Live} {text : Units} : isText value text = true ↔ value = .str text := by
  unfold isText
  split
  case h_1 s => simp
  case h_2 h => simpa using fun heq => h text heq

theorem workspacePath_eq_ok_iff {value : Live} :
    workspacePath value = .ok path ↔ value = .str path ∧ validPath path = true := by
  unfold workspacePath
  split
  case h_1 s =>
    by_cases hs : validPath s = true
    · rw [if_pos hs]
      constructor
      · rintro ⟨rfl⟩
        exact ⟨rfl, hs⟩
      · rintro ⟨⟨rfl⟩, -⟩
        rfl
    · rw [if_neg hs]
      refine iff_of_false nofun ?_
      rintro ⟨⟨rfl⟩, hpath⟩
      exact hs hpath
  case h_2 h => exact iff_of_false nofun fun ⟨heq, _⟩ => h path heq

theorem readFile_eq_some (hpath : property item "path" = .str path)
    (h : readFile limits path item = some entry) :
    Describes item entry ∧ entry.path = path ∧ entry.size ≤ limits.maxFileBytes := by
  unfold readFile at h
  split at h
  case h_2 => cases h
  case h_1 size sha256 objectKey hsize hsha256 hobjectKey =>
    split at h
    case isFalse => cases h
    case isTrue hfile =>
      obtain ⟨hkind, hpos, hle, -, -⟩ := hfile
      cases h
      refine ⟨⟨hpath, isText_iff.1 hkind, ?_⟩, rfl, ?_⟩
      · rintro _ _ _ _ ⟨⟩
        exact ⟨by rw [hsize, Int.toNat_of_nonneg hpos], hsha256, hobjectKey⟩
      · show size.toNat ≤ limits.maxFileBytes
        omega

/-- What one turn of the loop has done. -/
structure ReadOne (toLowerCase : Units → Units) (limits : WorkspaceLimits) (checking : Checking)
    (item : Live) (entry : WorkspaceEntry) (checking' : Checking) : Prop where
  describes : Describes item entry
  valid : validPath entry.path = true
  unseen : checking.seen.get? (toLowerCase entry.path) = none
  small : entry.size ≤ limits.maxFileBytes
  bounded : checking.total ≤ limits.maxBytes → checking.total + entry.size ≤ limits.maxBytes
  sees : checking' = checking.see (toLowerCase entry.path) entry

theorem readEntry_eq_ok
    (h : readEntry toLowerCase limits checking item = .ok (entry, checking')) :
    ReadOne toLowerCase limits checking item entry checking' := by
  unfold readEntry at h
  split at h
  case isTrue => cases h
  case isFalse =>
    obtain ⟨path, hpath, h⟩ := Except.bind_ok h
    obtain ⟨hpath, hvalid⟩ := workspacePath_eq_ok_iff.1 hpath
    split at h
    case isTrue => cases h
    case isFalse hseen =>
      have hunseen : checking.seen.get? (toLowerCase path) = none := by
        simpa [JsMap.has] using hseen
      split at h
      case isTrue hkind =>
        cases h
        exact ⟨⟨hpath, isText_iff.1 hkind, nofun⟩, hvalid, hunseen, Nat.zero_le _, id, rfl⟩
      case isFalse =>
        split at h
        case h_1 => cases h
        case h_2 file hfile =>
          obtain ⟨hdescribes, hsame, hsmall⟩ := readFile_eq_some hpath hfile
          split at h
          case isTrue => cases h
          case isFalse hbytes =>
            cases h
            rw [← hsame] at hunseen hvalid
            exact ⟨hdescribes, hvalid, hunseen, hsmall, fun _ => Nat.not_lt.1 hbytes, by rw [hsame]⟩

/-- What the loop has done. -/
structure ReadAll (toLowerCase : Units → Units) (limits : WorkspaceLimits) (checking : Checking)
    (items : List Live) (entries : List WorkspaceEntry) (checking' : Checking) : Prop where
  describes : List.Forall₂ Describes items entries
  valid : ∀ entry ∈ entries, validPath entry.path = true
  unseen : ∀ entry ∈ entries, checking.seen.get? (toLowerCase entry.path) = none
  distinct : entries.Pairwise fun a b => toLowerCase a.path ≠ toLowerCase b.path
  small : ∀ entry ∈ entries, entry.size ≤ limits.maxFileBytes
  bounded : checking.total ≤ limits.maxBytes →
    checking.total + (entries.map WorkspaceEntry.size).sum ≤ limits.maxBytes
  seen : ∀ key kind, checking'.seen.get? key = some kind ↔ checking.seen.get? key = some kind
    ∨ ∃ entry ∈ entries, toLowerCase entry.path = key ∧ entry.kind = kind

theorem readEntries_eq_ok
    (h : readEntries toLowerCase limits checking items = .ok (entries, checking')) :
    ReadAll toLowerCase limits checking items entries checking' := by
  induction items generalizing checking entries with
  | nil =>
      cases h
      exact ⟨.nil, nofun, nofun, .nil, nofun, id, by simp⟩
  | cons item rest ih =>
      obtain ⟨⟨entry, middle⟩, hentry, h⟩ := Except.bind_ok h
      obtain ⟨⟨entries, last⟩, hentries, h⟩ := Except.bind_ok h
      cases h
      have hone := readEntry_eq_ok hentry
      have hall := ih hentries
      have hlater (key : Units) : middle.seen.get? key
          = if key = toLowerCase entry.path then some entry.kind else checking.seen.get? key := by
        rw [hone.sees]
        exact JsMap.get?_set _ _ _ _
      refine ⟨.cons hone.describes hall.describes, List.forall_mem_cons.2 ⟨hone.valid, hall.valid⟩,
        List.forall_mem_cons.2 ⟨hone.unseen, fun other hother => ?_⟩,
        .cons (fun other hother hsame => ?_) hall.distinct,
        List.forall_mem_cons.2 ⟨hone.small, hall.small⟩, fun hbytes => ?_, fun key kind => ?_⟩
      · have hunseen := hall.unseen other hother
        rw [hlater] at hunseen
        split at hunseen
        · cases hunseen
        · exact hunseen
      · have hunseen := hall.unseen other hother
        rw [hlater, if_pos hsame.symm] at hunseen
        cases hunseen
      · have hbounded := hall.bounded (by rw [hone.sees]; exact hone.bounded hbytes)
        rw [hone.sees] at hbounded
        rw [List.map_cons, List.sum_cons, ← Nat.add_assoc]
        exact hbounded
      · rw [hall.seen, hlater, List.exists_mem_cons_iff, ← or_assoc]
        refine or_congr_left ?_
        by_cases hkey : key = toLowerCase entry.path
        · rw [if_pos hkey, hkey, hone.unseen]
          simp
        · rw [if_neg hkey]
          simp [Ne.symm hkey]

/-! ## Paths above a path -/

theorem join_append {left right : List Units} (hleft : left ≠ []) (hright : right ≠ []) :
    join (left ++ right) = join left ++ 47 :: join right := by
  unfold join
  induction left with
  | nil => exact absurd rfl hleft
  | cons part rest ih =>
      cases rest with
      | nil =>
          obtain ⟨next, others, rfl⟩ := List.exists_cons_of_ne_nil hright
          rw [List.cons_append, List.nil_append, List.intercalate_cons_cons, List.intercalate_singleton,
            List.append_assoc]
          rfl
      | cons next others =>
          rw [List.cons_append, List.cons_append, List.intercalate_cons_cons, ← List.cons_append,
            ih (List.cons_ne_nil _ _), List.intercalate_cons_cons]
          simp only [List.append_assoc]

theorem join_split : join (split path) = path := List.intercalate_splitOn 47

theorem exists_of_mem_ancestors {parent : Units} (h : parent ∈ ancestors path) :
    ∃ rest, path = parent ++ 47 :: rest := by
  obtain ⟨length, hlength, rfl⟩ := List.mem_map.1 h
  obtain ⟨hpos, hlt⟩ := List.mem_range'_1.1 hlength
  have htake : (split path).take length ≠ [] := by
    rw [← List.length_pos_iff, List.length_take]
    omega
  have hdrop : (split path).drop length ≠ [] := by
    rw [← List.length_pos_iff, List.length_drop]
    omega
  refine ⟨join ((split path).drop length), ?_⟩
  rw [← join_append htake hdrop, List.take_append_drop, join_split]

theorem lt_of_mem_ancestors {parent : Units} (h : parent ∈ ancestors path) : parent < path := by
  obtain ⟨rest, rfl⟩ := exists_of_mem_ancestors h
  have hlt : parent ++ [] < parent ++ 47 :: rest := List.append_left_lt (List.nil_lt_cons _ _)
  rwa [List.append_nil] at hlt

/-- The parts of `path.resolve(home, path)`, for the parts of an absolute home. -/
def resolve (home : List Units) (path : Units) : List Units :=
  (split path).foldl (fun dir part =>
      if part = [] ∨ part = literal "." then dir
      else if part = literal ".." then dir.dropLast
      else dir ++ [part])
    (if path.head? = some 47 then [] else home)

theorem resolve_of_validPath (h : validPath path = true) (home : List Units) :
    resolve home path = home ++ split path := by
  unfold validPath at h
  simp only [Bool.and_eq_true, List.all_eq_true] at h
  obtain ⟨-, hparts⟩ := h
  have hroot : path.head? ≠ some 47 := by
    intro hhead
    obtain ⟨rest, rfl⟩ := List.head?_eq_some_iff.1 hhead
    have hempty : ([] : Units) ∈ split (47 :: rest) := by
      unfold split
      rw [List.splitOn_cons_eq_if_modifyHead, if_pos (by rfl)]
      exact List.mem_cons_self
    exact absurd (hparts _ hempty) (by decide)
  unfold resolve
  rw [if_neg hroot]
  generalize split path = parts at hparts
  induction parts generalizing home with
  | nil => rw [List.foldl_nil, List.append_nil]
  | cons part rest ih =>
      have hpart := hparts part List.mem_cons_self
      simp only [validPart, Bool.and_eq_true, decide_eq_true_eq] at hpart
      rw [List.foldl_cons, if_neg (by tauto), if_neg (by tauto),
        ih _ fun other hother => hparts other (List.mem_cons_of_mem _ hother), List.append_assoc]
      rfl

/-! ## Restoring -/

/-- `mkdir` and `open` with `wx` on a case-sensitive volume: nothing has the path yet, and each
    path above it is a directory. -/
def create (tree : List WorkspaceEntry) (entry : WorkspaceEntry) : Option (List WorkspaceEntry) :=
  if (tree.any fun made => made.path = entry.path)
      || !(ancestors entry.path).all fun parent => tree.contains (.directory parent) then
    none
  else some (tree ++ [entry])

def isDirectory : WorkspaceEntry → Bool
  | .directory _ => true
  | .file _ _ _ _ => false

/-- Each entry comes after the directories above it. -/
def ParentsFirst (entries : List WorkspaceEntry) : Prop :=
  ∀ before entry after, entries = before ++ entry :: after →
    ∀ parent ∈ ancestors entry.path, .directory parent ∈ before

theorem create_eq_some {tree : List WorkspaceEntry} (hnew : ∀ made ∈ tree, made.path ≠ entry.path)
    (habove : ∀ parent ∈ ancestors entry.path, .directory parent ∈ tree) :
    create tree entry = some (tree ++ [entry]) := by
  unfold create
  rw [if_neg (by simpa using ⟨hnew, habove⟩)]

theorem foldlM_create (hdistinct : entries.Pairwise fun a b => a.path ≠ b.path)
    (hparents : ParentsFirst entries) : entries.foldlM create [] = some entries := by
  induction entries using List.reverseRecOn with
  | nil => rfl
  | append_singleton before entry ih =>
      obtain ⟨hbefore, -, hlast⟩ := List.pairwise_append.1 hdistinct
      have hmade : before.foldlM create [] = some before := ih hbefore fun made other after heq =>
        hparents made other (after ++ [entry]) (by rw [heq, List.append_assoc, List.cons_append])
      have hcreate : create before entry = some (before ++ [entry]) :=
        create_eq_some (fun made hm => hlast made hm entry List.mem_cons_self) (hparents before entry [] rfl)
      rw [List.foldlM_append, hmade]
      simpa using hcreate

theorem ParentsFirst.of_sorted (hsorted : entries.Pairwise fun a b => a.path < b.path)
    (hclosed : ∀ entry ∈ entries, ∀ parent ∈ ancestors entry.path, .directory parent ∈ entries) :
    ParentsFirst entries := by
  rintro before entry after rfl parent hparent
  obtain ⟨-, hsorted, -⟩ := List.pairwise_append.1 hsorted
  have hlt : parent < entry.path := lt_of_mem_ancestors hparent
  have hmem := hclosed entry (by simp) parent hparent
  rw [List.mem_append, List.mem_cons] at hmem
  obtain hbefore | hself | hafter := hmem
  · exact hbefore
  · rw [← hself] at hlt
    exact absurd hlt (List.lt_irrefl _)
  · exact absurd (List.lt_trans hlt (List.rel_of_pairwise_cons hsorted hafter)) (List.lt_irrefl _)

theorem ParentsFirst.append {left right : List WorkspaceEntry} (hleft : ParentsFirst left)
    (hright : ∀ entry ∈ right, ∀ parent ∈ ancestors entry.path, .directory parent ∈ left) :
    ParentsFirst (left ++ right) := by
  intro before entry after heq parent hparent
  obtain ⟨middle, rfl, hmiddle⟩ | ⟨middle, rfl, hmiddle⟩ := List.append_eq_append_iff.1 heq
  · have hentry : entry ∈ right := by rw [hmiddle]; simp
    exact List.mem_append_left _ (hright entry hentry parent hparent)
  · cases middle with
    | nil =>
        have hentry : entry ∈ right := by
          rw [List.nil_append] at hmiddle
          rw [← hmiddle]
          exact List.mem_cons_self
        simpa using hright entry hentry parent hparent
    | cons first rest =>
        cases hmiddle
        exact hleft before entry rest rfl parent hparent

/-! ## Accepted manifests -/

/-- The path an item gives, if it gives a text. -/
def path? (item : Live) : Option Units :=
  match property item "path" with
  | .str path => some path
  | _ => none

def givenPaths : Live → List Units
  | .arr items => items.filterMap path?
  | _ => []

/-- A path that is the one above a listed path but for its case is that path. -/
def SpelledAlike (toLowerCase : Units → Units) (paths : List Units) : Prop :=
  ∀ path ∈ paths, ∀ parent ∈ ancestors path, ∀ other ∈ paths,
    toLowerCase other = toLowerCase parent → other = parent

structure Restorable (toLowerCase : Units → Units) (limits : WorkspaceLimits) (value : Live)
    (entries : List WorkspaceEntry) : Prop where
  given : ∃ items given, value = .arr items ∧ List.Forall₂ Describes items given ∧ entries.Perm given
  sorted : entries.Pairwise fun a b => a.path < b.path
  distinct : entries.Pairwise fun a b => toLowerCase a.path ≠ toLowerCase b.path
  inside : ∀ entry ∈ entries, ∀ home, resolve home entry.path = home ++ split entry.path
  count : entries.length ≤ limits.maxEntries
  small : ∀ entry ∈ entries, entry.size ≤ limits.maxFileBytes
  bytes : (entries.map WorkspaceEntry.size).sum ≤ limits.maxBytes
  parents : ParentsFirst entries
  created : entries.foldlM create [] = some entries
  /-- The directories in order, then the files as the two workers come to them. -/
  restored : ∀ files, files.Perm (entries.filter fun entry => !isDirectory entry) →
    (entries.filter isDirectory ++ files).foldlM create [] = some (entries.filter isDirectory ++ files)

/-- What an accepted manifest has passed. -/
structure Passed (toLowerCase : Units → Units) (limits : WorkspaceLimits) (items : List Live)
    (given : List WorkspaceEntry) : Prop where
  describes : List.Forall₂ Describes items given
  valid : ∀ entry ∈ given, validPath entry.path = true
  distinct : given.Pairwise fun a b => toLowerCase a.path ≠ toLowerCase b.path
  count : given.length ≤ limits.maxEntries
  small : ∀ entry ∈ given, entry.size ≤ limits.maxFileBytes
  bytes : (given.map WorkspaceEntry.size).sum ≤ limits.maxBytes
  listed : ∀ entry ∈ given, ∀ parent ∈ ancestors entry.path,
    ∃ other, .directory other ∈ given ∧ toLowerCase other = toLowerCase parent

theorem exists_directory {parent : Units}
    (h : ∃ entry ∈ entries, toLowerCase entry.path = toLowerCase parent ∧ entry.kind = .directory) :
    ∃ other, .directory other ∈ entries ∧ toLowerCase other = toLowerCase parent := by
  obtain ⟨entry, hentry, hsame, hkind⟩ := h
  cases entry with
  | directory other => exact ⟨other, hentry, hsame⟩
  | file => cases hkind

theorem checkedWorkspaceEntries_eq_ok {value : Live}
    (h : checkedWorkspaceEntries toLowerCase limits value = .ok entries) :
    ∃ items given, value = .arr items ∧ Passed toLowerCase limits items given
      ∧ entries = given.insertionSort fun left right => left.path ≤ right.path := by
  unfold checkedWorkspaceEntries at h
  split at h
  case h_2 => cases h
  case h_1 items =>
    split at h
    case isTrue => cases h
    case isFalse hcount =>
      obtain ⟨⟨given, checking⟩, hread, h⟩ := Except.bind_ok h
      have hall := readEntries_eq_ok hread
      dsimp only at h
      split at h
      case isTrue => cases h
      case isFalse hparents =>
        cases h
        refine ⟨items, given, rfl, ?_, rfl⟩
        refine ⟨hall.describes, hall.valid, hall.distinct, ?_, hall.small, ?_, ?_⟩
        · rw [← hall.describes.length_eq]
          exact Nat.not_lt.1 hcount
        · simpa using hall.bounded (Nat.zero_le _)
        · intro entry hentry parent hparent
          have hseen : checking.seen.get? (toLowerCase parent) = some .directory := by
            by_contra hne
            refine hparents (List.any_eq_true.2 ⟨entry, hentry, List.any_eq_true.2 ⟨parent, hparent, ?_⟩⟩)
            exact decide_eq_true hne
          obtain hempty | hlisted := (hall.seen _ _).1 hseen
          · rw [JsMap.get?_empty] at hempty
            cases hempty
          · exact exists_directory hlisted

theorem filterMap_path? {given : List WorkspaceEntry} (h : List.Forall₂ Describes items given) :
    items.filterMap path? = given.map WorkspaceEntry.path := by
  induction h with
  | nil => rfl
  | cons hitem _ ih => rw [List.filterMap_cons, path?, hitem.path, ih, List.map_cons]

theorem Passed.sorted {given : List WorkspaceEntry} (h : Passed toLowerCase limits items given) :
    (given.insertionSort fun left right => left.path ≤ right.path).Pairwise fun a b => a.path < b.path := by
  have : Std.Total fun a b : WorkspaceEntry => a.path ≤ b.path := ⟨fun a b => le_total a.path b.path⟩
  have : IsTrans WorkspaceEntry fun a b => a.path ≤ b.path := ⟨fun _ _ _ => le_trans⟩
  have hperm := List.perm_insertionSort (fun a b : WorkspaceEntry => a.path ≤ b.path) given
  have hdistinct := (hperm.pairwise_iff fun hne => hne.symm).2 h.distinct
  have hle := List.pairwise_insertionSort (fun a b : WorkspaceEntry => a.path ≤ b.path) given
  refine (hle.and hdistinct).imp fun hab => ?_
  obtain ⟨hle, hne⟩ := hab
  exact lt_of_le_of_ne hle fun heq => hne (congrArg toLowerCase heq)

/-- Where each path above a listed one is spelled as listed, it is listed itself. -/
theorem Passed.closed {given : List WorkspaceEntry} (h : Passed toLowerCase limits items given)
    (hspelled : SpelledAlike toLowerCase (given.map WorkspaceEntry.path)) (hentry : entry ∈ given)
    {parent : Units} (hparent : parent ∈ ancestors entry.path) : .directory parent ∈ given := by
  obtain ⟨other, hother, hsame⟩ := h.listed entry hentry parent hparent
  have heq : other = parent := hspelled entry.path (List.mem_map_of_mem hentry) parent hparent other
    (List.mem_map_of_mem (f := WorkspaceEntry.path) hother) hsame
  rwa [heq] at hother

theorem path_inj (hdistinct : entries.Pairwise fun a b => toLowerCase a.path ≠ toLowerCase b.path)
    {a b : WorkspaceEntry} (ha : a ∈ entries) (hb : b ∈ entries)
    (hsame : toLowerCase a.path = toLowerCase b.path) : a = b := by
  have : Std.Symm fun a b : WorkspaceEntry => toLowerCase a.path ≠ toLowerCase b.path :=
    ⟨fun _ _ hab => hab.symm⟩
  by_contra hne
  exact hdistinct.forall ha hb hne hsame

theorem Restorable.spelledAlike {value : Live} (h : Restorable toLowerCase limits value entries) :
    SpelledAlike toLowerCase (entries.map WorkspaceEntry.path) := by
  intro path hpath parent hparent other hother hsame
  obtain ⟨entry, hentry, rfl⟩ := List.mem_map.1 hpath
  obtain ⟨listed, hlisted, rfl⟩ := List.mem_map.1 hother
  obtain ⟨before, after, rfl⟩ := List.append_of_mem hentry
  have habove : .directory parent ∈ before := h.parents before entry after rfl parent hparent
  have heq : listed = .directory parent :=
    path_inj h.distinct hlisted (List.mem_append_left _ habove) hsame
  rw [heq, WorkspaceEntry.path]

theorem Passed.restorable {given : List WorkspaceEntry} {value : Live}
    (hvalue : value = .arr items) (h : Passed toLowerCase limits items given)
    (hspelled : SpelledAlike toLowerCase (given.map WorkspaceEntry.path)) :
    Restorable toLowerCase limits value
      (given.insertionSort fun left right => left.path ≤ right.path) := by
  have hsorted := h.sorted
  have hperm := List.perm_insertionSort (fun left right : WorkspaceEntry => left.path ≤ right.path) given
  have hclosed : ∀ entry ∈ given, ∀ parent ∈ ancestors entry.path, .directory parent ∈ given :=
    fun entry hentry parent => h.closed hspelled hentry
  generalize given.insertionSort (fun left right => left.path ≤ right.path) = entries at hsorted hperm
  replace hclosed : ∀ entry ∈ entries, ∀ parent ∈ ancestors entry.path, .directory parent ∈ entries := by
    simpa only [hperm.mem_iff] using hclosed
  have hparents : ParentsFirst entries := .of_sorted hsorted hclosed
  have hpaths : entries.Pairwise fun a b => a.path ≠ b.path := hsorted.imp fun hlt => ne_of_lt hlt
  refine ⟨⟨items, given, hvalue, h.describes, hperm⟩, hsorted,
    (hperm.pairwise_iff fun hne => hne.symm).2 h.distinct,
    fun entry hentry => resolve_of_validPath (h.valid entry (hperm.mem_iff.1 hentry)), ?_,
    fun entry hentry => h.small entry (hperm.mem_iff.1 hentry), ?_, hparents,
    foldlM_create hpaths hparents, fun files hfiles => ?_⟩
  · rw [hperm.length_eq]
    exact h.count
  · rw [(hperm.map WorkspaceEntry.size).sum_eq]
    exact h.bytes
  · have hlisted {entry : WorkspaceEntry} (hentry : entry ∈ entries) {parent : Units}
        (hparent : parent ∈ ancestors entry.path) : .directory parent ∈ entries.filter isDirectory :=
      List.mem_filter.2 ⟨hclosed entry hentry parent hparent, rfl⟩
    have hsplit : (entries.filter isDirectory ++ files).Perm entries :=
      (hfiles.append_left _).trans (List.filter_append_perm isDirectory entries)
    refine foldlM_create ((hsplit.pairwise_iff fun hne => hne.symm).2 hpaths) ?_
    refine ParentsFirst.append (.of_sorted (hsorted.filter _) fun entry hentry parent => ?_) ?_
    · exact hlisted (List.mem_of_mem_filter hentry)
    · exact fun entry hentry parent => hlisted (List.mem_of_mem_filter (hfiles.mem_iff.1 hentry))

/-- The directories above an entry are looked up whatever their case, so an accepted manifest can
    be restored if and only if it spells them as the entry does. -/
theorem restorable_iff {value : Live}
    (h : checkedWorkspaceEntries toLowerCase limits value = .ok entries) :
    Restorable toLowerCase limits value entries ↔ SpelledAlike toLowerCase (givenPaths value) := by
  obtain ⟨items, given, rfl, hpassed, rfl⟩ := checkedWorkspaceEntries_eq_ok h
  have hgiven : givenPaths (.arr items) = given.map WorkspaceEntry.path := filterMap_path? hpassed.describes
  rw [hgiven]
  refine ⟨fun hrestorable => ?_, hpassed.restorable rfl⟩
  have hperm := List.perm_insertionSort (fun left right : WorkspaceEntry => left.path ≤ right.path) given
  have hspelled := hrestorable.spelledAlike
  unfold SpelledAlike at hspelled ⊢
  simpa only [(hperm.map WorkspaceEntry.path).mem_iff] using hspelled

private def directoryItem (path : Units) : Live :=
  .obj [(literal "path", .str path), (literal "kind", .str (literal "directory"))]

/-- The directories `a/b` and `a`. -/
private def nested : Live := .arr [directoryItem [97, 47, 98], directoryItem [97]]

/-- The directories `D` and `d/a`. -/
private def mixedCase : Live := .arr [directoryItem [68], directoryItem [100, 47, 97]]

private def lowered (path : Units) : Units := path.map foldUnit

theorem restorable_nested : Restorable lowered defaultWorkspaceLimits nested
      [.directory [97], .directory [97, 47, 98]]
    ↔ SpelledAlike lowered (givenPaths nested) :=
  restorable_iff (by decide +kernel)

/-- An accepted manifest whose second directory is under one that is not listed. -/
theorem mixedCase_not_restorable :
    checkedWorkspaceEntries lowered defaultWorkspaceLimits mixedCase
        = .ok [.directory [68], .directory [100, 47, 97]]
      ∧ ¬Restorable lowered defaultWorkspaceLimits mixedCase [.directory [68], .directory [100, 47, 97]] := by
  refine ⟨by decide +kernel, fun h => ?_⟩
  have hcreated : [WorkspaceEntry.directory [68], .directory [100, 47, 97]].foldlM create [] = none := by
    decide +kernel
  rw [h.created] at hcreated
  cases hcreated

end LingxiOS.Workspace
