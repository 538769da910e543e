-- SUMMARY: Artifact lists: what is accepted as one, and the last record of a path wins.
import LingxiOS.Base.Latest
import LingxiOS.Context.Facts

/-! # Artifacts

A run reports files by their paths. A list of them is checked as a whole, and of
several records of one path the last one is kept. -/

namespace LingxiOS

/-- `item.path.split('/').every(part => part !== '' && part !== '.' && part !== '..')`. -/
def validSegments (path : String) : Bool :=
  (path.toList.splitOn '/').all (fun part => part != [] && part != ['.'] && part != ['.', '.'])

/-- `/[\\:\u0000-\u001f\u007f]/` finds nothing. -/
def validPathChar (c : Char) : Bool :=
  c.toNat != 0x5c && c.toNat != 0x3a && 0x20 ≤ c.toNat && c.toNat != 0x7f

def validArtifactSource (source : ArtifactSource) : Bool :=
  0 < Text.length source.ref && Text.length source.ref ≤ 2000
    && 0 < Text.length source.version && Text.length source.version ≤ 2000

/-- `/^[a-f0-9]{64}$/i`. -/
def isSha256HexAnyCase (digest : String) : Bool :=
  Text.isSha256Hex (String.ofList (digest.toList.map Text.foldCase))

def validArtifact (item : KernelArtifact) : Bool :=
  0 < Text.length item.path && Text.length item.path ≤ 4096
    && item.path.toList.all validPathChar && validSegments item.path
    && isSafeInteger item.size && (item.source.map validArtifactSource).getD true
    && isSha256HexAnyCase item.sha256

/-- `[...new Map(artifacts.map(artifact => [artifact.path, artifact])).values()]`. -/
def lastByPath (artifacts : List KernelArtifact) : List KernelArtifact :=
  (artifacts.foldl (fun found artifact => found.set artifact.path artifact)
    (JsMap.empty : JsMap String KernelArtifact)).values

def snapshotArtifacts (artifacts : List KernelArtifact) : Except String (List KernelArtifact) :=
  if 512 < artifacts.length || !artifacts.all validArtifact then
    .error "invalid response artifacts"
  else .ok (lastByPath artifacts)

theorem snapshotArtifacts_eq_ok_iff {artifacts checked : List KernelArtifact} :
    snapshotArtifacts artifacts = .ok checked ↔
      artifacts.length ≤ 512 ∧ artifacts.all validArtifact = true ∧ checked = lastByPath artifacts := by
  unfold snapshotArtifacts
  split
  · rename_i hbad
    rw [Bool.or_eq_true, decide_eq_true_eq] at hbad
    constructor
    · intro h
      cases h
    · rintro ⟨hlength, hvalid, _⟩
      rcases hbad with hbad | hbad
      · exact absurd hlength (Nat.not_le_of_lt hbad)
      · rw [hvalid] at hbad
        cases hbad
  · rename_i hgood
    simp only [Bool.or_eq_true, decide_eq_true_eq, Nat.not_lt, not_or] at hgood
    constructor
    · intro h
      cases h
      exact ⟨hgood.1, by simpa using hgood.2, rfl⟩
    · rintro ⟨_, _, rfl⟩
      rfl

/-! ## The latest record of a path -/

section Latest

variable {artifacts : List KernelArtifact} {path : String} {artifact : KernelArtifact}

theorem lastByPath_eq : lastByPath artifacts = lastByKey KernelArtifact.path artifacts := rfl

@[simp] theorem latest_lastByPath :
    latest KernelArtifact.path (lastByPath artifacts) path
      = latest KernelArtifact.path artifacts path := by
  rw [lastByPath_eq, latest_lastByKey]

/-- Of the records of a path the last one is kept. -/
theorem mem_lastByPath_iff :
    artifact ∈ lastByPath artifacts
      ↔ latest KernelArtifact.path artifacts artifact.path = some artifact := mem_lastByKey_iff

theorem mem_of_mem_lastByPath (h : artifact ∈ lastByPath artifacts) : artifact ∈ artifacts :=
  mem_of_mem_lastByKey h

theorem length_lastByPath_le : (lastByPath artifacts).length ≤ artifacts.length :=
  length_lastByKey_le

end Latest

end LingxiOS
