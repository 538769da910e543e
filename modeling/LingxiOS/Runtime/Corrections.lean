-- SUMMARY: The correction budget of a run and its checkpoints.
import LingxiOS.Base.Fifo
import LingxiOS.Context.Facts
import LingxiOS.Protocol.LiveValue

/-! # Corrections

A run may be corrected twice without a new observation, and its protocol may be repaired
twice at all. Observations are told apart by the digest of what is left of them without
clocks and other incidental fields. -/

namespace LingxiOS

open JsonText (Units Value Number)
open Stringify (Live literal)

/-- What the budget takes from its platform. -/
structure Builtins where
  /-- `createHash('sha256').update(text).digest('hex')`. -/
  sha256 : Units → String
  sha256_hex : ∀ text, Text.isSha256Hex (sha256 text) = true
  localeCompare : Units → Units → Ordering
  consistent : Std.TransCmp localeCompare

/-! ## Observations -/

def incidental : List Units :=
  ["observedAt", "recordedAt", "timestamp", "durationMs", "latencyMs", "executionId",
    "idempotencyKey", "callId"].map literal

def foldCase (u : Nat) : Nat := if 65 ≤ u ∧ u ≤ 90 then u + 32 else u

/-- `/revision|version|sha256/i.test(key)`. -/
def tellsVersion (key : Units) : Bool :=
  let folded := key.map foldCase
  ["revision", "version", "sha256"].any fun word =>
    folded.tails.any fun rest => (literal word).isPrefixOf rest

namespace Clock

def isDigit (u : Nat) : Bool := 48 ≤ u && u ≤ 57

/-- `\w`. -/
def isWord (u : Nat) : Bool :=
  isDigit u || (65 ≤ u && u ≤ 90) || (97 ≤ u && u ≤ 122) || u == 95

/-- The units one after the other. -/
def matchAll : List (Nat → Bool) → Units → Option Units
  | [], text => some text
  | _ :: _, [] => none
  | p :: ps, u :: text => if p u then matchAll ps text else none

/-- `\d{4}-\d\d-\d\d[T ]\d\d:\d\d:\d\d`. -/
def instant : List (Nat → Bool) :=
  let d := isDigit
  [d, d, d, d, (· == 45), d, d, (· == 45), d, d, (fun u => u == 84 || u == 32),
    d, d, (· == 58), d, d, (· == 58), d, d]

/-- What can be left after `(?:\.\d+)?`, in the order it is tried. -/
def afterFraction : Units → List Units
  | 46 :: text =>
      let digits := (text.takeWhile isDigit).length
      ((List.range digits).reverse.map fun n => text.drop (n + 1)) ++ [46 :: text]
  | text => [text]

/-- What can be left after `(?:Z|[+-]\d\d:\d\d)?`. -/
def afterZone (text : Units) : List Units :=
  let offset := [(fun u => u == 43 || u == 45), isDigit, isDigit, (· == 58), isDigit, isDigit]
  ((matchAll [(· == 90)] text).toList ++ (matchAll offset text).toList) ++ [text]

/-- The length of a time at the start of a text, where a word may start. -/
def length? (text : Units) : Option Nat :=
  (matchAll instant text).bind fun rest =>
    (((afterFraction rest).flatMap afterZone).find? fun rest => !rest.head?.any isWord).map
      fun rest => text.length - rest.length

/-- The text with its times replaced: what is left to skip of the last one, and whether a
    word goes on. -/
def replace (skip : Nat) (word : Bool) : Units → Units
  | [] => []
  | u :: rest =>
      match skip with
      | skip + 1 => replace skip (isWord u) rest
      | 0 =>
          match if word then none else length? (u :: rest) with
          | some length => literal "<time>" ++ replace (length - 1) (isWord u) rest
          | none => u :: replace 0 (isWord u) rest

end Clock

/-- `value.replace(…, '<time>')`. -/
def withoutClock (text : Units) : Units := Clock.replace 0 false text

example : withoutClock (literal "at 2026-01-01T00:00:00.25Z.") = literal "at <time>." := by
  decide +kernel

/-- The order of `a.localeCompare(b)`. -/
def collates (env : Builtins) (a b : Units × Live) : Prop :=
  (env.localeCompare a.1 b.1).isLE = true

instance (env : Builtins) : DecidableRel (collates env) := fun a b =>
  inferInstanceAs (Decidable ((env.localeCompare a.1 b.1).isLE = true))

mutual

def stableObservation (env : Builtins) (key : Units) : Live → Live
  | .arr items => .arr (stableItems env items)
  | .obj members => Live.fromEntries ((stableMembers env members).insertionSort (collates env))
  | .date _ => .obj []
  | .str text => .str (if tellsVersion key then text else withoutClock text)
  | value => value

def stableItems (env : Builtins) : List Live → List Live
  | [] => []
  | item :: rest => stableObservation env [] item :: stableItems env rest

/-- The entries that are not incidental. Their order does not depend on what they hold. -/
def stableMembers (env : Builtins) : List (Units × Live) → List (Units × Live)
  | [] => []
  | (name, item) :: rest =>
      if incidental.contains name then stableMembers env rest
      else (name, stableObservation env name item) :: stableMembers env rest

end

/-! ## The budget -/

inductive CorrectionCategory where
  | contentAcceptance
  | toolProtocol
  | kernelError
  | responseProtocol
  deriving DecidableEq

namespace CorrectionCategory

def text : CorrectionCategory → Units
  | .contentAcceptance => literal "content_acceptance"
  | .toolProtocol => literal "tool_protocol"
  | .kernelError => literal "kernel_error"
  | .responseProtocol => literal "response_protocol"

def isProtocol (category : CorrectionCategory) : Bool :=
  category == .responseProtocol || category == .toolProtocol

/-- `category.endsWith('protocol')`. -/
def endsWithProtocol (category : CorrectionCategory) : Bool :=
  (literal "protocol").isSuffixOf category.text

theorem endsWithProtocol_eq (category : CorrectionCategory) :
    category.endsWithProtocol = category.isProtocol := by
  cases category <;> decide +kernel

end CorrectionCategory

structure ProgressCheckpoint where
  last : String
  count : Int
  observations : List String
  protocolRepairs : Option Int

/-- The observations are a set in the order they were added. -/
structure CorrectionBudget where
  last : String
  count : Int
  protocolRepairs : Int
  observations : List String
  distinct : observations.Nodup

namespace CorrectionBudget

/-- `set.add(key)`. -/
def put (set : List String) (key : String) : List String :=
  if set.contains key then set else set ++ [key]

/-- `new Set(keys)`. -/
def setOf (keys : List String) : List String := keys.foldl put []

theorem nodup_append_new {set : List String} {key : String} (h : set.Nodup) (hkey : key ∉ set) :
    (set ++ [key]).Nodup :=
  List.nodup_append'.2 ⟨h, List.nodup_singleton key, by simpa using hkey⟩

theorem nodup_foldl_put {set : List String} (h : set.Nodup) (keys : List String) :
    (keys.foldl put set).Nodup := by
  induction keys generalizing set with
  | nil => exact h
  | cons key keys ih =>
      apply ih
      unfold put
      split
      · exact h
      · rename_i hkey
        exact nodup_append_new h fun hmem => hkey (List.contains_iff_mem.2 hmem)

def fresh : CorrectionBudget := ⟨"", 0, 0, [], List.nodup_nil⟩

/-- `new CorrectionBudget(checkpoint)`. -/
def restore (checkpoint : ProgressCheckpoint) : CorrectionBudget where
  last := checkpoint.last
  count := checkpoint.count
  protocolRepairs := checkpoint.protocolRepairs.getD 0
  observations := setOf checkpoint.observations
  distinct := nodup_foldl_put List.nodup_nil checkpoint.observations

def snapshot (budget : CorrectionBudget) : ProgressCheckpoint where
  last := budget.last
  count := budget.count
  observations := budget.observations
  protocolRepairs := some budget.protocolRepairs

/-- A failure is named by its category unless it is given. -/
def consume (env : Builtins) (budget : CorrectionBudget) (category : CorrectionCategory)
    (failure : Option Units) : Bool × CorrectionBudget :=
  let repairs := if category.isProtocol then budget.protocolRepairs + 1 else budget.protocolRepairs
  if category.isProtocol && decide (2 < repairs) then
    (false, { budget with protocolRepairs := repairs })
  else
    let key := env.sha256 (category.text ++ literal ":" ++ failure.getD category.text)
    let count := min 6 (budget.count + 1)
    (decide (count < 3), { budget with protocolRepairs := repairs, count := count, last := key })

/-- The digest of an observation, if it can be written. -/
def observationKey (env : Builtins) (value : Live) : Option String :=
  (stableObservation env [] value).stringify.map env.sha256

/-- The set with a key it does not have, without its oldest one if it grew too large. -/
def add (set : List String) (key : String) : List String :=
  if 2048 < (set ++ [key]).length then (set ++ [key]).tail else set ++ [key]

theorem nodup_add {set : List String} {key : String} (h : set.Nodup) (hkey : key ∉ set) :
    (add set key).Nodup := by
  unfold add
  split
  · exact (nodup_append_new h hkey).tail
  · exact nodup_append_new h hkey

def observe (env : Builtins) (budget : CorrectionBudget) (value : Live) :
    Except String Unit × CorrectionBudget :=
  match observationKey env value with
  | none =>
      (.error ("The \"data\" argument must be of type string or an instance of Buffer, TypedArray, "
        ++ "or DataView. Received undefined"), budget)
  | some key =>
      if h : key ∈ budget.observations then (.ok (), budget)
      else (.ok (), ⟨"", 0, budget.protocolRepairs, add budget.observations key,
        nodup_add budget.distinct h⟩)

def has (budget : CorrectionBudget) (category : CorrectionCategory) : Bool :=
  decide (budget.count < 2) && (!category.endsWithProtocol || decide (budget.protocolRepairs < 2))

end CorrectionBudget

/-! ## Checkpoints -/

namespace ProgressCheckpoint

/-- The input of a `runtime.checkpoint` step. -/
def input (checkpoint : ProgressCheckpoint) : JsonObject :=
  [("last", .str checkpoint.last), ("count", .num checkpoint.count),
    ("observations", .arr (checkpoint.observations.map .str))]
    ++ (checkpoint.protocolRepairs.map fun n => ("protocolRepairs", Json.num n)).toList

/-- A safe integer from 0 to some bound. -/
def bounded (most : Int) : Json → Bool
  | .num n => isSafeInteger n && decide (0 ≤ n) && decide (n ≤ most)
  | _ => false

def isDigest : Json → Bool
  | .str text => Text.isSha256Hex text
  | _ => false

def isDigests : Json → Bool
  | .arr items => decide (items.length ≤ 2048) && items.all isDigest
  | _ => false

/-- What `saveStep` asks of a `runtime.checkpoint`. -/
def check (state : JsonObject) : Except String Unit :=
  if !(state.lookup "last").any Json.isString || !(state.lookup "count").any (bounded 6)
      || !(state.lookup "protocolRepairs").all (bounded 3)
      || !(state.lookup "observations").any isDigests
    then .error "invalid progress checkpoint" else .ok ()

end ProgressCheckpoint

end LingxiOS
