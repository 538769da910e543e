-- SUMMARY: catalog.discover: paging through the granted tools.
import LingxiOS.Base.Cursor
import LingxiOS.Protocol.JsonLength
import LingxiOS.Protocol.LiveValue
import Mathlib.Algebra.Order.BigOperators.Group.List

/-! # Tool Discovery

`catalog.discover` lists the tools a work may use that match a query, a page at a time. A page
has at most eight tools and a bounded text; a tool that is over the bound for itself is refused. -/

namespace LingxiOS.Discovery

open JsonText (Units Value Number print)
open Stringify (Live literal)

/-! ## Tools -/

inductive ToolEffect where
  | read | transaction | idempotent | uncertain
  deriving DecidableEq

def ToolEffect.name : ToolEffect → Units
  | .read => literal "read"
  | .transaction => literal "transaction"
  | .idempotent => literal "idempotent"
  | .uncertain => literal "uncertain"

inductive Completeness where
  | full | summary
  deriving DecidableEq

def Completeness.name : Completeness → Units
  | .full => literal "full"
  | .summary => literal "summary"

structure Observation where
  resourceType : Units
  completeness : Completeness

structure Preconditions where
  readAction : Units
  resourceType : Units

inductive Cancellation where
  | signal | reconcile
  deriving DecidableEq

def Cancellation.name : Cancellation → Units
  | .signal => literal "signal"
  | .reconcile => literal "reconcile"

/-- The contract of a long tool; its class is always `operation`. -/
structure OperationContract where
  timeoutMs : Nat
  maxConcurrency : Nat
  cancellation : Cancellation

/-- The data of a tool. Its parameters are a schema of the product's own. -/
structure ToolSpecification where
  name : Units
  action : Units
  description : Units
  parameters : Live
  effect : ToolEffect
  approval : Bool
  readback : Option Units := none
  semanticVersion : Option Units := none
  observation : Option Observation := none
  preconditions : Option Preconditions := none
  deferred : Bool := false
  execution : Option OperationContract := none

def natural (n : Nat) : Live := .num (.ofInt n)

/-- `...(value ? { key: value } : {})`. -/
def truthyText (key : String) (value : Option Units) : List (Units × Live) :=
  match value with
  | some text => if text = [] then [] else [(literal key, .str text)]
  | none => []

def Observation.toLive (observation : Observation) : Live :=
  .obj [(literal "resourceType", .str observation.resourceType),
    (literal "completeness", .str observation.completeness.name)]

def Preconditions.toLive (preconditions : Preconditions) : Live :=
  .obj [(literal "readAction", .str preconditions.readAction),
    (literal "resourceType", .str preconditions.resourceType)]

def OperationContract.toLive (contract : OperationContract) : Live :=
  .obj [(literal "class", .str (literal "operation")),
    (literal "timeoutMs", natural contract.timeoutMs),
    (literal "maxConcurrency", natural contract.maxConcurrency),
    (literal "cancellation", .str contract.cancellation.name)]

def toolSpecification (tool : ToolSpecification) : Live :=
  .obj ([(literal "name", .str tool.name), (literal "action", .str tool.action),
      (literal "description", .str tool.description), (literal "parameters", tool.parameters),
      (literal "effect", .str tool.effect.name), (literal "approval", .bool tool.approval)]
    ++ truthyText "readback" tool.readback
    ++ truthyText "semanticVersion" tool.semanticVersion
    ++ (tool.observation.map fun o => (literal "observation", o.toLive)).toList
    ++ (tool.preconditions.map fun p => (literal "preconditions", p.toLive)).toList
    ++ (if tool.deferred then [(literal "deferred", .bool true)] else [])
    ++ (tool.execution.map fun e => (literal "execution", e.toLive)).toList)

/-! ## What a work may use -/

structure CapabilityGrant where
  name : Units
  methods : Option (List Units) := none

/-- `action.split('.')`. -/
def CapabilityGrant.covers (grant : CapabilityGrant) (action : Units) : Bool :=
  match action.splitOn 46 with
  | [] => false
  | namespace_ :: rest =>
      grant.name == namespace_
        && grant.methods.all fun methods => rest.head?.any fun method => methods.contains method

def grantedTools (catalog : List ToolSpecification) (grants : List CapabilityGrant) :
    List ToolSpecification :=
  catalog.filter fun tool => grants.any fun grant => grant.covers tool.action

inductive HarnessMode where
  | chat | read | execute
  deriving DecidableEq

/-- What is read of a work's `meta`; its mode was checked when the request was taken. -/
structure WorkMeta where
  mode : HarnessMode := .execute
  conversation : Bool := false

def permitsTool (work : WorkMeta) (tool : ToolSpecification) : Bool :=
  if work.conversation && tool.execution.isSome then false
  else work.mode == .execute || work.mode == .read && tool.effect == .read

/-! ## One page -/

/-- What the language depends on its locale and on the Unicode version for. -/
structure Locale where
  toLowerCase : Units → Units
  localeCompare : Units → Units → Ordering
  consistent : Std.TransCmp localeCompare

/-- What a call of the tool meets. -/
structure DiscoveryEnv where
  locale : Locale
  catalog : List ToolSpecification
  grants : List CapabilityGrant
  work : WorkMeta

namespace DiscoveryEnv

variable (env : DiscoveryEnv) (query : Units)

/-- `text.includes(part)`. -/
def includes (text part : Units) : Bool := text.tails.any fun rest => part.isPrefixOf rest

def isMatch (tool : ToolSpecification) : Bool :=
  includes (env.locale.toLowerCase (tool.name ++ [32] ++ tool.description)) (env.locale.toLowerCase query)

/-- The granted and permitted tools that match, in the order of the catalog. -/
def found : List ToolSpecification :=
  (grantedTools env.catalog env.grants).filter fun tool => permitsTool env.work tool && env.isMatch query tool

/-- `a.name.localeCompare(b.name)`. -/
def named (a b : ToolSpecification) : Prop := (env.locale.localeCompare a.name b.name).isLE = true

instance : DecidableRel env.named := fun _ _ => inferInstanceAs (Decidable (_ = _))

/-- The same in the order of their names. -/
def available : List ToolSpecification := (env.found query).insertionSort env.named

end DiscoveryEnv

/-- `JSON.stringify(tools).length`. -/
def pageLength (tools : List ToolSpecification) : Nat :=
  ((Live.arr (tools.map toolSpecification)).stringify.getD []).length

def discoveryBudget : Nat := 12000

/-- The loop over the tools of a slice. -/
def selectTools (selected : List ToolSpecification) :
    List ToolSpecification → Except String (List ToolSpecification)
  | [] => .ok selected
  | tool :: rest =>
      if discoveryBudget < pageLength (selected ++ [tool]) then
        if selected = [] then .error "tool schema exceeds discovery budget" else .ok selected
      else selectTools (selected ++ [tool]) rest

/-- A call with a query and a cursor; any other shape of them is refused in the same words. -/
def discover (env : DiscoveryEnv) (query : Units) (cursor : Nat) :
    Except String (CursorPage ToolSpecification) :=
  if 128 < query.length ∨ 100000 < cursor then .error "invalid discovery query"
  else do
    let available := env.available query
    let selected ← selectTools [] ((available.drop cursor).take 8)
    let next := cursor + selected.length
    return ⟨selected, if next < available.length then some next else none⟩

/-! ## Pages -/

section Pages

variable {env : DiscoveryEnv} {query : Units} {tool : ToolSpecification}
  {selected rest result : List ToolSpecification} {e : String}

/-- The text of a tool. -/
def toolLength (tool : ToolSpecification) : Nat :=
  (print Stringify.jsStyle Number.text
    ((Live.serialize (toolSpecification tool)).getD .null)).length

theorem pageLength_eq (tools : List ToolSpecification) :
    pageLength tools = 2 + (tools.map toolLength).sum + (tools.length - 1) := by
  unfold pageLength Live.stringify
  rw [Live.serialize, Option.map_some, Option.getD_some, Stringify.length_arr,
    Live.serializeItems_eq_map]
  simp only [List.map_map, List.length_map]
  rfl

/-- A tool on a page within the budget is within it for itself. -/
theorem pageLength_singleton_le (h : tool ∈ selected) : pageLength [tool] ≤ pageLength selected := by
  have hsum := List.single_le_sum (fun _ _ => Nat.zero_le _) _ (List.mem_map_of_mem (f := toolLength) h)
  rw [pageLength_eq, pageLength_eq, List.map_singleton, List.sum_singleton, List.length_singleton]
  omega

/-- A string of an object takes its length in the text. -/
theorem length_text_le {members : List (Units × Live)} {k text : Units}
    (h : (k, Live.str text) ∈ members) : (Stringify.stringifyText text).length
      ≤ (print Stringify.jsStyle Number.text ((Live.serialize (.obj members)).getD .null)).length := by
  rw [Live.serialize, Option.getD_some, Stringify.length_obj, Live.serializeMembers_eq_filterMap]
  have hserialized : (Live.serialize (.str text)).map (k, ·) = some (k, .str text) := by
    rw [Live.serialize, Option.map_some]
  have hmem : (k, Value.str text) ∈ members.filterMap fun m => (Live.serialize m.2).map (m.1, ·) :=
    List.mem_filterMap.2 ⟨(k, .str text), h, hserialized⟩
  have hsum := List.single_le_sum (fun _ _ => Nat.zero_le _) _ (List.mem_map_of_mem
    (f := fun m => 3 + (Stringify.stringifyText m.1).length
      + (print Stringify.jsStyle Number.text m.2).length) hmem)
  rw [Stringify.length_str] at hsum
  omega

theorem length_description_le (tool : ToolSpecification) :
    (Stringify.stringifyText tool.description).length ≤ toolLength tool := by
  have hmem : (literal "description", Live.str tool.description) ∈
      [(literal "name", Live.str tool.name), (literal "action", .str tool.action),
        (literal "description", .str tool.description), (literal "parameters", tool.parameters),
        (literal "effect", .str tool.effect.name), (literal "approval", .bool tool.approval)] :=
    List.mem_cons_of_mem _ (List.mem_cons_of_mem _ List.mem_cons_self)
  unfold toolLength toolSpecification
  refine length_text_le (k := literal "description") ?_
  simp only [List.append_assoc]
  exact List.mem_append_left _ hmem

/-- What the loop selects is within the budget, and something if there is something. -/
theorem selectTools_eq_ok (h : selectTools selected rest = .ok result)
    (hfits : pageLength selected ≤ discoveryBudget) : pageLength result ≤ discoveryBudget
      ∧ ∃ more left, result = selected ++ more ∧ rest = more ++ left
        ∧ (result = [] → rest = []) := by
  induction rest generalizing selected with
  | nil =>
      cases h
      exact ⟨hfits, [], [], (List.append_nil _).symm, rfl, fun _ => rfl⟩
  | cons tool rest ih =>
      unfold selectTools at h
      split at h
      case isTrue =>
        split at h
        case isTrue => cases h
        case isFalse hsome =>
          cases h
          exact ⟨hfits, [], tool :: rest, (List.append_nil _).symm, rfl, fun hnone => absurd hnone hsome⟩
      case isFalse hroom =>
        obtain ⟨hresult, more, left, rfl, rfl, -⟩ := ih h (Nat.le_of_not_lt hroom)
        refine ⟨hresult, tool :: more, left, ?_, rfl, fun hnone => ?_⟩
        · rw [List.append_assoc, List.singleton_append]
        · simp at hnone

/-- It only fails at a first tool that is over the budget for itself. -/
theorem selectTools_eq_error (h : selectTools selected rest = .error e) : selected = []
    ∧ e = "tool schema exceeds discovery budget"
    ∧ ∃ tool, rest.head? = some tool ∧ discoveryBudget < pageLength [tool] := by
  induction rest generalizing selected with
  | nil => cases h
  | cons tool rest ih =>
      unfold selectTools at h
      split at h
      case isTrue hover =>
        split at h
        case isTrue hnone =>
          cases h
          subst hnone
          exact ⟨rfl, rfl, tool, rfl, hover⟩
        case isFalse => cases h
      case isFalse =>
        obtain ⟨hnone, -⟩ := ih h
        exact absurd hnone (List.append_ne_nil_of_right_ne_nil _ (List.cons_ne_nil _ _))

/-- What stops the walk at a cursor. -/
def Stops (env : DiscoveryEnv) (query : Units) (cursor : Nat) (e : String) : Prop :=
  e = "invalid discovery query" ∧ (128 < query.length ∨ 100000 < cursor)
    ∨ e = "tool schema exceeds discovery budget" ∧ ∃ tool,
      ((env.available query).drop cursor).head? = some tool ∧ discoveryBudget < pageLength [tool]

/-- Every page is the next piece of the matching tools. -/
theorem discover_pieces (env : DiscoveryEnv) (query : Units) : CursorWalk.Pieces (discover env query)
    (env.available query) (fun page => pageLength page ≤ discoveryBudget) (Stops env query) where
  failed := by
    intro cursor e h
    unfold discover at h
    split at h
    case isTrue hinvalid =>
      cases h
      exact .inl ⟨rfl, hinvalid⟩
    case isFalse =>
      dsimp only at h
      cases hselect : selectTools [] (((env.available query).drop cursor).take 8) with
      | ok selected =>
          rw [hselect] at h
          cases h
      | error e' =>
          rw [hselect] at h
          cases h
          obtain ⟨-, he, tool, hhead, hover⟩ := selectTools_eq_error hselect
          refine .inr ⟨he, tool, ?_, hover⟩
          rw [List.head?_take, if_neg (by decide)] at hhead
          exact hhead
  piece := by
    intro cursor page h
    unfold discover at h
    split at h
    case isTrue => cases h
    case isFalse =>
      dsimp only at h
      cases hselect : selectTools [] (((env.available query).drop cursor).take 8) with
      | error e =>
          rw [hselect] at h
          cases h
      | ok selected =>
          rw [hselect] at h
          cases h
          obtain ⟨hfits, more, left, hmore, hslice, hsome⟩ :=
            selectTools_eq_ok hselect (by decide +kernel)
          rw [List.nil_append] at hmore
          subst hmore
          have hdrop : (env.available query).drop cursor
              = selected ++ (left ++ ((env.available query).drop cursor).drop 8) := by
            rw [← List.append_assoc, ← hslice, List.take_append_drop]
          have hlength := congrArg List.length hdrop
          rw [List.length_drop, List.length_append] at hlength
          refine ⟨hfits, _, hdrop, ?_⟩
          dsimp only
          split
          case h_1 hnext =>
            split at hnext
            case isTrue => cases hnext
            case isFalse hend =>
              rw [← List.length_eq_zero_iff]
              omega
          case h_2 following hnext =>
            split at hnext
            case isFalse => cases hnext
            case isTrue hlt =>
              cases hnext
              refine ⟨fun hnone => ?_, fun hnone => ?_, rfl⟩
              · have hempty := (List.take_eq_nil_iff.1 (hsome hnone)).resolve_left (by decide)
                have hle := List.drop_eq_nil_iff.1 hempty
                omega
              · rw [hnone, List.length_nil] at hlength
                omega

instance : Std.Total env.named where
  total a b := by
    have := env.locale.consistent
    cases h : env.locale.localeCompare a.name b.name with
    | lt => exact .inl (by simp [DiscoveryEnv.named, h])
    | eq => exact .inl (by simp [DiscoveryEnv.named, h])
    | gt =>
        rw [Std.OrientedCmp.gt_iff_lt] at h
        exact .inr (by simp [DiscoveryEnv.named, h])

instance : IsTrans ToolSpecification env.named where
  trans _ _ _ hab hbc := by
    have := env.locale.consistent
    exact Std.TransCmp.isLE_trans hab hbc

/-- Following the cursors of a query ends, and lists the matching tools from the first on in the
    order of their names, each once, on pages within the budget. All of them are listed unless a
    call refuses: because the next tool is over the budget for itself, because the query is too
    long, or because more tools were listed than a cursor may count. -/
theorem discover_walk (env : DiscoveryEnv) (query : Units) : ∃ pages outcome listed left,
    CursorWalk (discover env query) 0 pages outcome
      ∧ (listed ++ left).Perm (env.found query) ∧ (listed ++ left).Pairwise env.named
      ∧ pages.flatten = listed ∧ (∀ page ∈ pages, pageLength page ≤ discoveryBudget)
      ∧ match outcome with
        | none => left = [] ∧ ∀ tool ∈ listed, pageLength [tool] ≤ discoveryBudget
        | some e =>
            e = "invalid discovery query" ∧ (128 < query.length ∨ 100000 < listed.length)
              ∨ e = "tool schema exceeds discovery budget" ∧ ∃ tool, left.head? = some tool
                ∧ discoveryBudget < pageLength [tool] := by
  obtain ⟨pages, outcome, listed, left, hwalk, hlisted, hflat, hfits, hends⟩ :=
    CursorWalk.exists_of_pieces (discover_pieces env query) 0
  rw [List.drop_zero] at hlisted
  refine ⟨pages, outcome, listed, left, hwalk, ?_, ?_, hflat, hfits, ?_⟩
  · rw [← hlisted]
    exact List.perm_insertionSort _ _
  · rw [← hlisted]
    exact List.pairwise_insertionSort _ _
  · cases outcome with
    | none =>
        refine ⟨hends, fun tool htool => ?_⟩
        rw [← hflat] at htool
        obtain ⟨page, hpage, htool⟩ := List.mem_flatten.1 htool
        exact (pageLength_singleton_le htool).trans (hfits page hpage)
    | some e =>
        dsimp only [Stops] at hends
        rw [Nat.zero_add, hlisted, List.drop_left] at hends
        exact hends

end Pages

/-! ### A large tool before a small one -/

private def plainLocale : Locale where
  toLowerCase := id
  localeCompare := compare
  consistent := inferInstance

private def largeTool : ToolSpecification where
  name := literal "docs__a"
  action := literal "docs.a"
  description := List.replicate 12000 97
  parameters := .obj []
  effect := .read
  approval := false

private def smallTool : ToolSpecification where
  name := literal "docs__b"
  action := literal "docs.b"
  description := literal "Read."
  parameters := .obj []
  effect := .read
  approval := false

private def twoTools : DiscoveryEnv where
  locale := plainLocale
  catalog := [largeTool, smallTool]
  grants := [⟨literal "docs", none⟩]
  work := {}

private theorem budget_lt_largeTool : discoveryBudget < pageLength [largeTool] := by
  have hdescription : Stringify.stringifyText largeTool.description = List.replicate 12000 97 := by
    refine Stringify.stringifyText_plain fun u hu => ?_
    rw [List.eq_of_mem_replicate hu]
    decide
  have hle := length_description_le largeTool
  rw [hdescription, List.length_replicate] at hle
  rw [pageLength_eq, List.map_singleton, List.sum_singleton]
  unfold discoveryBudget
  omega

/-- The walk ends at the first call, and the tool after the large one is never listed. -/
theorem large_tool_hides_next : smallTool ∈ twoTools.found []
    ∧ CursorWalk (discover twoTools []) 0 [] (some "tool schema exceeds discovery budget")
    ∧ ∀ pages outcome, CursorWalk (discover twoTools []) 0 pages outcome →
      outcome ≠ none ∧ smallTool ∉ pages.flatten := by
  have hselect : selectTools [] [largeTool, smallTool]
      = .error "tool schema exceeds discovery budget" := by
    unfold selectTools
    rw [List.nil_append, if_pos budget_lt_largeTool, if_pos rfl]
  have hslice : ((twoTools.available []).drop 0).take 8 = [largeTool, smallTool] := rfl
  have hcall : discover twoTools [] 0 = .error "tool schema exceeds discovery budget" := by
    unfold discover
    rw [if_neg (by decide)]
    dsimp only
    rw [hslice, hselect]
    rfl
  refine ⟨List.mem_cons_of_mem _ List.mem_cons_self, .failed hcall, fun pages outcome hwalk => ?_⟩
  obtain ⟨rfl, rfl⟩ := hwalk.unique (.failed hcall)
  exact ⟨nofun, List.not_mem_nil⟩

end LingxiOS.Discovery
