-- SUMMARY: What a delegated child takes from its parent.
import LingxiOS.Base.Checks
import LingxiOS.Delegation.Children

/-! # Inherited Authority

The metadata of a child is read key by key: whatever the model supplied, the keys that
carry policy and lineage come from the parent. One delegation makes a child that inherits
from its parent, every other step leaves that so, and a chain of delegations composes. -/

namespace LingxiOS

namespace Jobs

/-! ## Reading an assembled object -/

/-- A member that may be missing leaves what was there when it is. -/
theorem lookup_member_of (fields : JsonObject) (key other : String) (value : Option Json) :
    (JsonObject.assignAll fields (member key value)).lookup other
      = if other = key then value.or (fields.lookup other) else fields.lookup other := by
  cases value with
  | none => simp [member]
  | some v => simp [member, JsonObject.lookup_assign]

theorem modelMeta_untrusted (input : ChildInput) {key : String} (h : key ∈ untrustedKeys) :
    (modelMeta input).lookup key = none := by
  rw [List.lookup_eq_none_iff]
  intro field hfield
  have hkept := (List.mem_filter.1 hfield).2
  simp only [decide_eq_true_eq] at hkept
  simpa using fun heq : key = field.1 => hkept (heq ▸ h)

section Meta

variable (parent : JobRow) (request : Json) (version : Nat) (input : ChildInput)
  (graphId : Option String) (mode : Option Json)

theorem childMeta_class : (childMeta parent request version input graphId mode).lookup "executionClass"
    = some (.str (childClass parent input)) := by
  simp [childMeta, JsonObject.lookup_assign, lookup_member_of]

theorem childMeta_mode :
    (childMeta parent request version input graphId mode).lookup "mode" = mode := by
  have hmodel : (modelMeta input).lookup "mode" = none := modelMeta_untrusted input (by decide)
  simp [childMeta, JsonObject.lookup_assign, lookup_member_of, hmodel]

theorem childMeta_code : (childMeta parent request version input graphId mode).lookup "codeExecution"
    = childCode parent input := by
  have hmodel : (modelMeta input).lookup "codeExecution" = none :=
    modelMeta_untrusted input (by decide)
  simp [childMeta, JsonObject.lookup_assign, lookup_member_of, hmodel]

theorem childMeta_parent : (childMeta parent request version input graphId mode).lookup "parentWorkId"
    = some (.str parent.id) := by
  simp [childMeta, JsonObject.lookup_assign, lookup_member_of]

theorem childMeta_root : (childMeta parent request version input graphId mode).lookup "rootWorkId"
    = some (rootOf parent) := by
  simp [childMeta, JsonObject.lookup_assign, lookup_member_of]

theorem childMeta_version :
    (childMeta parent request version input graphId mode).lookup "parentRequestVersion"
      = some (.num version) := by
  simp [childMeta, JsonObject.lookup_assign, lookup_member_of]

theorem childMeta_delegation :
    (childMeta parent request version input graphId mode).lookup "delegation"
      = some (delegation parent request version input.text) := by
  simp [childMeta, JsonObject.lookup_assign]

end Meta

/-! ## One delegation -/

theorem requestSnapshot_ok {tables : JobTables} {workId : String} {version : Option Nat}
    {request : Json} (h : requestSnapshot tables workId version = .ok request) :
    ∃ v, version = some v ∧ versionOf request = some v
      ∧ request.field "workId" = some (.str workId) := by
  unfold requestSnapshot at h
  split at h
  · split at h
    · rename_i hfound
      obtain ⟨hwork, hversion, hsome⟩ := hfound
      obtain ⟨v, hv⟩ := Option.isSome_iff_exists.1 hsome
      cases h
      exact ⟨v, hv, hversion.trans hv, hwork⟩
    · cases h
  · cases h

theorem checkInput_class {works : JsMap String JobRow} {parent : JobRow} {input : ChildInput}
    (h : checkInput works parent input = .ok ()) :
    childClass parent input = "conversation" ∧ classOf parent = .conversation
      ∨ childClass parent input = "operation" := by
  simp only [checkInput, Except.throw_eq_error, Except.error_bind, Except.guard_eq_ok_iff,
    Except.pure_eq_ok, not_or, not_and, not_not] at h
  obtain ⟨-, -, ⟨hknown, hallowed⟩, -⟩ := h
  obtain hconversation | hoperation := List.mem_pair.1 hknown
  · exact .inl ⟨hconversation, hallowed hconversation⟩
  · exact .inr hoperation

/-- The lineage of a stored work without a parent is that work. -/
theorem rootOf_top {works : JsMap String JobRow} {parent : JobRow}
    (hparent : works.get? parent.id = some parent)
    (hactive : ancestorsActive works parent = true)
    (htop : Jsonb.getText parent.meta_ "parentWorkId" = none) : rootOf parent = .str parent.id := by
  simp only [ancestorsActive, Bool.and_eq_true, List.any_eq_true, decide_eq_true_eq] at hactive
  obtain ⟨⟨-, row, hrow, hroot⟩, -⟩ := hactive
  have hself : row = parent := by
    simp only [ancestors, hparent] at hrow
    split at hrow
    · simpa [lineage, htop] using hrow
    · cases hrow
  rw [← hroot, hself]

theorem rootOf_isText {works : JsMap String JobRow} {parent : JobRow}
    (hactive : ancestorsActive works parent = true) : ∃ id, rootOf parent = .str id := by
  simp only [ancestorsActive, Bool.and_eq_true, List.any_eq_true, decide_eq_true_eq] at hactive
  obtain ⟨⟨-, row, -, hroot⟩, -⟩ := hactive
  exact ⟨row.id, hroot.symm⟩

theorem coalesce_ne_null {value : Option Json} {other : Json} (h : other ≠ .null) :
    coalesce value other ≠ .null := by
  unfold coalesce
  split
  · exact h
  · exact h
  · assumption

theorem coalesce_some {value : Json} (h : value ≠ .null) (other : Json) :
    coalesce (some value) other = value := by
  cases value with
  | null => exact absurd rfl h
  | _ => rfl

theorem coalesce_sortKeys (value : Option Json) {other : Json} (h : other.sortKeys = other) :
    (coalesce value other).sortKeys = coalesce (value.map Json.sortKeys) other := by
  cases value with
  | none => exact h
  | some v =>
      cases v with
      | null => exact h
      | _ => simp [coalesce, Json.sortKeys]

theorem get_sorted {value : Option Json} (h : value.map Json.sortKeys = value) (key : String) :
    (Jsonb.get value key).map Json.sortKeys = Jsonb.get value key := by
  cases value with
  | none => rfl
  | some v =>
      have hfield := Json.field_sortKeys v key
      rw [Option.some.inj h] at hfield
      exact hfield.symm

/-- The mode a child stores is the mode its parent has. -/
theorem childMode_ok {parent : JobRow} {mode : Option Json}
    (hstored : parent.meta_.map Json.sortKeys = parent.meta_) (h : childMode parent = .ok mode) :
    coalesce (mode.map Json.sortKeys) (.str "execute")
      = coalesce (Jsonb.get parent.meta_ "mode") (.str "execute") := by
  unfold childMode at h
  split at h
  · rename_i hnone
    cases h
    rw [hnone]
    rfl
  · obtain ⟨m, hm, rfl⟩ := Except.map_eq_ok_iff.1 h
    have hmode : m = coalesce (Jsonb.get parent.meta_ "mode") (.str "execute") := by
      simp only [executionMode] at hm
      split at hm
      · exact (Except.ok.inj hm).symm
      · cases hm
    have hsorted : m.sortKeys = m := by
      rw [hmode, coalesce_sortKeys _ (by simp [Json.sortKeys]), get_sorted hstored]
    have hnull : m ≠ .null := hmode ▸ coalesce_ne_null (by simp)
    rw [Option.map_some, hsorted, coalesce_some hnull]
    exact hmode

/-- What a successful delegation checked, and what it stored. -/
theorem enqueueChild_ok {sha256 : String → String} {now : Int} {authorized : Except String Unit}
    {tables tables' : JobTables} {parent : JobRow} {version : Option Nat} {input : ChildInput}
    {graphId : Option String}
    (h : enqueueChild sha256 now authorized tables parent version input graphId = .ok tables') :
    ∃ request v mode,
      requestSnapshot tables parent.id version = .ok request ∧ version = some v
        ∧ ancestorsActive tables.works parent = true
        ∧ checkInput tables.works parent input = .ok ()
        ∧ childMode parent = .ok mode
        ∧ enqueueWork now tables.works (childWork sha256 parent v input
            (childMeta parent request v input graphId mode)) = .ok tables'.works
        ∧ tables'.delegated
          = tables.delegated ++ [⟨parent.id, input.id, v, request, input.text⟩] := by
  simp only [enqueueChild, Except.bind_eq_ok_iff, Except.throw_eq_error, Except.error_bind,
    Except.guard_eq_ok_iff, Except.pure_eq_ok, Except.ok.injEq] at h
  obtain ⟨request, hrequest, _, -, -, hactive, ⟨⟩, hcheck, mode, hmode, -, works, hworks, rfl⟩ := h
  obtain ⟨v, rfl, -, -⟩ := requestSnapshot_ok hrequest
  exact ⟨request, v, mode, hrequest, rfl, by simpa using hactive, hcheck, hmode, hworks, rfl⟩

/-! ## What a child inherits -/

/-- A child beside its parent, by the delegation that was recorded of it. -/
structure Inherits (parent child : JobRow) (made : Delegated) : Prop where
  mode : executionMode child.meta_ = executionMode parent.meta_
  code : Jsonb.get parent.meta_ "codeExecution" = some (.str "disabled") →
    Jsonb.get child.meta_ "codeExecution" = some (.str "disabled")
  class_ : Jsonb.get child.meta_ "executionClass" = some (.str "conversation")
      ∧ classOf parent = .conversation
    ∨ Jsonb.get child.meta_ "executionClass" = some (.str "operation")
  parentWorkId : Jsonb.get child.meta_ "parentWorkId" = some (.str parent.id)
  rootWorkId : Jsonb.get child.meta_ "rootWorkId" = some (rootOf parent)
  rooted : ∃ id, rootOf parent = .str id
  top : Jsonb.getText parent.meta_ "parentWorkId" = none → rootOf parent = .str parent.id
  version : Jsonb.get child.meta_ "parentRequestVersion" = some (.num made.version)
  request : versionOf made.request = some made.version
    ∧ made.request.field "workId" = some (.str parent.id)
  delegation : Jsonb.get child.meta_ "delegation"
    = some (delegation parent made.request made.version made.assignment).sortKeys

theorem SameJob.executionMode {row row' : JobRow} (h : SameJob row row') :
    executionMode row'.meta_ = executionMode row.meta_ := by
  unfold Jobs.executionMode
  rw [h.meta_ "mode" (by decide)]

/-- A resumed approval may make a conversation of an operation, never the reverse. -/
theorem SameJob.conversation {row row' : JobRow} (h : SameJob row row')
    (hclass : classOf row = .conversation) : classOf row' = .conversation := by
  unfold Jobs.classOf at hclass ⊢
  rw [h.meta_ "executionClass" (by decide)]
  obtain hlane | hlane := h.lane
  · rw [hlane]
    exact hclass
  · rw [hlane]
    unfold executionClassOf at hclass ⊢
    split
    · rfl
    · simp_all
    · rfl

theorem SameJob.rootOf {row row' : JobRow} (h : SameJob row row') : rootOf row' = rootOf row := by
  unfold Jobs.rootOf
  rw [h.meta_ "rootWorkId" (by decide), h.id]

theorem SameJob.getText {row row' : JobRow} (h : SameJob row row') {key : String}
    (hkey : key ≠ "memorySnapshot") : Jsonb.getText row'.meta_ key = Jsonb.getText row.meta_ key := by
  unfold Jsonb.getText
  rw [h.meta_ key hkey]

theorem Inherits.of_same {parent parent' child child' : JobRow} {made : Delegated}
    (h : Inherits parent child made) (hparent : SameJob parent parent')
    (hchild : SameJob child child') : Inherits parent' child' made where
  mode := by rw [hchild.executionMode, hparent.executionMode, h.mode]
  code := by
    rw [hchild.meta_ _ (by decide), hparent.meta_ _ (by decide)]
    exact h.code
  class_ := by
    rw [hchild.meta_ _ (by decide)]
    exact h.class_.imp_left fun ⟨hasked, hclass⟩ => ⟨hasked, hparent.conversation hclass⟩
  parentWorkId := by rw [hchild.meta_ _ (by decide), hparent.id, h.parentWorkId]
  rootWorkId := by rw [hchild.meta_ _ (by decide), hparent.rootOf, h.rootWorkId]
  rooted := by
    rw [hparent.rootOf]
    exact h.rooted
  top := by
    rw [hparent.getText (by decide), hparent.rootOf, hparent.id]
    exact h.top
  version := by rw [hchild.meta_ _ (by decide), h.version]
  request := by
    rw [hparent.id]
    exact h.request
  delegation := by
    rw [hchild.meta_ _ (by decide), h.delegation]
    unfold Jobs.delegation
    rw [hparent.id, hparent.agentId, hparent.rootOf]

/-- A child that was just stored inherits. -/
theorem inherits_of_stored {works : JsMap String JobRow}
    {parent child : JobRow} {request : Json} {version : Nat} {input : ChildInput}
    {graphId : Option String} {mode : Option Json}
    (hparent : works.get? parent.id = some parent)
    (hstored : parent.meta_.map Json.sortKeys = parent.meta_)
    (hrequest : versionOf request = some version ∧ request.field "workId" = some (.str parent.id))
    (hactive : ancestorsActive works parent = true)
    (hcheck : checkInput works parent input = .ok ())
    (hmode : childMode parent = .ok mode)
    (hmeta : child.meta_
      = some (Json.obj (childMeta parent request version input graphId mode)).sortKeys) :
    Inherits parent child ⟨parent.id, input.id, version, request, input.text⟩ := by
  have hkey (key : String) : Jsonb.get child.meta_ key
      = ((childMeta parent request version input graphId mode).lookup key).map Json.sortKeys := by
    rw [hmeta, Jsonb.get_some, Json.field_sortKeys, Json.field_obj]
  obtain ⟨root, hroot⟩ := rootOf_isText hactive
  refine ⟨?_, ?_, ?_, ?_, ?_, ⟨root, hroot⟩, rootOf_top hparent hactive, ?_, hrequest, ?_⟩
  · unfold executionMode
    rw [hkey, childMeta_mode, childMode_ok hstored hmode]
  · intro hdisabled
    simp [hkey, childMeta_code, childCode, hdisabled, Json.sortKeys]
  · refine (checkInput_class hcheck).imp (fun ⟨hasked, hclass⟩ => ⟨?_, hclass⟩) (fun hasked => ?_)
    · simp [hkey, childMeta_class, hasked, Json.sortKeys]
    · simp [hkey, childMeta_class, hasked, Json.sortKeys]
  · simp [hkey, childMeta_parent, Json.sortKeys]
  · simp [hkey, childMeta_root, hroot, Json.sortKeys]
  · simp [hkey, childMeta_version, Json.sortKeys]
  · simp [hkey, childMeta_delegation]

/-! ## Runs -/

/-- Every delegation so far has made a child that still inherits from its parent. -/
def Inherited (tables : JobTables) : Prop :=
  ∀ made ∈ tables.delegated, ∃ parent child, tables.works.get? made.parentId = some parent
    ∧ tables.works.get? made.childId = some child ∧ Inherits parent child made

theorem child_inherited {sha256 : String → String} {now : Int} {authorized : Except String Unit}
    {tables tables' : JobTables} {parent : JobRow} {version : Option Nat} {input : ChildInput}
    {graphId : Option String} (hstored : Stored tables) (hinherited : Inherited tables)
    (hparent : tables.works.get? parent.id = some parent)
    (h : enqueueChild sha256 now authorized tables parent version input graphId = .ok tables') :
    Stored tables' ∧ Inherited tables' := by
  obtain ⟨request, v, mode, hrequest, rfl, hactive, hcheck, hmode, hworks, hmade⟩ :=
    enqueueChild_ok h
  obtain ⟨w, hw, hversion, hwork⟩ := requestSnapshot_ok hrequest
  obtain rfl := Option.some.inj hw
  obtain ⟨⟨child, hchild, hsame⟩, hkept, hfound⟩ := enqueueWork_ok hworks
  simp only [sameRequest, decide_eq_true_eq] at hsame
  obtain ⟨-, -, -, -, -, -, -, -, -, hmeta, -⟩ := hsame
  constructor
  · constructor
    · intro id row hrow
      obtain hold | ⟨rfl, rfl⟩ := hfound id row hrow
      · exact hstored.id hold
      · rfl
    · intro id row hrow
      obtain hold | ⟨rfl, rfl⟩ := hfound id row hrow
      · exact hstored.meta_ hold
      · simp [EnqueueWorkInput.row, Function.comp_def, Json.sortKeys_sortKeys]
  · intro made hmem
    rw [hmade] at hmem
    obtain hold | hnew := List.mem_append.1 hmem
    · obtain ⟨p, c, hp, hc, hinherits⟩ := hinherited made hold
      exact ⟨p, c, hkept _ _ hp, hkept _ _ hc, hinherits⟩
    · obtain rfl := List.mem_singleton.1 hnew
      exact ⟨parent, child, hkept _ _ hparent, hchild,
        inherits_of_stored hparent (hstored.meta_ hparent) ⟨hversion, hwork⟩ hactive hcheck hmode
          hmeta⟩

theorem step_inherited {sha256 : String → String} {tables tables' : JobTables} {event : Event}
    (h : Stored tables ∧ Inherited tables) (hstep : (system sha256).step tables event tables') :
    Stored tables' ∧ Inherited tables' := by
  obtain ⟨hstored, hinherited⟩ := h
  cases event with
  | child now authorized parentId version input graphId =>
      obtain ⟨parent, hparent, hcall⟩ := hstep
      obtain rfl := hstored.id hparent
      exact child_inherited hstored hinherited hparent hcall
  | others =>
      obtain ⟨hmade, hsame, hstored'⟩ := hstep
      refine ⟨hstored', ?_⟩
      intro made hmem
      rw [hmade] at hmem
      obtain ⟨parent, child, hparent, hchild, hinherits⟩ := hinherited made hmem
      obtain ⟨parent', hparent', hsameParent⟩ := hsame _ _ hparent
      obtain ⟨child', hchild', hsameChild⟩ := hsame _ _ hchild
      exact ⟨parent', child', hparent', hchild', hinherits.of_same hsameParent hsameChild⟩

theorem reachable_inherited {sha256 : String → String} {tables : JobTables}
    (h : (system sha256).Reachable tables) : Stored tables ∧ Inherited tables :=
  h.invariant (fun hstart => ⟨hstart.2, by simp [Inherited, hstart.1]⟩) step_inherited

/-! ## Chains -/

/-- The child was delegated by the parent. -/
def Delegates (tables : JobTables) (parent child : JobRow) : Prop :=
  ∃ made ∈ tables.delegated, tables.works.get? made.parentId = some parent
    ∧ tables.works.get? made.childId = some child

theorem Inherited.of_delegates {tables : JobTables} (h : Inherited tables) {parent child : JobRow}
    (hdelegates : Delegates tables parent child) : ∃ made, Inherits parent child made := by
  obtain ⟨made, hmem, hparent, hchild⟩ := hdelegates
  obtain ⟨p, c, hp, hc, hinherits⟩ := h made hmem
  obtain rfl := Option.some.inj (hp.symm.trans hparent)
  obtain rfl := Option.some.inj (hc.symm.trans hchild)
  exact ⟨made, hinherits⟩

theorem Inherits.rootOf_child {parent child : JobRow} {made : Delegated}
    (h : Inherits parent child made) : rootOf child = rootOf parent := by
  obtain ⟨id, hid⟩ := h.rooted
  rw [rootOf, h.rootWorkId, hid]
  rfl

theorem Inherits.conversation {parent child : JobRow} {made : Delegated}
    (h : Inherits parent child made) (hclass : classOf child = .conversation) :
    classOf parent = .conversation := by
  obtain ⟨-, hparent⟩ | hoperation := h.class_
  · exact hparent
  · simp [classOf, hoperation, executionClassOf] at hclass

/-- A descendant runs in the mode of the work it descends from, and under its root. -/
theorem Inherited.descends {tables : JobTables} (h : Inherited tables) {work descendant : JobRow}
    (hchain : Relation.TransGen (Delegates tables) work descendant) :
    executionMode descendant.meta_ = executionMode work.meta_
      ∧ rootOf descendant = rootOf work
      ∧ Jsonb.get descendant.meta_ "rootWorkId" = some (rootOf work) := by
  induction hchain with
  | single hstep =>
      obtain ⟨made, hinherits⟩ := h.of_delegates hstep
      exact ⟨hinherits.mode, hinherits.rootOf_child, hinherits.rootWorkId⟩
  | tail _ hstep ih =>
      obtain ⟨hmode, hroot, -⟩ := ih
      obtain ⟨made, hinherits⟩ := h.of_delegates hstep
      exact ⟨hinherits.mode.trans hmode, hinherits.rootOf_child.trans hroot,
        hroot ▸ hinherits.rootWorkId⟩

theorem Inherited.disables {tables : JobTables} (h : Inherited tables) {work descendant : JobRow}
    (hchain : Relation.TransGen (Delegates tables) work descendant)
    (hdisabled : Jsonb.get work.meta_ "codeExecution" = some (.str "disabled")) :
    Jsonb.get descendant.meta_ "codeExecution" = some (.str "disabled") := by
  induction hchain with
  | single hstep =>
      obtain ⟨made, hinherits⟩ := h.of_delegates hstep
      exact hinherits.code hdisabled
  | tail _ hstep ih =>
      obtain ⟨made, hinherits⟩ := h.of_delegates hstep
      exact hinherits.code ih

theorem Inherited.top {tables : JobTables} (h : Inherited tables) {root descendant : JobRow}
    (htop : Jsonb.getText root.meta_ "parentWorkId" = none)
    (hchain : Relation.TransGen (Delegates tables) root descendant) : rootOf root = .str root.id := by
  obtain ⟨child, hstep, -⟩ := Relation.TransGen.head'_iff.1 hchain
  obtain ⟨made, hinherits⟩ := h.of_delegates hstep
  exact hinherits.top htop

/-- No delegation has widened what its parent may do, and each child's record names the
    parent, the request and the root it was made under. -/
structure Confined (tables : JobTables) : Prop where
  mode : ∀ {work descendant}, Relation.TransGen (Delegates tables) work descendant →
    executionMode descendant.meta_ = executionMode work.meta_
  code : ∀ {work descendant}, Relation.TransGen (Delegates tables) work descendant →
    Jsonb.get work.meta_ "codeExecution" = some (.str "disabled") →
    Jsonb.get descendant.meta_ "codeExecution" = some (.str "disabled")
      ∧ permitsCode descendant.meta_ = false
  class_ : ∀ {parent child}, Delegates tables parent child →
    classOf child = .conversation → classOf parent = .conversation
  root : ∀ {root descendant}, Jsonb.getText root.meta_ "parentWorkId" = none →
    Relation.TransGen (Delegates tables) root descendant →
    Jsonb.get descendant.meta_ "rootWorkId" = some (.str root.id)
  lineage : ∀ made ∈ tables.delegated, ∃ parent child,
    tables.works.get? made.parentId = some parent ∧ tables.works.get? made.childId = some child
      ∧ parent.id = made.parentId ∧ child.id = made.childId
      ∧ Jsonb.get child.meta_ "parentWorkId" = some (.str made.parentId)
      ∧ Jsonb.get child.meta_ "parentRequestVersion" = some (.num made.version)
      ∧ versionOf made.request = some made.version
      ∧ made.request.field "workId" = some (.str made.parentId)
      ∧ Jsonb.get child.meta_ "delegation"
        = some (delegation parent made.request made.version made.assignment).sortKeys

theorem permitsCode_disabled {meta_ : Option Json}
    (h : Jsonb.get meta_ "codeExecution" = some (.str "disabled")) : permitsCode meta_ = false := by
  simp [permitsCode, h]

/-- Delegations of any depth, by works of any kind, with anything the model supplies and any
    other code in between. -/
theorem delegation_confined {sha256 : String → String} {tables : JobTables}
    (h : (system sha256).Reachable tables) : Confined tables := by
  obtain ⟨hstored, hinherited⟩ := reachable_inherited h
  constructor
  · intro work descendant hchain
    exact (hinherited.descends hchain).1
  · intro work descendant hchain hdisabled
    have hcode := hinherited.disables hchain hdisabled
    exact ⟨hcode, permitsCode_disabled hcode⟩
  · intro parent child hstep
    obtain ⟨made, hinherits⟩ := hinherited.of_delegates hstep
    exact hinherits.conversation
  · intro root descendant htop hchain
    rw [(hinherited.descends hchain).2.2, hinherited.top htop hchain]
  · intro made hmem
    obtain ⟨parent, child, hparent, hchild, hinherits⟩ := hinherited made hmem
    have hid := hstored.id hparent
    refine ⟨parent, child, hparent, hchild, hid, hstored.id hchild, ?_, hinherits.version,
      hinherits.request.1, ?_, hinherits.delegation⟩
    · rw [hinherits.parentWorkId, hid]
    · rw [hinherits.request.2, hid]

private def readWork : EnqueueWorkInput where
  id := "w1"
  tenantId := "t1"
  agentId := "a1"
  sessionId := "s1"
  threadId := none
  kind := "turn"
  lane := .interactive
  triggerRef := "m1"
  principalId := some "u1"
  meta_ := some (.obj [("codeExecution", .str "disabled"), ("mode", .str "read")])
  conversation := none

private def readJob : JobRow := { readWork.row 0 with status := .leased }

private def readTables : JobTables where
  works := JsMap.empty.set "w1" readJob
  requests := JsMap.empty.set "w1"
    (.obj [("attachments", .arr []), ("revisions", .arr []), ("workId", .str "w1")])
  dependencies := []
  delegated := []

/-- A child whose metadata asks for more than its parent has. -/
private def greedyChild : ChildInput where
  id := "w2"
  agentId := "a2"
  text := "look it up"
  executionClass := some "operation"
  meta_ := some [("mode", .str "execute"), ("codeExecution", .str "enabled"),
    ("rootWorkId", .str "w0"), ("topic", .str "news")]

theorem greedyChild_confined : ∃ tables child, (system id).Reachable tables
    ∧ tables.works.get? "w2" = some child ∧ Confined tables
    ∧ Jsonb.get child.meta_ "mode" = some (.str "read") := by
  have hstart : (system id).start readTables := by
    refine ⟨rfl, ?_, ?_⟩
    all_goals
      intro key row hrow
      simp only [readTables, JsMap.get?_set] at hrow
      split at hrow
      · obtain rfl := Option.some.inj hrow
        subst_vars
        decide
      · cases hrow
  have hrun : (enqueueChild id 1 (.ok ()) readTables readJob (some 1) greedyChild none).toOption.bind
      (fun tables => (tables.works.get? "w2").bind fun child => Jsonb.get child.meta_ "mode")
        = some (.str "read") := by decide +kernel
  cases hcall : enqueueChild id 1 (.ok ()) readTables readJob (some 1) greedyChild none with
  | error e =>
      rw [hcall] at hrun
      cases hrun
  | ok tables =>
      rw [hcall] at hrun
      obtain ⟨_, ⟨⟩, hrun⟩ := Option.bind_eq_some_iff.1 hrun
      obtain ⟨child, hchild, hmode⟩ := Option.bind_eq_some_iff.1 hrun
      have hstep : (system id).step readTables
          (.child 1 (.ok ()) "w1" (some 1) greedyChild none) tables := ⟨readJob, rfl, hcall⟩
      have hreach := (TransitionSystem.Reachable.of_start hstart).next hstep
      exact ⟨tables, child, hreach, hchild, delegation_confined hreach, hmode⟩

end Jobs

end LingxiOS
