-- SUMMARY: Task graphs: which are accepted, and in what order.
import LingxiOS.Base.DepthFirst
import LingxiOS.Base.JsMap
import LingxiOS.Collaboration.Access

/-! # Task Graphs

`graphNodes` collects the nodes of a graph by id and lists them depth first, from sorted ids
along sorted dependencies. A repeated graph is compared with what was listed before. -/

namespace LingxiOS.Collaboration

open JsonText Stringify

/-! ## The source -/

/-- A node with the fields it may have. -/
structure GraphNode where
  id : Units
  agentId : Units
  text : Units
  dependsOn : Option (List Units)
  deriving DecidableEq

structure GraphInput where
  id : Units
  nodes : List GraphNode

namespace GraphNode

def dependencies (node : GraphNode) : List Units := node.dependsOn.getD []

/-- `ids.sort()`. -/
def sorted (ids : List Units) : List Units := ids.insertionSort (· ≤ ·)

/-- The node as it is kept. -/
def kept (node : GraphNode) : GraphNode :=
  { node with dependsOn := some (sorted node.dependencies) }

end GraphNode

/-- The nodes of a graph by their ids. -/
structure GraphNodes where
  map : JsMap Units GraphNode
  keyed : ∀ {id node}, map.get? id = some node → node.id = id

namespace GraphNodes

def empty : GraphNodes := ⟨.empty, by simp [JsMap.get?, JsMap.empty]⟩

def put (nodes : GraphNodes) (node : GraphNode) : GraphNodes where
  map := nodes.map.set node.id node.kept
  keyed {id other} h := by
    rw [JsMap.get?_set] at h
    split at h
    · rename_i hid
      cases h
      exact hid.symm
    · exact nodes.keyed h

def add (nodes : GraphNodes) (node : GraphNode) : Except Failure GraphNodes := do
  identifier node.id
  identifier node.agentId
  require (!(nodes.map.has node.id || isBlank node.text || decide (100000 < node.text.length)
      || node.dependsOn.any fun ids => decide (64 < ids.length) || !decide ids.Nodup))
    (.error "invalid or duplicate graph node")
  forM node.dependencies identifier
  pure (nodes.put node)

def graph (nodes : GraphNodes) : DepthFirst.Graph Units GraphNode where
  find id := nodes.map.get? id
  key := GraphNode.id
  next := GraphNode.dependencies
  key_of_find := nodes.keyed

end GraphNodes

/-- What a search throws; it never goes too deep. -/
def graphFailure : DepthFirst.Fault → Failure
  | .missing => .error "graph dependency is missing"
  | .cyclic => .error "cyclic graph dependency"
  | .exhausted => .error "Maximum call stack size exceeded"

def graphNodes (input : GraphInput) : Except Failure (List GraphNode) := do
  identifier input.id
  require (decide (0 < input.nodes.length) && decide (input.nodes.length ≤ 64))
    (.error "graph requires 1-64 nodes")
  let nodes ← input.nodes.foldlM GraphNodes.add .empty
  let search ← (DepthFirst.search nodes.graph
    (GraphNode.sorted nodes.map.keys)).mapError graphFailure
  pure search.ordered

/-! ## Valid graphs -/

/-- The fields of a node pass their checks. -/
structure GraphNode.Valid (node : GraphNode) : Prop where
  id : identifier node.id = .ok ()
  agentId : identifier node.agentId = .ok ()
  text : isBlank node.text = false ∧ node.text.length ≤ 100000
  dependsOn : ∀ ids ∈ node.dependsOn,
    ids.length ≤ 64 ∧ ids.Nodup ∧ ∀ id ∈ ids, identifier id = .ok ()

structure GraphInput.Valid (input : GraphInput) : Prop where
  id : identifier input.id = .ok ()
  nonempty : 0 < input.nodes.length
  bounded : input.nodes.length ≤ 64
  nodes : ∀ node ∈ input.nodes, node.Valid

instance (node : GraphNode) : Decidable node.Valid :=
  decidable_of_iff (identifier node.id = .ok () ∧ identifier node.agentId = .ok ()
      ∧ (isBlank node.text = false ∧ node.text.length ≤ 100000)
      ∧ ∀ ids ∈ node.dependsOn.toList, ids.length ≤ 64 ∧ ids.Nodup
        ∧ ∀ id ∈ ids, identifier id = .ok ())
    ⟨fun ⟨hid, hagent, htext, hdepends⟩ => ⟨hid, hagent, htext, fun ids hids =>
        hdepends ids (Option.mem_toList.2 hids)⟩,
      fun h => ⟨h.id, h.agentId, h.text, fun ids hids =>
        h.dependsOn ids (Option.mem_toList.1 hids)⟩⟩

/-- A node of the graph depends on an id. -/
def DependsOn (input : GraphInput) (id dependency : Units) : Prop :=
  ∃ node ∈ input.nodes, node.id = id ∧ dependency ∈ node.dependencies

/-- The ids are distinct, each dependency is one of them, and none depends on itself in the end. -/
structure GraphInput.Graph (input : GraphInput) : Prop where
  distinct : (input.nodes.map GraphNode.id).Nodup
  closed : ∀ id dependency, DependsOn input id dependency →
    dependency ∈ input.nodes.map GraphNode.id
  acyclic : ∀ id, ¬ Relation.TransGen (DependsOn input) id id

/-- The same node with its dependencies in some order. -/
structure GraphNode.Reordered (node other : GraphNode) : Prop where
  id : other.id = node.id
  agentId : other.agentId = node.agentId
  text : other.text = node.text
  dependsOn : Option.Rel List.Perm node.dependsOn other.dependsOn

/-- The same graph with its nodes and their dependencies in some order. -/
structure GraphInput.Reordered (input other : GraphInput) : Prop where
  id : other.id = input.id
  nodes : ∃ nodes, List.Forall₂ GraphNode.Reordered input.nodes nodes ∧ nodes.Perm other.nodes

/-! ## Collecting the nodes -/

theorem forM_eq_ok {ids : List Units} (h : ∀ id ∈ ids, identifier id = .ok ()) :
    forM ids identifier = (.ok () : Except Failure Unit) := by
  induction ids with
  | nil => rfl
  | cons id ids ih =>
      obtain ⟨hid, hids⟩ := List.forall_mem_cons.1 h
      rw [List.forM_cons, hid]
      exact ih hids

namespace GraphNodes

variable {nodes : GraphNodes} {node : GraphNode} {list : List GraphNode}

theorem mem_keys_iff {id : Units} : id ∈ nodes.map.keys ↔ nodes.map.has id = true := by
  rw [JsMap.has, Option.isSome_iff_ne_none, Ne, JsMap.get?_eq_none_iff, not_not]
  rfl

theorem keys_put (h : nodes.map.has node.id = false) :
    (nodes.put node).map.keys = nodes.map.keys ++ [node.id] := by
  have hnone : nodes.map.get? node.id = none := by simpa [JsMap.has] using h
  simp [put, JsMap.keys, JsMap.entries_set_of_none node.kept hnone]

theorem add_eq (h : node.Valid) : nodes.add node
    = if nodes.map.has node.id then .error (.error "invalid or duplicate graph node")
      else .ok (nodes.put node) := by
  have hdepends : (node.dependsOn.any fun ids => decide (64 < ids.length) || !decide ids.Nodup)
      = false := by
    cases hids : node.dependsOn with
    | none => rfl
    | some ids =>
        obtain ⟨hlength, hnodup, -⟩ := h.dependsOn ids hids
        simp [hnodup, hlength]
  have hforM : forM node.dependencies identifier = (.ok () : Except Failure Unit) := by
    apply forM_eq_ok
    unfold GraphNode.dependencies
    cases hids : node.dependsOn with
    | none => simp
    | some ids => exact (h.dependsOn ids hids).2.2
  have htext : ¬ 100000 < node.text.length := Nat.not_lt.2 h.text.2
  unfold add
  rw [h.id, h.agentId, hforM]
  cases hhas : nodes.map.has node.id with
  | true => simp [require, hdepends, h.text.1, htext]
  | false => simp [require, hdepends, h.text.1, htext]

/-- Valid nodes are collected unless an id is there twice. -/
theorem foldlM_add (h : ∀ node ∈ list, node.Valid) : list.foldlM add nodes
    = if (nodes.map.keys ++ list.map GraphNode.id).Nodup then .ok (list.foldl put nodes)
      else .error (.error "invalid or duplicate graph node") := by
  induction list generalizing nodes with
  | nil =>
      rw [List.map_nil, List.append_nil, if_pos (show nodes.map.keys.Nodup from nodes.map.nodup)]
      rfl
  | cons node list ih =>
      obtain ⟨hnode, hlist⟩ := List.forall_mem_cons.1 h
      rw [List.foldlM_cons, add_eq hnode]
      cases hhas : nodes.map.has node.id with
      | true =>
          have htwice : ¬ (nodes.map.keys ++ (node :: list).map GraphNode.id).Nodup := fun hnodup =>
            (List.nodup_append'.1 hnodup).2.2 (mem_keys_iff.2 hhas) List.mem_cons_self
          rw [if_neg htwice]
          rfl
      | false =>
          have hkeys : (nodes.put node).map.keys ++ list.map GraphNode.id
              = nodes.map.keys ++ (node :: list).map GraphNode.id := by
            rw [keys_put hhas]
            simp
          rw [← hkeys]
          exact ih hlist

/-- What is collected is the nodes, each under its id. -/
theorem get?_foldl_put (h : (nodes.map.keys ++ list.map GraphNode.id).Nodup) {id : Units}
    {found : GraphNode} : (list.foldl put nodes).map.get? id = some found
      ↔ nodes.map.get? id = some found ∨ ∃ node ∈ list, node.id = id ∧ node.kept = found := by
  induction list generalizing nodes with
  | nil => simp
  | cons node list ih =>
      have hhas : nodes.map.has node.id = false := by
        rw [← Bool.not_eq_true, ← mem_keys_iff]
        exact fun hmem => (List.nodup_append'.1 h).2.2 hmem List.mem_cons_self
      have hrest : ((nodes.put node).map.keys ++ list.map GraphNode.id).Nodup := by
        rw [keys_put hhas]
        simpa using h
      have hnone : nodes.map.get? node.id = none := by simpa [JsMap.has] using hhas
      rw [List.foldl_cons, ih hrest]
      simp only [put, JsMap.get?_set]
      by_cases hid : id = node.id
      · subst hid
        simp [hnone]
      · simp [hid, Ne.symm hid]

theorem keys_foldl_put (h : (nodes.map.keys ++ list.map GraphNode.id).Nodup) :
    (list.foldl put nodes).map.keys = nodes.map.keys ++ list.map GraphNode.id := by
  induction list generalizing nodes with
  | nil => simp
  | cons node list ih =>
      have hhas : nodes.map.has node.id = false := by
        rw [← Bool.not_eq_true, ← mem_keys_iff]
        exact fun hmem => (List.nodup_append'.1 h).2.2 hmem List.mem_cons_self
      have hkeys : (nodes.put node).map.keys ++ list.map GraphNode.id
          = nodes.map.keys ++ (node :: list).map GraphNode.id := by
        rw [keys_put hhas]
        simp
      rw [List.foldl_cons, ih (hkeys ▸ h), hkeys]

theorem graph_eq {other : GraphNodes} (h : ∀ id, nodes.map.get? id = other.map.get? id) :
    nodes.graph = other.graph := by
  have hfind : (fun id => nodes.map.get? id) = fun id => other.map.get? id := funext h
  unfold graph
  congr 1

end GraphNodes

/-! ## The search -/

section Search

variable {input other : GraphInput}

/-- The nodes of an input by their ids. -/
def collected (input : GraphInput) : GraphNodes := input.nodes.foldl GraphNodes.put .empty

theorem keys_collected (h : (input.nodes.map GraphNode.id).Nodup) :
    (collected input).map.keys = input.nodes.map GraphNode.id :=
  @GraphNodes.keys_foldl_put .empty input.nodes h

theorem get?_collected (h : (input.nodes.map GraphNode.id).Nodup) {id : Units}
    {found : GraphNode} : (collected input).map.get? id = some found
      ↔ ∃ node ∈ input.nodes, node.id = id ∧ node.kept = found := by
  have hget := @GraphNodes.get?_foldl_put .empty input.nodes h id found
  have hnone : GraphNodes.empty.map.get? id = none := rfl
  rw [hnone] at hget
  exact hget.trans (by simp)

theorem sorted_perm (ids : List Units) : (GraphNode.sorted ids).Perm ids :=
  List.perm_insertionSort _ ids

theorem dependencies_kept (node : GraphNode) :
    node.kept.dependencies.Perm node.dependencies :=
  sorted_perm node.dependencies

theorem graphNodes_eq (h : input.Valid) : graphNodes input
    = if (input.nodes.map GraphNode.id).Nodup then
        ((DepthFirst.search (collected input).graph
          (GraphNode.sorted (collected input).map.keys)).mapError graphFailure).map
            DepthFirst.Search.ordered
      else .error (.error "invalid or duplicate graph node") := by
  have hadd := @GraphNodes.foldlM_add .empty input.nodes h.nodes
  have hbound : (decide (0 < input.nodes.length) && decide (input.nodes.length ≤ 64)) = true := by
    simp [h.nonempty, h.bounded]
  unfold graphNodes
  rw [h.id, hbound, hadd]
  by_cases hnodup : (input.nodes.map GraphNode.id).Nodup
  · rw [if_pos hnodup, if_pos (show (GraphNodes.empty.map.keys ++ _).Nodup from hnodup)]
    rfl
  · rw [if_neg hnodup, if_neg (show ¬ (GraphNodes.empty.map.keys ++ _).Nodup from hnodup)]
    rfl

/-- What the search asks of the keys. -/
theorem isSome_find_iff {id : Units} : ((collected input).graph.find id).isSome
    ↔ id ∈ GraphNode.sorted (collected input).map.keys := by
  rw [(sorted_perm _).mem_iff, GraphNodes.mem_keys_iff]
  rfl

theorem edge_iff (h : (input.nodes.map GraphNode.id).Nodup) {id dependency : Units} :
    DepthFirst.Edge (collected input).graph id dependency ↔ DependsOn input id dependency := by
  constructor
  · rintro ⟨found, hfound, hmem⟩
    obtain ⟨node, hnode, hid, rfl⟩ := (get?_collected h).1 hfound
    exact ⟨node, hnode, hid, (dependencies_kept node).mem_iff.1 hmem⟩
  · rintro ⟨node, hnode, hid, hmem⟩
    exact ⟨node.kept, (get?_collected h).2 ⟨node, hnode, hid, rfl⟩,
      (dependencies_kept node).mem_iff.2 hmem⟩

theorem graph_iff (h : (input.nodes.map GraphNode.id).Nodup) :
    DepthFirst.Closed (collected input).graph ∧ DepthFirst.Acyclic (collected input).graph
      ↔ input.Graph := by
  have hedge : DepthFirst.Edge (collected input).graph = DependsOn input := by
    funext id dependency
    exact propext (edge_iff h)
  have hfind : ∀ id, ((collected input).graph.find id).isSome
      ↔ id ∈ input.nodes.map GraphNode.id := by
    intro id
    rw [isSome_find_iff, (sorted_perm _).mem_iff, keys_collected h]
  constructor
  · rintro ⟨hclosed, hacyclic⟩
    rw [DepthFirst.Acyclic, hedge] at hacyclic
    exact ⟨h, fun id dependency hdepends => (hfind dependency).1
      (hclosed id dependency ((edge_iff h).2 hdepends)), hacyclic⟩
  · intro hgraph
    refine ⟨fun id dependency hdepends => (hfind dependency).2
      (hgraph.closed id dependency ((edge_iff h).1 hdepends)), ?_⟩
    rw [DepthFirst.Acyclic, hedge]
    exact hgraph.acyclic

theorem nodup_sorted_keys (nodes : GraphNodes) : (GraphNode.sorted nodes.map.keys).Nodup :=
  (sorted_perm _).nodup_iff.2 nodes.map.nodup

theorem graphNodes_ok_iff (h : input.Valid) :
    (∃ order, graphNodes input = .ok order) ↔ input.Graph := by
  rw [graphNodes_eq h]
  by_cases hnodup : (input.nodes.map GraphNode.id).Nodup
  · rw [if_pos hnodup, ← graph_iff hnodup,
      ← DepthFirst.search_ok_iff isSome_find_iff (nodup_sorted_keys _)]
    constructor
    · rintro ⟨order, horder⟩
      obtain ⟨t, ht, -⟩ := Except.map_eq_ok_iff.1 horder
      exact ⟨t, Except.mapError_eq_ok_iff.1 ht⟩
    · rintro ⟨t, ht⟩
      exact ⟨t.ordered, by rw [ht]; rfl⟩
  · rw [if_neg hnodup]
    constructor
    · rintro ⟨order, horder⟩
      cases horder
    · intro hgraph
      exact absurd hgraph.distinct hnodup

/-- The nodes are listed once each, after their dependencies. -/
structure Ordered (input : GraphInput) (order : List GraphNode) : Prop where
  nodes : order.Perm (input.nodes.map GraphNode.kept)
  after : ∀ before node rest, order = before ++ node :: rest →
    ∀ id ∈ node.dependencies, id ∈ before.map GraphNode.id

theorem graphNodes_ordered (h : input.Valid) {order : List GraphNode}
    (horder : graphNodes input = .ok order) : Ordered input order := by
  have hnodup := ((graphNodes_ok_iff h).1 ⟨order, horder⟩).distinct
  rw [graphNodes_eq h, if_pos hnodup] at horder
  obtain ⟨t, ht, rfl⟩ := Except.map_eq_ok_iff.1 horder
  have hlists := DepthFirst.search_sound isSome_find_iff (nodup_sorted_keys _)
    (Except.mapError_eq_ok_iff.1 ht)
  have hids : (t.ordered.map GraphNode.id).Perm (input.nodes.map GraphNode.id) := by
    refine hlists.keys.trans ((sorted_perm _).trans ?_)
    rw [keys_collected hnodup]
  refine ⟨?_, hlists.ordered⟩
  refine (List.perm_ext_iff_of_nodup ?_ ?_).2 fun node => ⟨fun hnode => ?_, fun hnode => ?_⟩
  · exact (hids.nodup_iff.2 hnodup).of_map
  · exact List.Nodup.of_map GraphNode.id (by simpa [Function.comp_def, GraphNode.kept] using hnodup)
  · obtain ⟨source, hsource, -, rfl⟩ := (get?_collected hnodup).1 (hlists.known node hnode)
    exact List.mem_map_of_mem hsource
  · obtain ⟨source, hsource, rfl⟩ := List.mem_map.1 hnode
    obtain ⟨found, hfound, hid⟩ := List.mem_map.1
      (hids.mem_iff.2 (List.mem_map_of_mem hsource))
    have hknown := hlists.known found hfound
    have hkept := (get?_collected hnodup).2 ⟨source, hsource, rfl, rfl⟩
    rw [show (collected input).graph.key found = source.id from hid] at hknown
    exact Option.some.inj (hkept.symm.trans hknown) ▸ hfound

/-! ## The order of the input -/

theorem sorted_eq_of_perm {ids others : List Units} (h : ids.Perm others) :
    GraphNode.sorted ids = GraphNode.sorted others :=
  List.Perm.eq_of_pairwise' (List.pairwise_insertionSort _ ids)
    (List.pairwise_insertionSort _ others)
    ((sorted_perm ids).trans (h.trans (sorted_perm others).symm))

theorem GraphNode.Reordered.dependencies {node again : GraphNode} (h : node.Reordered again) :
    node.dependencies.Perm again.dependencies := by
  obtain ⟨-, -, -, hdepends⟩ := h
  unfold GraphNode.dependencies
  revert hdepends
  cases node.dependsOn with
  | none =>
      cases again.dependsOn with
      | none => exact fun _ => .refl _
      | some others => rintro ⟨⟩
  | some ids =>
      cases again.dependsOn with
      | none => rintro ⟨⟩
      | some others =>
          rintro (⟨hperm⟩ | _)
          exact hperm

theorem GraphNode.Reordered.kept {node again : GraphNode} (h : node.Reordered again) :
    again.kept = node.kept := by
  have hsorted := sorted_eq_of_perm h.dependencies
  unfold GraphNode.kept
  rw [← hsorted]
  obtain ⟨id, agentId, text, dependsOn⟩ := node
  obtain ⟨id', agentId', text', dependsOn'⟩ := again
  obtain ⟨rfl, rfl, rfl, -⟩ := h
  rfl

theorem GraphNode.Reordered.valid {node again : GraphNode} (h : node.Reordered again)
    (hv : node.Valid) : again.Valid := by
  obtain ⟨hid, hagent, htext, hdepends⟩ := h
  refine ⟨hid ▸ hv.id, hagent ▸ hv.agentId, htext ▸ hv.text, fun others hothers => ?_⟩
  rw [hothers] at hdepends
  cases hids : node.dependsOn with
  | none =>
      rw [hids] at hdepends
      cases hdepends
  | some ids =>
      rw [hids] at hdepends
      obtain ⟨hlength, hnodup, hall⟩ := hv.dependsOn ids hids
      cases hdepends with
      | some hperm =>
          exact ⟨hperm.length_eq ▸ hlength, hperm.nodup_iff.1 hnodup,
            fun id hid => hall id (hperm.mem_iff.2 hid)⟩

theorem kept_of_forall₂ {list again : List GraphNode}
    (h : List.Forall₂ GraphNode.Reordered list again) :
    again.map GraphNode.kept = list.map GraphNode.kept := by
  induction h with
  | nil => rfl
  | cons hnode _ ih => rw [List.map_cons, List.map_cons, hnode.kept, ih]

theorem valid_of_forall₂ {list again : List GraphNode}
    (h : List.Forall₂ GraphNode.Reordered list again) (hv : ∀ node ∈ list, node.Valid) :
    ∀ node ∈ again, node.Valid := by
  induction h with
  | nil => simp
  | cons hnode _ ih =>
      obtain ⟨hfirst, hrest⟩ := List.forall_mem_cons.1 hv
      exact List.forall_mem_cons.2 ⟨hnode.valid hfirst, ih hrest⟩

/-- What is kept of the nodes is the same, in some order. -/
theorem GraphInput.Reordered.kept (h : input.Reordered other) :
    (other.nodes.map GraphNode.kept).Perm (input.nodes.map GraphNode.kept) := by
  obtain ⟨-, nodes, hnodes, hperm⟩ := h
  rw [← kept_of_forall₂ hnodes]
  exact hperm.symm.map _

theorem GraphInput.Reordered.ids (h : input.Reordered other) :
    (other.nodes.map GraphNode.id).Perm (input.nodes.map GraphNode.id) := by
  have hids := h.kept.map GraphNode.id
  rwa [List.map_map, List.map_map] at hids

theorem GraphInput.Reordered.valid (h : input.Reordered other) (hv : input.Valid) :
    other.Valid := by
  obtain ⟨hid, nodes, hnodes, hperm⟩ := h
  have hlength : other.nodes.length = input.nodes.length :=
    hperm.length_eq.symm.trans hnodes.length_eq.symm
  exact ⟨hid ▸ hv.id, hlength ▸ hv.nonempty, hlength ▸ hv.bounded, fun node hnode =>
    valid_of_forall₂ hnodes hv.nodes node (hperm.mem_iff.2 hnode)⟩

/-- Neither the order of the nodes nor that of their dependencies is in the result. -/
theorem graphNodes_reordered (hv : input.Valid) (h : input.Reordered other) :
    graphNodes other = graphNodes input := by
  rw [graphNodes_eq hv, graphNodes_eq (h.valid hv)]
  by_cases hnodup : (input.nodes.map GraphNode.id).Nodup
  · have hnodup' := h.ids.nodup_iff.2 hnodup
    have hgraph : (collected other).graph = (collected input).graph := by
      refine GraphNodes.graph_eq fun id => Option.ext fun found => ?_
      rw [get?_collected hnodup, get?_collected hnodup']
      have hkept := h.kept.mem_iff (a := found)
      simp only [List.mem_map] at hkept
      constructor
      · rintro ⟨node, hnode, hid, hfound⟩
        obtain ⟨source, hsource, hsame⟩ := hkept.1 ⟨node, hnode, hfound⟩
        exact ⟨source, hsource, (congrArg GraphNode.id (hsame.trans hfound.symm)).trans hid, hsame⟩
      · rintro ⟨node, hnode, hid, hfound⟩
        obtain ⟨source, hsource, hsame⟩ := hkept.2 ⟨node, hnode, hfound⟩
        exact ⟨source, hsource, (congrArg GraphNode.id (hsame.trans hfound.symm)).trans hid, hsame⟩
    rw [if_pos hnodup, if_pos hnodup', hgraph, keys_collected hnodup, keys_collected hnodup',
      sorted_eq_of_perm h.ids]
  · rw [if_neg hnodup, if_neg fun hnodup' => hnodup (h.ids.nodup_iff.1 hnodup')]

/-- What `graphNodes` makes of a graph. -/
structure Accepts (input : GraphInput) : Prop where
  succeeds : (∃ order, graphNodes input = .ok order) ↔ input.Graph
  ordered : ∀ order, graphNodes input = .ok order → Ordered input order
  reordered : ∀ other, input.Reordered other → graphNodes other = graphNodes input

/-- Exactly the valid task graphs are accepted, in an order of their own. -/
theorem graphNodes_accepts (input : GraphInput) (h : input.Valid) : Accepts input :=
  ⟨graphNodes_ok_iff h, fun _ => graphNodes_ordered h, fun _ => graphNodes_reordered h⟩

end Search

private def draftGraph : GraphInput where
  id := literal "report"
  nodes := [⟨literal "write", literal "agent", literal "Write it.",
      some [literal "read", literal "ask"]⟩,
    ⟨literal "read", literal "agent", literal "Read it.", some [literal "ask"]⟩,
    ⟨literal "ask", literal "agent", literal "Ask.", none⟩]

theorem graphNodes_accepts_draft :
    (graphNodes draftGraph).map (·.map GraphNode.id)
        = .ok [literal "ask", literal "read", literal "write"]
      ∧ Accepts draftGraph := by
  have hvalid : identifier draftGraph.id = .ok () ∧ ∀ node ∈ draftGraph.nodes, node.Valid := by
    decide +kernel
  exact ⟨by decide +kernel, graphNodes_accepts draftGraph
    ⟨hvalid.1, by decide, by decide, hvalid.2⟩⟩

end LingxiOS.Collaboration
