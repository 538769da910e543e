-- SUMMARY: Searching an ordered forest for the descendants of a node by repeated passes.
import Mathlib.Data.List.Nodup
import Mathlib.Data.List.Pairwise

/-! # Ordered Forests

The nodes of a forest are listed in the order they were created, and each names
its parent by key. A pass goes through the list once and adds every eligible
node whose parent was found before; a search repeats the pass until it adds
nothing. Where parents stand before their children one pass is enough: whatever
a pass returns is closed under going to a child. -/

namespace Forest

variable {α κ : Type*} [DecidableEq κ]

/-- What a search looks at: a node's key, the key of its parent, and whether the
    search may take the node. -/
structure View (α κ : Type*) where
  key : α → κ
  parent : α → κ
  eligible : α → Bool

namespace View

variable (V : View α κ)

/-- Take a node whose parent was found. -/
def visit (found : List κ) (node : α) : List κ :=
  if V.eligible node ∧ V.parent node ∈ found ∧ V.key node ∉ found then found ++ [V.key node]
  else found

def pass (nodes : List α) (found : List κ) : List κ := nodes.foldl V.visit found

/-- At most `depth` passes, and none after one that added nothing. -/
def search (nodes : List α) : Nat → List κ → List κ
  | 0, found => found
  | depth + 1, found =>
      let next := V.pass nodes found
      if next.length = found.length then found else search nodes depth next

end View

/-- No node is linked to itself or to one that is listed after it. -/
structure Ordered (link : α → α → Prop) (nodes : List α) : Prop where
  parentsFirst : nodes.Pairwise (fun a b => ¬ link a b)
  irrefl : ∀ a ∈ nodes, ¬ link a a

/-- With a node, its children are found. -/
def Closed (key : α → κ) (link : α → α → Prop) (nodes : List α) (found : List κ) : Prop :=
  ∀ m ∈ nodes, ∀ n ∈ nodes, link n m → key m ∈ found → key n ∈ found

omit [DecidableEq κ] in
theorem Ordered.before {link : α → α → Prop} {nodes l₁ l₂ : List α} {m n : α}
    (h : Ordered link nodes) (hsplit : nodes = l₁ ++ n :: l₂) (hm : m ∈ nodes)
    (hlink : link n m) : m ∈ l₁ := by
  subst hsplit
  have hn : n ∈ l₁ ++ n :: l₂ := by simp
  have hlater : ∀ b ∈ l₂, ¬ link n b :=
    (List.pairwise_cons.1 (List.pairwise_append.1 h.parentsFirst).2.1).1
  rcases List.mem_append.1 hm with hm | hm
  · exact hm
  · rcases List.mem_cons.1 hm with rfl | hm
    · exact absurd hlink (h.irrefl m hn)
    · exact absurd hlink (hlater m hm)

omit [DecidableEq κ] in
/-- A new node goes last, when nothing listed is linked to it. -/
theorem Ordered.concat {link : α → α → Prop} {nodes : List α} {n : α} (h : Ordered link nodes)
    (hn : ∀ m ∈ nodes, ¬ link m n) (hself : ¬ link n n) : Ordered link (nodes ++ [n]) := by
  constructor
  · rw [List.pairwise_append]
    refine ⟨h.parentsFirst, List.pairwise_singleton _ _, ?_⟩
    intro a ha b hb
    rw [List.mem_singleton.1 hb]
    exact hn a ha
  · intro a ha
    rcases List.mem_append.1 ha with ha | ha
    · exact h.irrefl a ha
    · rw [List.mem_singleton.1 ha]
      exact hself

/-- A child has a later place than its parent. -/
theorem Ordered.idxOf_lt {link : α → α → Prop} {nodes : List α} {key : α → κ} {m n : α}
    (h : Ordered link nodes) (hnodup : (nodes.map key).Nodup) (hm : m ∈ nodes) (hn : n ∈ nodes)
    (hlink : link n m) : (nodes.map key).idxOf (key m) < (nodes.map key).idxOf (key n) := by
  obtain ⟨l₁, l₂, hsplit⟩ := List.append_of_mem hn
  have hbefore : key m ∈ l₁.map key := List.mem_map_of_mem (h.before hsplit hm hlink)
  rw [hsplit, List.map_append, List.nodup_append] at hnodup
  have hafter : key n ∉ l₁.map key :=
    fun hmem => hnodup.2.2 _ hmem _ (by simp) rfl
  rw [hsplit, List.map_append, List.idxOf_append_of_mem hbefore,
    List.idxOf_append_of_notMem hafter]
  exact Nat.lt_of_lt_of_le (List.idxOf_lt_length_iff.2 hbefore) (Nat.le_add_right _ _)

/-! ## One pass -/

section

variable {V : View α κ} {link : α → α → Prop} {nodes : List α} {found : List κ}

theorem prefix_visit (found : List κ) (node : α) : found <+: V.visit found node := by
  unfold View.visit
  split
  · exact List.prefix_append _ _
  · exact List.prefix_refl _

theorem prefix_pass (nodes : List α) (found : List κ) : found <+: V.pass nodes found := by
  induction nodes generalizing found with
  | nil => exact List.prefix_refl found
  | cons node nodes ih => exact (prefix_visit found node).trans (ih _)

/-- A pass only adds. -/
theorem subset_pass (nodes : List α) (found : List κ) : found ⊆ V.pass nodes found :=
  (prefix_pass nodes found).subset

theorem pass_eq_of_length (h : (V.pass nodes found).length = found.length) :
    V.pass nodes found = found :=
  ((prefix_pass nodes found).eq_of_length h.symm).symm

/-- A pass finds nothing but what it started from and keys of eligible nodes. -/
theorem of_mem_pass {k : κ} (h : k ∈ V.pass nodes found) :
    k ∈ found ∨ ∃ n ∈ nodes, V.key n = k ∧ V.eligible n = true := by
  induction nodes generalizing found with
  | nil => exact .inl h
  | cons node nodes ih =>
      rcases ih h with hvisit | ⟨n, hn, hkey⟩
      · unfold View.visit at hvisit
        split at hvisit
        · rename_i hadded
          rcases List.mem_append.1 hvisit with hfound | hself
          · exact .inl hfound
          · exact .inr ⟨node, by simp, (List.mem_singleton.1 hself).symm, hadded.1⟩
        · exact .inl hvisit
      · exact .inr ⟨n, by simp [hn], hkey⟩

/-- What a search may rely on: keys are unique, a link is a parent key, and the
    children of eligible nodes are eligible. -/
structure Sound (V : View α κ) (link : α → α → Prop) (nodes : List α) : Prop where
  ordered : Ordered link nodes
  nodup : (nodes.map V.key).Nodup
  parent : ∀ {n m}, link n m → V.parent n = V.key m
  eligible : ∀ {n m}, link n m → V.eligible m = true → V.eligible n = true

/-- Every node found is eligible. -/
def Eligible (V : View α κ) (nodes : List α) (found : List κ) : Prop :=
  ∀ n ∈ nodes, V.key n ∈ found → V.eligible n = true

omit [DecidableEq κ] in
theorem eq_of_key_eq (hnodup : (nodes.map V.key).Nodup) {m n : α} (hm : m ∈ nodes)
    (hn : n ∈ nodes) (hkey : V.key m = V.key n) : m = n :=
  List.inj_on_of_nodup_map hnodup hm hn hkey

theorem Eligible.pass (h : Eligible V nodes found) (hnodup : (nodes.map V.key).Nodup)
    {l : List α} (hl : l ⊆ nodes) : Eligible V nodes (V.pass l found) := by
  intro n hn hmem
  rcases of_mem_pass hmem with hfound | ⟨m, hm, hkey, heligible⟩
  · exact h n hn hfound
  · rwa [← eq_of_key_eq hnodup (hl hm) hn hkey]

/-- Parents come first, so a pass that finds a node has found it when it comes
    to the children. -/
theorem closed_pass (hsound : Sound V link nodes) (hfound : Eligible V nodes found) :
    Closed V.key link nodes (V.pass nodes found) := by
  intro m hm n hn hlink hmem
  obtain ⟨l₁, l₂, hsplit⟩ := List.append_of_mem hn
  have hbefore : m ∈ l₁ := hsound.ordered.before hsplit hm hlink
  have hfold : V.pass nodes found = V.pass l₂ (V.visit (V.pass l₁ found) n) := by
    simp [hsplit, View.pass]
  have hparent : V.key m ∈ V.pass l₁ found := by
    have hrest : V.pass nodes found = V.pass (n :: l₂) (V.pass l₁ found) := by
      simp [hsplit, View.pass]
    rw [hrest] at hmem
    rcases of_mem_pass hmem with hearlier | ⟨n', hn', hkey, -⟩
    · exact hearlier
    · -- Later nodes have other keys.
      have hnodup := hsound.nodup
      rw [hsplit, List.map_append, List.nodup_append] at hnodup
      exact absurd hkey.symm
        (hnodup.2.2 _ (List.mem_map_of_mem hbefore) _ (List.mem_map_of_mem hn'))
  have heligible : V.eligible m = true := by
    have hl₁ : l₁ ⊆ nodes := by
      rw [hsplit]
      exact List.subset_append_left _ _
    exact hfound.pass hsound.nodup hl₁ m hm hparent
  rw [hfold]
  apply subset_pass
  unfold View.visit
  by_cases hknown : V.key n ∈ V.pass l₁ found
  · simp [hknown]
  · simp [hsound.eligible hlink heligible, hsound.parent hlink, hparent, hknown]

/-! ## The search -/

/-- One pass or more, and what was found is closed. -/
theorem closed_search (hsound : Sound V link nodes) (hfound : Eligible V nodes found)
    (depth : Nat) : Closed V.key link nodes (V.search nodes (depth + 1) found) := by
  induction depth generalizing found with
  | zero =>
      unfold View.search
      dsimp only
      split
      · rename_i hlength
        rw [← pass_eq_of_length hlength]
        exact closed_pass hsound hfound
      · exact closed_pass hsound hfound
  | succ depth ih =>
      unfold View.search
      dsimp only
      split
      · rename_i hlength
        rw [← pass_eq_of_length hlength]
        exact closed_pass hsound hfound
      · exact ih (hfound.pass hsound.nodup (List.Subset.refl nodes))

end

end Forest
