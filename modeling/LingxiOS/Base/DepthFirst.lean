-- SUMMARY: A depth-first search that lists nodes after their successors.
import Mathlib.Data.List.Nodup
import Mathlib.Data.List.Perm.Subperm
import LingxiOS.Base.Checks

/-! # Depth-First Search

A search visits the successors of a node before it lists the node. It fails at a key without
a node and at a key it is already visiting, and so it succeeds exactly on the graphs that
are closed and have no cycle. -/

namespace DepthFirst

/-- Nodes by key, each with the keys of its successors. -/
structure Graph (κ α : Type*) where
  find : κ → Option α
  key : α → κ
  next : α → List κ
  key_of_find : ∀ {k a}, find k = some a → key a = k

inductive Fault where
  | missing
  | cyclic
  | exhausted
  deriving DecidableEq

/-- The marks of a search, and the nodes it has listed. -/
structure Search (κ α : Type*) where
  visiting : List κ := []
  visited : List κ := []
  ordered : List α := []

variable {κ α : Type} [DecidableEq κ] {G : Graph κ α} {fuel : Nat} {s t : Search κ α} {k : κ}
  {ks keys : List κ} {fault : Fault}

def visit (G : Graph κ α) : Nat → Search κ α → κ → Except Fault (Search κ α)
  | 0, _, _ => .error .exhausted
  | fuel + 1, s, k =>
      match G.find k with
      | none => .error .missing
      | some a =>
          if k ∈ s.visiting then .error .cyclic
          else if k ∈ s.visited then .ok s
          else do
            let t ← (G.next a).foldlM (visit G fuel) { s with visiting := k :: s.visiting }
            pure ⟨t.visiting.erase k, t.visited ++ [k], t.ordered ++ [a]⟩

/-- Visit every key, going no deeper than there are keys. -/
def search (G : Graph κ α) (keys : List κ) : Except Fault (Search κ α) :=
  keys.foldlM (visit G (keys.length + 1)) {}

/-- The node of one key has the other as a successor. -/
def Edge (G : Graph κ α) (k d : κ) : Prop := ∃ a, G.find k = some a ∧ d ∈ G.next a

/-- Every successor is the key of a node. -/
def Closed (G : Graph κ α) : Prop := ∀ k d, Edge G k d → (G.find d).isSome

def Acyclic (G : Graph κ α) : Prop := ∀ k, ¬ Relation.TransGen (Edge G) k k

/-! ## Loops -/

section Loops

variable {σ β ε : Type} {f : σ → β → Except ε σ} {a b : σ}

theorem foldlM_cons_eq_ok {x : β} {xs : List β} (h : (x :: xs).foldlM f a = .ok b) :
    ∃ c, f a x = .ok c ∧ xs.foldlM f c = .ok b := by
  rw [List.foldlM_cons] at h
  exact Except.bind_ok h

/-- A loop that fails does so at one of its items. -/
theorem foldlM_eq_error {xs : List β} {e : ε} (h : xs.foldlM f a = .error e) :
    ∃ before x after c, xs = before ++ x :: after ∧ before.foldlM f a = .ok c
      ∧ f c x = .error e := by
  induction xs generalizing a with
  | nil => cases h
  | cons x xs ih =>
      rw [List.foldlM_cons] at h
      cases hx : f a x with
      | error e' =>
          rw [hx] at h
          cases h
          exact ⟨[], x, xs, a, rfl, rfl, hx⟩
      | ok c =>
          rw [hx] at h
          obtain ⟨before, y, after, d, rfl, hbefore, hy⟩ := ih h
          refine ⟨x :: before, y, after, d, rfl, ?_, hy⟩
          rw [List.foldlM_cons, hx]
          exact hbefore

end Loops

/-! ## What a visit does -/

/-- A visit finds its node done, or lists it after its successors. -/
theorem visit_eq_ok (h : visit G fuel s k = .ok t) :
    ∃ n a, fuel = n + 1 ∧ G.find k = some a ∧ k ∉ s.visiting
      ∧ (k ∈ s.visited ∧ t = s
        ∨ k ∉ s.visited ∧ ∃ u, (G.next a).foldlM (visit G n) { s with visiting := k :: s.visiting }
            = .ok u ∧ t = ⟨u.visiting.erase k, u.visited ++ [k], u.ordered ++ [a]⟩) := by
  cases fuel with
  | zero => cases h
  | succ n =>
      rw [visit] at h
      split at h
      · cases h
      · rename_i a ha
        split at h
        · cases h
        · rename_i hvisiting
          refine ⟨n, a, rfl, ha, hvisiting, ?_⟩
          split at h
          · rename_i hvisited
            cases h
            exact .inl ⟨hvisited, rfl⟩
          · rename_i hvisited
            obtain ⟨u, hu, hpure⟩ := Except.bind_ok h
            cases hpure
            exact .inr ⟨hvisited, u, hu, rfl⟩

/-- What holds of a search at any time. -/
structure Sound (G : Graph κ α) (s : Search κ α) : Prop where
  visited : s.visited = s.ordered.map G.key
  nodup : s.visited.Nodup
  known : ∀ a ∈ s.ordered, G.find (G.key a) = some a
  ordered : ∀ before a after, s.ordered = before ++ a :: after →
    ∀ d ∈ G.next a, d ∈ before.map G.key
  apart : ∀ k ∈ s.visiting, k ∉ s.visited

omit [DecidableEq κ] in
theorem sound_empty : Sound G ({} : Search κ α) where
  visited := rfl
  nodup := List.nodup_nil
  known := by simp
  ordered := by simp
  apart := by simp

omit [DecidableEq κ] in
/-- A node whose successors are done can be listed. -/
theorem Sound.list {a : α} {visiting : List κ} (hs : Sound G s) (ha : G.find k = some a)
    (hvisiting : s.visiting = k :: visiting) (hnodup : k ∉ visiting)
    (hnext : ∀ d ∈ G.next a, d ∈ s.visited) :
    Sound G ⟨visiting, s.visited ++ [k], s.ordered ++ [a]⟩ := by
  have hkey := G.key_of_find ha
  have hk : k ∉ s.visited := hs.apart k (by rw [hvisiting]; exact List.mem_cons_self)
  refine ⟨?_, ?_, ?_, ?_, ?_⟩
  · simp [hs.visited, hkey]
  · exact List.nodup_append'.2 ⟨hs.nodup, List.nodup_singleton k, by simpa using hk⟩
  · intro b hb
    rcases List.mem_append.1 hb with hold | hnew
    · exact hs.known b hold
    · rw [List.mem_singleton.1 hnew, hkey, ha]
  · intro before b after hsplit d hd
    rcases List.eq_nil_or_concat' after with rfl | ⟨rest, c, rfl⟩
    · obtain ⟨rfl, hlast⟩ := List.append_inj' hsplit rfl
      obtain rfl := List.singleton_inj.1 hlast
      rw [← hs.visited]
      exact hnext d hd
    · rw [← List.cons_append, ← List.append_assoc] at hsplit
      exact hs.ordered before b rest (List.append_inj' hsplit rfl).1 d hd
  · intro v hv hmem
    rcases List.mem_append.1 hmem with hold | hnew
    · exact hs.apart v (by rw [hvisiting]; exact List.mem_cons_of_mem k hv) hold
    · exact hnodup (List.mem_singleton.1 hnew ▸ hv)

/-- A search that goes on keeps its marks. -/
structure Step (G : Graph κ α) (s t : Search κ α) : Prop where
  sound : Sound G t
  visiting : t.visiting = s.visiting
  visited : s.visited ⊆ t.visited

omit [DecidableEq κ] in
theorem Step.refl (h : Sound G s) : Step G s s := ⟨h, rfl, fun _ hk => hk⟩

omit [DecidableEq κ] in
theorem Step.trans {u : Search κ α} (hst : Step G s t) (htu : Step G t u) : Step G s u :=
  ⟨htu.sound, htu.visiting.trans hst.visiting, fun _ hk => htu.visited (hst.visited hk)⟩

theorem foldlM_step
    (hvisit : ∀ {s t : Search κ α} {k}, Sound G s → visit G fuel s k = .ok t →
      Step G s t ∧ k ∈ t.visited)
    (hs : Sound G s) (h : ks.foldlM (visit G fuel) s = .ok t) :
    Step G s t ∧ ∀ k ∈ ks, k ∈ t.visited := by
  induction ks generalizing s with
  | nil =>
      cases h
      exact ⟨.refl hs, by simp⟩
  | cons k ks ih =>
      obtain ⟨u, hu, hrest⟩ := foldlM_cons_eq_ok h
      obtain ⟨hsu, hk⟩ := hvisit hs hu
      obtain ⟨hut, hks⟩ := ih hsu.sound hrest
      exact ⟨hsu.trans hut, List.forall_mem_cons.2 ⟨hut.visited hk, hks⟩⟩

theorem visit_step (hs : Sound G s) (h : visit G fuel s k = .ok t) :
    Step G s t ∧ k ∈ t.visited := by
  induction fuel generalizing s t k with
  | zero => cases h
  | succ fuel ih =>
      obtain ⟨n, a, hn, ha, hvisiting, ⟨hvisited, rfl⟩ | ⟨hvisited, u, hu, rfl⟩⟩ := visit_eq_ok h
      · exact ⟨.refl hs, hvisited⟩
      · cases hn
        have hstart : Sound G { s with visiting := k :: s.visiting } :=
          ⟨hs.visited, hs.nodup, hs.known, hs.ordered,
            List.forall_mem_cons.2 ⟨hvisited, hs.apart⟩⟩
        obtain ⟨hstep, hnext⟩ := foldlM_step ih hstart hu
        have hkept : u.visiting.erase k = s.visiting := by rw [hstep.visiting]; simp
        rw [hkept]
        exact ⟨⟨hstep.sound.list ha hstep.visiting hvisiting hnext, rfl,
          fun _ hv => List.mem_append_left _ (hstep.visited hv)⟩, by simp⟩

/-! ## Why a visit fails -/

/-- With a step left for every key it is not visiting, a visit fails at a key without a node
    that it leads to, or on a cycle. -/
theorem visit_eq_error (hkeys : ∀ {k}, (G.find k).isSome → k ∈ keys)
    (hroom : keys.length < s.visiting.length + fuel) (hnodup : s.visiting.Nodup)
    (hvisiting : ∀ v ∈ s.visiting, v ∈ keys ∧ Relation.TransGen (Edge G) v k)
    (hs : Sound G s) (h : visit G fuel s k = .error fault) :
    fault = .missing ∧ (∃ d, Relation.ReflTransGen (Edge G) k d ∧ G.find d = none)
      ∨ fault = .cyclic ∧ ∃ c, Relation.TransGen (Edge G) c c := by
  induction fuel generalizing s k with
  | zero =>
      have hle := (List.subperm_of_subset hnodup fun v hv => (hvisiting v hv).1).length_le
      omega
  | succ fuel ih =>
      rw [visit] at h
      split at h
      · rename_i hnone
        cases h
        exact .inl ⟨rfl, k, .refl, hnone⟩
      · rename_i a ha
        split at h
        · rename_i hmem
          cases h
          exact .inr ⟨rfl, k, (hvisiting k hmem).2⟩
        · rename_i hnew
          split at h
          · cases h
          · rename_i hvisited
            have hloop : (G.next a).foldlM (visit G fuel) { s with visiting := k :: s.visiting }
                = .error fault := by
              cases hloop : (G.next a).foldlM (visit G fuel)
                  { s with visiting := k :: s.visiting } with
              | error e =>
                  rw [hloop] at h
                  exact h
              | ok u =>
                  rw [hloop] at h
                  cases h
            obtain ⟨before, d, after, u, hnext, hu, hd⟩ := foldlM_eq_error hloop
            have hedge : Edge G k d := ⟨a, ha, by rw [hnext]; simp⟩
            have hstart : Sound G { s with visiting := k :: s.visiting } :=
              ⟨hs.visited, hs.nodup, hs.known, hs.ordered,
                List.forall_mem_cons.2 ⟨hvisited, hs.apart⟩⟩
            obtain ⟨hstep, -⟩ := foldlM_step visit_step hstart hu
            have hpath : ∀ v ∈ u.visiting, v ∈ keys ∧ Relation.TransGen (Edge G) v d := by
              rw [hstep.visiting]
              refine List.forall_mem_cons.2 ⟨⟨hkeys (by simp [ha]), .single hedge⟩, ?_⟩
              exact fun v hv => ⟨(hvisiting v hv).1, (hvisiting v hv).2.tail hedge⟩
            have hmore : keys.length < u.visiting.length + fuel := by
              rw [hstep.visiting, List.length_cons]
              omega
            have hdistinct : u.visiting.Nodup := by
              rw [hstep.visiting]
              exact List.nodup_cons.2 ⟨hnew, hnodup⟩
            rcases ih hmore hdistinct hpath hstep.sound hd with
              ⟨hmissing, c, hreach, hnone⟩ | hcyclic
            · exact .inl ⟨hmissing, c, hreach.head hedge, hnone⟩
            · exact .inr hcyclic

/-! ## The search -/

/-- Every node once, each after its successors. -/
structure Lists (G : Graph κ α) (keys : List κ) (order : List α) : Prop where
  keys : (order.map G.key).Perm keys
  known : ∀ a ∈ order, G.find (G.key a) = some a
  ordered : ∀ before a after, order = before ++ a :: after →
    ∀ d ∈ G.next a, d ∈ before.map G.key

theorem search_sound (hkeys : ∀ {k}, (G.find k).isSome ↔ k ∈ keys) (hnodup : keys.Nodup)
    (h : search G keys = .ok t) : Lists G keys t.ordered := by
  obtain ⟨hstep, hall⟩ := foldlM_step visit_step sound_empty h
  have hs := hstep.sound
  refine ⟨?_, hs.known, hs.ordered⟩
  rw [← hs.visited]
  refine (List.perm_ext_iff_of_nodup hs.nodup hnodup).2 fun k => ⟨fun hk => ?_, hall k⟩
  rw [hs.visited] at hk
  obtain ⟨a, ha, rfl⟩ := List.mem_map.1 hk
  exact hkeys.1 (by simp [hs.known a ha])

omit [DecidableEq κ] in
/-- A successor stands before its node. -/
theorem Lists.before {order : List α} {d : κ} (h : Lists G keys order)
    (hkeys : ∀ {k}, (G.find k).isSome ↔ k ∈ keys) (hedge : Edge G k d) :
    ∃ before after, order.map G.key = before ++ k :: after ∧ d ∈ before := by
  obtain ⟨a, ha, hd⟩ := hedge
  have hk : k ∈ order.map G.key := h.keys.mem_iff.2 (hkeys.1 (by simp [ha]))
  obtain ⟨b, hb, rfl⟩ := List.mem_map.1 hk
  obtain rfl : b = a := by simpa [h.known b hb] using ha
  obtain ⟨before, after, rfl⟩ := List.append_of_mem hb
  exact ⟨before.map G.key, after.map G.key, by simp, h.ordered before b after rfl d hd⟩

omit [DecidableEq κ] in
/-- A graph that can be listed so is closed. -/
theorem Lists.closed {order : List α} (h : Lists G keys order)
    (hkeys : ∀ {k}, (G.find k).isSome ↔ k ∈ keys) : Closed G := by
  intro k d hedge
  obtain ⟨before, after, hsplit, hd⟩ := h.before hkeys hedge
  refine hkeys.2 (h.keys.mem_iff.1 ?_)
  rw [hsplit]
  exact List.mem_append_left _ hd

/-- An edge leads back in the list. -/
theorem Lists.idxOf_lt {order : List α} {d : κ} (h : Lists G keys order)
    (hkeys : ∀ {k}, (G.find k).isSome ↔ k ∈ keys) (hnodup : keys.Nodup) (hedge : Edge G k d) :
    (order.map G.key).idxOf d < (order.map G.key).idxOf k := by
  obtain ⟨before, after, hsplit, hd⟩ := h.before hkeys hedge
  have hdistinct : (before ++ k :: after).Nodup := hsplit ▸ h.keys.nodup_iff.2 hnodup
  have hk : k ∉ before := fun hmem =>
    (List.nodup_append'.1 hdistinct).2.2 hmem List.mem_cons_self
  rw [hsplit, List.idxOf_append_of_mem hd, List.idxOf_append_of_notMem hk, List.idxOf_cons_self,
    Nat.add_zero]
  exact List.idxOf_lt_length_of_mem hd

/-- A graph that can be listed so has no cycle. -/
theorem Lists.acyclic {order : List α} (h : Lists G keys order)
    (hkeys : ∀ {k}, (G.find k).isSome ↔ k ∈ keys) (hnodup : keys.Nodup) : Acyclic G := by
  have hback : ∀ k d, Relation.TransGen (Edge G) k d →
      (order.map G.key).idxOf d < (order.map G.key).idxOf k := by
    intro k d hpath
    induction hpath with
    | single hedge => exact h.idxOf_lt hkeys hnodup hedge
    | tail _ hedge ih => exact Nat.lt_trans (h.idxOf_lt hkeys hnodup hedge) ih
  exact fun k hcycle => Nat.lt_irrefl _ (hback k k hcycle)

/-- A search that fails has met what a closed graph without cycles does not have. -/
theorem search_eq_error (hkeys : ∀ {k}, (G.find k).isSome ↔ k ∈ keys)
    (h : search G keys = .error fault) :
    fault = .missing ∧ ¬ Closed G ∨ fault = .cyclic ∧ ¬ Acyclic G := by
  obtain ⟨before, k, after, s, hsplit, hs, hk⟩ := foldlM_eq_error h
  obtain ⟨hstep, -⟩ := foldlM_step visit_step sound_empty hs
  have hfound : (G.find k).isSome := hkeys.2 (by rw [hsplit]; simp)
  rcases visit_eq_error hkeys.1 (by rw [hstep.visiting]; simp) (by rw [hstep.visiting]; simp)
    (by rw [hstep.visiting]; simp) hstep.sound hk with
    ⟨hmissing, d, hreach, hnone⟩ | ⟨hcyclic, c, hcycle⟩
  · refine .inl ⟨hmissing, fun hclosed => ?_⟩
    have hsome : (G.find d).isSome := by
      cases hreach with
      | refl => exact hfound
      | tail _ hedge => exact hclosed _ _ hedge
    rw [hnone] at hsome
    cases hsome
  · exact .inr ⟨hcyclic, fun hacyclic => hacyclic c hcycle⟩

/-- The search succeeds exactly on the closed graphs without a cycle. -/
theorem search_ok_iff (hkeys : ∀ {k}, (G.find k).isSome ↔ k ∈ keys) (hnodup : keys.Nodup) :
    (∃ t, search G keys = .ok t) ↔ Closed G ∧ Acyclic G := by
  constructor
  · rintro ⟨t, h⟩
    have hlists := search_sound hkeys hnodup h
    exact ⟨hlists.closed hkeys, hlists.acyclic hkeys hnodup⟩
  · rintro ⟨hclosed, hacyclic⟩
    cases h : search G keys with
    | ok t => exact ⟨t, rfl⟩
    | error fault =>
        rcases search_eq_error hkeys h with ⟨-, hopen⟩ | ⟨-, hcycle⟩
        · exact absurd hclosed hopen
        · exact absurd hacyclic hcycle

end DepthFirst
