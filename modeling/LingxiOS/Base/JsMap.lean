-- SUMMARY: Insertion-ordered finite maps with unique keys, after the JavaScript `Map`.
import Mathlib.Data.List.Nodup
import Mathlib.Data.List.Lookmap
import Mathlib.Algebra.BigOperators.Group.List.Basic
import Mathlib.Tactic.Abel

/-! # Insertion-Ordered Maps

A `JsMap` lists its entries in insertion order and holds each key once. Setting
a present key replaces the value where it stands, setting an absent key appends.
The lookup laws below are all later modules use; the entry list is only
inspected to iterate over the map. -/

/-- A finite map whose entries keep their insertion order. -/
structure JsMap (κ : Type*) (α : Type*) where
  entries : List (κ × α)
  nodup : (entries.map Prod.fst).Nodup

namespace JsMap

variable {κ α β : Type*}

/-- The map without entries. -/
def empty : JsMap κ α := ⟨[], List.nodup_nil⟩

instance : Inhabited (JsMap κ α) := ⟨empty⟩

/-- The values in insertion order. -/
def values (m : JsMap κ α) : List α := m.entries.map Prod.snd

/-- The keys in insertion order. -/
def keys (m : JsMap κ α) : List κ := m.entries.map Prod.fst

/-- The number of entries. -/
def size (m : JsMap κ α) : Nat := m.entries.length

/-- Apply a function to every stored value. -/
def mapValues (m : JsMap κ α) (f : κ → α → β) : JsMap κ β where
  entries := m.entries.map (fun e => (e.1, f e.1 e.2))
  nodup := by simpa [List.map_map, Function.comp_def] using m.nodup

/-- Keep the entries that satisfy a test. -/
def filter (m : JsMap κ α) (p : κ → α → Bool) : JsMap κ α where
  entries := m.entries.filter (fun e => p e.1 e.2)
  nodup := m.nodup.sublist (List.filter_sublist.map Prod.fst)

variable [DecidableEq κ]

/-- The value stored under a key. -/
def get? (m : JsMap κ α) (k : κ) : Option α :=
  (m.entries.find? (fun e => decide (e.1 = k))).map Prod.snd

/-- Whether a key is present. -/
def has (m : JsMap κ α) (k : κ) : Bool := (m.get? k).isSome

/-- Update the value under a key in place; an absent key changes nothing. -/
def modify (m : JsMap κ α) (k : κ) (f : α → α) : JsMap κ α :=
  m.mapValues (fun k' a => if k' = k then f a else a)

/-- Remove a key. -/
def delete (m : JsMap κ α) (k : κ) : JsMap κ α where
  entries := m.entries.filter (fun e => decide (e.1 ≠ k))
  nodup := (m.nodup).sublist (List.filter_sublist.map Prod.fst)

theorem get?_eq_none_iff {m : JsMap κ α} {k : κ} :
    m.get? k = none ↔ k ∉ m.entries.map Prod.fst := by
  simp only [get?, Option.map_eq_none_iff, List.find?_eq_none, decide_eq_true_eq, List.mem_map,
    not_exists, not_and]

/-- Append an entry whose key is absent. -/
def append (m : JsMap κ α) (k : κ) (a : α) (h : m.get? k = none) : JsMap κ α where
  entries := m.entries ++ [(k, a)]
  nodup := by
    rw [List.map_append, List.nodup_append]
    refine ⟨m.nodup, by simp, ?_⟩
    intro x hx y hy hxy
    simp only [List.map_cons, List.map_nil, List.mem_singleton] at hy
    exact get?_eq_none_iff.1 h (hy ▸ hxy ▸ hx)

/-- Store a value under a key. -/
def set (m : JsMap κ α) (k : κ) (a : α) : JsMap κ α :=
  if h : m.get? k = none then m.append k a h else m.modify k (fun _ => a)

omit [DecidableEq κ] in
/-- What is read off some of the entries has their keys, each once. -/
theorem nodup_filterMap (m : JsMap κ α) {f : κ × α → Option β} {key : β → κ}
    (h : ∀ e b, f e = some b → key b = e.1) : ((m.entries.filterMap f).map key).Nodup := by
  have hsub : ∀ entries : List (κ × α),
      ((entries.filterMap f).map key).Sublist (entries.map Prod.fst) := by
    intro entries
    induction entries with
    | nil => exact .slnil
    | cons e entries ih =>
        cases hf : f e with
        | none => simpa [hf] using ih.cons _
        | some b => simpa [hf, h e b hf] using ih.cons_cons e.1
  exact m.nodup.sublist (hsub m.entries)

/-! ## Lookup laws -/

/-- A lookup succeeds exactly on the entries of the map. -/
theorem get?_eq_some_iff {m : JsMap κ α} {k : κ} {a : α} :
    m.get? k = some a ↔ (k, a) ∈ m.entries := by
  obtain ⟨l, hl⟩ := m
  simp only [get?]
  induction l with
  | nil => simp
  | cons e l ih =>
      obtain ⟨k', b⟩ := e
      obtain ⟨hnotin, hl⟩ := List.nodup_cons.1 hl
      by_cases hk : k' = k
      · subst hk
        have hmem : (k', a) ∉ l := fun h => hnotin (List.mem_map.2 ⟨_, h, rfl⟩)
        simp [hmem, eq_comm]
      · simp [hk, ih hl, Ne.symm hk]

@[simp] theorem get?_empty (k : κ) : (empty : JsMap κ α).get? k = none := rfl

theorem mem_values_iff {m : JsMap κ α} {a : α} :
    a ∈ m.values ↔ ∃ k, m.get? k = some a := by
  simp [values, get?_eq_some_iff]

theorem get?_mapValues (m : JsMap κ α) (f : κ → α → β) (k : κ) :
    (m.mapValues f).get? k = (m.get? k).map (f k) := by
  ext b
  simp only [get?_eq_some_iff, mapValues, List.mem_map, Prod.mk.injEq, Option.map_eq_some_iff,
    Prod.exists]
  constructor
  · rintro ⟨k', a, hmem, rfl, rfl⟩
    exact ⟨a, hmem, rfl⟩
  · rintro ⟨a, hmem, rfl⟩
    exact ⟨k, a, hmem, rfl, rfl⟩

theorem get?_modify (m : JsMap κ α) (k k' : κ) (f : α → α) :
    (m.modify k f).get? k' = if k' = k then (m.get? k').map f else m.get? k' := by
  rw [modify, get?_mapValues]
  by_cases hk : k' = k
  · simp [hk]
  · simp [hk]

@[simp] theorem get?_modify_self (m : JsMap κ α) (k : κ) (f : α → α) :
    (m.modify k f).get? k = (m.get? k).map f := by
  simp [get?_modify]

theorem get?_modify_of_ne {m : JsMap κ α} {k k' : κ} (f : α → α) (h : k' ≠ k) :
    (m.modify k f).get? k' = m.get? k' := by
  simp [get?_modify, h]

theorem get?_filter (m : JsMap κ α) (p : κ → α → Bool) (k : κ) :
    (m.filter p).get? k = (m.get? k).filter (p k) := by
  ext a
  simp [get?_eq_some_iff, filter, Option.filter_eq_some_iff]

theorem get?_delete (m : JsMap κ α) (k k' : κ) :
    (m.delete k).get? k' = if k' = k then none else m.get? k' := by
  ext a
  by_cases hk : k' = k <;> simp [get?_eq_some_iff, delete, hk]

theorem get?_set (m : JsMap κ α) (k k' : κ) (a : α) :
    (m.set k a).get? k' = if k' = k then some a else m.get? k' := by
  unfold set
  split
  · rename_i hnone
    ext b
    by_cases hk : k' = k
    · subst hk
      have hnotin : ∀ c, (k', c) ∉ m.entries := by
        intro c hc
        rw [← get?_eq_some_iff, hnone] at hc
        cases hc
      rw [get?_eq_some_iff]
      simpa [append, hnotin] using eq_comm
    · simp [get?_eq_some_iff, append, hk]
  · rename_i hsome
    rw [get?_modify]
    by_cases hk : k' = k
    · subst hk
      obtain ⟨b, hb⟩ := Option.ne_none_iff_exists'.1 hsome
      simp [hb]
    · simp [hk]

@[simp] theorem get?_set_self (m : JsMap κ α) (k : κ) (a : α) :
    (m.set k a).get? k = some a := by
  simp [get?_set]

theorem get?_set_of_ne {m : JsMap κ α} {k k' : κ} (a : α) (h : k' ≠ k) :
    (m.set k a).get? k' = m.get? k' := by
  simp [get?_set, h]

/-- Storing adds at most one entry. -/
theorem size_set_le (m : JsMap κ α) (k : κ) (a : α) : (m.set k a).size ≤ m.size + 1 := by
  unfold set
  split
  · simp [size, append]
  · simp [size, modify, mapValues]

theorem entries_set_of_none {m : JsMap κ α} {k : κ} (a : α) (h : m.get? k = none) :
    (m.set k a).entries = m.entries ++ [(k, a)] := by
  rw [set, dif_pos h]
  rfl

/-- Storing under a key that is present keeps the order of the entries. -/
theorem entries_set_of_some {m : JsMap κ α} {k : κ} {b : α} (a : α) (h : m.get? k = some b) :
    (m.set k a).entries = m.entries.map (fun e => (e.1, if e.1 = k then a else e.2)) := by
  rw [set, dif_neg (by simp [h])]
  rfl

theorem values_set_of_none {m : JsMap κ α} {k : κ} (a : α) (h : m.get? k = none) :
    (m.set k a).values = m.values ++ [a] := by
  simp [values, entries_set_of_none a h]

/-- An update in place that keeps a view of every value keeps the listed views. -/
theorem map_values_modify {g : α → β} {f : α → α} (hf : ∀ a, g (f a) = g a) (m : JsMap κ α)
    (k : κ) : (m.modify k f).values.map g = m.values.map g := by
  simp only [values, modify, mapValues, List.map_map]
  apply List.map_congr_left
  intro e _
  by_cases hk : e.1 = k
  · simp [hk, hf]
  · simp [hk]

/-- So does storing a value with the view of the one it replaces. -/
theorem map_values_set {g : α → β} {m : JsMap κ α} {k : κ} {a b : α} (h : m.get? k = some b)
    (hg : g a = g b) : (m.set k a).values.map g = m.values.map g := by
  simp only [values, entries_set_of_some a h, List.map_map]
  apply List.map_congr_left
  intro e he
  by_cases hk : e.1 = k
  · have hstored : m.get? k = some e.2 := get?_eq_some_iff.2 (hk ▸ he)
    rw [h] at hstored
    simp [hk, hg, Option.some.inj hstored]
  · simp [hk]

/-- A present key splits the entries at its own. -/
theorem entries_split {m : JsMap κ α} {k : κ} {a : α} (h : m.get? k = some a) :
    ∃ l₁ l₂, m.entries = l₁ ++ (k, a) :: l₂ ∧ (∀ e ∈ l₁, e.1 ≠ k) ∧ ∀ e ∈ l₂, e.1 ≠ k := by
  obtain ⟨l₁, l₂, hsplit⟩ := List.append_of_mem (get?_eq_some_iff.1 h)
  have hnodup := m.nodup
  rw [hsplit, List.map_append, List.map_cons, List.nodup_append] at hnodup
  obtain ⟨-, hnodup₂, hdisjoint⟩ := hnodup
  refine ⟨l₁, l₂, hsplit, ?_, ?_⟩
  · intro e he
    exact hdisjoint e.1 (List.mem_map_of_mem he) k (by simp)
  · intro e he hkey
    have hmem : e.1 ∈ l₂.map Prod.fst := List.mem_map_of_mem he
    exact (List.nodup_cons.1 hnodup₂).1 (hkey ▸ hmem)

/-- Storing under a key that is present exchanges one value for another. -/
theorem values_set_of_some {m : JsMap κ α} {k : κ} {b : α} (a : α) (h : m.get? k = some b) :
    ∃ l₁ l₂, m.values = l₁ ++ b :: l₂ ∧ (m.set k a).values = l₁ ++ a :: l₂ := by
  obtain ⟨l₁, l₂, hsplit, hkeep₁, hkeep₂⟩ := entries_split h
  refine ⟨l₁.map Prod.snd, l₂.map Prod.snd, by simp [values, hsplit], ?_⟩
  simp only [values, entries_set_of_some a h, hsplit, List.map_append, List.map_cons, List.map_map,
    if_true]
  congr 1
  · apply List.map_congr_left
    intro e he
    simp [hkeep₁ e he]
  · congr 1
    apply List.map_congr_left
    intro e he
    simp [hkeep₂ e he]

/-- Storing what is stored already changes nothing. -/
theorem set_eq_self {m : JsMap κ α} {k : κ} {a : α} (h : m.get? k = some a) : m.set k a = m := by
  have hentries : (m.set k a).entries = m.entries := by
    rw [entries_set_of_some a h]
    conv_rhs => rw [← List.map_id m.entries]
    apply List.map_congr_left
    rintro ⟨k', b⟩ he
    by_cases hk : k' = k
    · subst hk
      have hb : m.get? k' = some b := get?_eq_some_iff.2 he
      rw [h] at hb
      simp [Option.some.inj hb]
    · simp [hk]
  cases hm : m.set k a
  cases m
  simp_all

/-! ## Totals -/

/-- The sum of an amount over the entries. -/
def total {M : Type*} [AddCommGroup M] (m : JsMap κ α) (f : κ → α → M) : M :=
  (m.entries.map (fun e => f e.1 e.2)).sum

section Total

variable {M : Type*} [AddCommGroup M] {f g : κ → α → M}

omit [DecidableEq κ] in
@[simp] theorem total_empty : (empty : JsMap κ α).total f = 0 := rfl

/-- A new key adds its own amount. -/
theorem total_set_of_none {m : JsMap κ α} {k : κ} (a : α) (h : m.get? k = none) :
    (m.set k a).total f = m.total f + f k a := by
  simp [total, entries_set_of_none a h]

/-- Two amounts that agree but at one key differ by what they differ there. -/
theorem total_exchange {m : JsMap κ α} {k : κ} {a : α} (h : m.get? k = some a)
    (hagree : ∀ k', k' ≠ k → g k' = f k') : m.total g = m.total f + (g k a - f k a) := by
  obtain ⟨l₁, l₂, hsplit, hkeep₁, hkeep₂⟩ := entries_split h
  have hsame : ∀ l : List (κ × α), (∀ e ∈ l, e.1 ≠ k) →
      l.map (fun e => g e.1 e.2) = l.map (fun e => f e.1 e.2) := by
    intro l hl
    apply List.map_congr_left
    intro e he
    rw [hagree e.1 (hl e he)]
  simp only [total, hsplit, List.map_append, List.map_cons, List.sum_append, List.sum_cons,
    hsame l₁ hkeep₁, hsame l₂ hkeep₂]
  abel

/-- A key that is present exchanges its amount. -/
theorem total_set_of_some {m : JsMap κ α} {k : κ} {b : α} (a : α) (h : m.get? k = some b) :
    (m.set k a).total f = m.total f + (f k a - f k b) := by
  have hset : (m.set k a).total f = m.total fun k' c => f k' (if k' = k then a else c) := by
    simp only [total, entries_set_of_some a h, List.map_map]
    rfl
  have hagree : ∀ k', k' ≠ k → (fun c => f k' (if k' = k then a else c)) = f k' := by
    intro k' hk
    simp [hk]
  rw [hset, total_exchange h hagree, if_pos rfl]

theorem total_delete_of_none {m : JsMap κ α} {k : κ} (h : m.get? k = none) :
    (m.delete k).total f = m.total f := by
  have hall : ∀ e ∈ m.entries, decide (e.1 ≠ k) = true := fun e he =>
    decide_eq_true fun hk => get?_eq_none_iff.1 h (hk ▸ List.mem_map_of_mem he)
  have hkept : (m.delete k).entries = m.entries := List.filter_eq_self.2 hall
  rw [total, hkept, total]

/-- A key that is removed takes its amount away. -/
theorem total_delete_of_some {m : JsMap κ α} {k : κ} {a : α} (h : m.get? k = some a) :
    (m.delete k).total f = m.total f - f k a := by
  obtain ⟨l₁, l₂, hsplit, hkeep₁, hkeep₂⟩ := entries_split h
  have hkept : (m.delete k).entries = l₁ ++ l₂ := by
    change m.entries.filter (fun e => decide (e.1 ≠ k)) = l₁ ++ l₂
    rw [hsplit, List.filter_append, List.filter_cons_of_neg (by simp),
      List.filter_eq_self.2 fun e he => decide_eq_true (hkeep₁ e he),
      List.filter_eq_self.2 fun e he => decide_eq_true (hkeep₂ e he)]
  simp only [total, hkept, hsplit, List.map_append, List.map_cons, List.sum_append, List.sum_cons]
  abel

end Total

/-- Updates in place that keep a view of every value keep it for the whole map. -/
theorem map_get?_foldl_modify {g : α → β} {f : α → α} (hf : ∀ a, g (f a) = g a)
    (keys : List κ) (m : JsMap κ α) (k : κ) :
    ((keys.foldl (fun m k' => m.modify k' f) m).get? k).map g = (m.get? k).map g := by
  induction keys generalizing m with
  | nil => rfl
  | cons k' keys ih =>
      rw [List.foldl_cons, ih, get?_modify]
      by_cases hk : k = k'
      · simp [hk, hf, Function.comp_def]
      · simp [hk]

end JsMap
