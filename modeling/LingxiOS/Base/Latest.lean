-- SUMMARY: The latest entry under a key, and journals filled in later.
import LingxiOS.Base.JsMap
import Mathlib.Data.List.Induction

/-! # The Latest Entry

Where several entries of a list share a key, the last one counts. A journal keeps
lists under ids in the order the ids were opened; what an id records may be filled
in after later ids have recorded something. -/

variable {ι κ α : Type*} [DecidableEq κ] {key : α → κ} {l l' : List α} {k : κ} {a : α}

/-- The last entry of a list under a key. -/
def latest (key : α → κ) (l : List α) (k : κ) : Option α := l.reverse.find? (fun a => key a == k)

@[simp] theorem latest_nil : latest key ([] : List α) k = none := rfl

@[simp] theorem latest_append :
    latest key (l ++ l') k = (latest key l' k).or (latest key l k) := by
  simp [latest, List.find?_append]

theorem latest_concat : latest key (l ++ [a]) k = if key a = k then some a else latest key l k := by
  rw [latest_append]
  by_cases h : key a = k
  · simp [latest, h]
  · simp [latest, h]

theorem mem_of_latest (h : latest key l k = some a) : a ∈ l ∧ key a = k := by
  refine ⟨?_, ?_⟩
  · exact List.mem_reverse.1 (List.mem_of_find?_eq_some h)
  · simpa using List.find?_some h

theorem latest_eq_none_iff : latest key l k = none ↔ ∀ a ∈ l, key a ≠ k := by
  simp [latest]

/-- The only entry under its key is the latest one. -/
theorem latest_eq_some_of_unique (ha : a ∈ l) (hunique : ∀ b ∈ l, key b = key a → b = a) :
    latest key l (key a) = some a := by
  cases hlatest : latest key l (key a) with
  | none => exact absurd rfl (latest_eq_none_iff.1 hlatest a ha)
  | some b =>
      obtain ⟨hb, hkey⟩ := mem_of_latest hlatest
      rw [hunique b hb hkey]

/-! ## Maps of the latest entries -/

/-- Storing a list entry by entry leaves the latest one under every key. -/
theorem get?_foldl_set (m : JsMap κ α) :
    (l.foldl (fun found a => found.set (key a) a) m).get? k = (latest key l k).or (m.get? k) := by
  induction l using List.reverseRecOn with
  | nil => simp
  | append_singleton l a ih =>
      rw [List.foldl_append, List.foldl_cons, List.foldl_nil, JsMap.get?_set, ih, latest_concat]
      by_cases h : key a = k
      · simp [h]
      · simp [h, Ne.symm h]

/-- Every value of the map is stored under its own key. -/
def JsMap.KeyedBy (m : JsMap κ α) (key : α → κ) : Prop := ∀ k a, m.get? k = some a → key a = k

theorem JsMap.KeyedBy.set {m : JsMap κ α} (h : m.KeyedBy key) : (m.set (key a) a).KeyedBy key := by
  intro k b hget
  rw [JsMap.get?_set] at hget
  split at hget
  · rename_i hk
    cases hget
    exact hk.symm
  · exact h k b hget

theorem JsMap.KeyedBy.foldl {m : JsMap κ α} (h : m.KeyedBy key) :
    (l.foldl (fun found a => found.set (key a) a) m).KeyedBy key := by
  induction l generalizing m with
  | nil => exact h
  | cons a l ih => exact ih h.set

/-- Of the values of such a map the latest under a key is the stored one. -/
theorem JsMap.KeyedBy.latest_values {m : JsMap κ α} (h : m.KeyedBy key) :
    latest key m.values k = m.get? k := by
  cases hget : m.get? k with
  | none =>
      rw [latest_eq_none_iff]
      intro a ha hkey
      obtain ⟨k', hk'⟩ := JsMap.mem_values_iff.1 ha
      rw [← h k' a hk', hkey, hget] at hk'
      cases hk'
  | some a =>
      have hkey := h k a hget
      subst hkey
      apply latest_eq_some_of_unique (JsMap.mem_values_iff.2 ⟨_, hget⟩)
      intro b hb hsame
      obtain ⟨k', hk'⟩ := JsMap.mem_values_iff.1 hb
      rw [← h k' b hk', hsame, hget] at hk'
      exact (Option.some.inj hk').symm

/-! ## The last entries -/

/-- The last entry under each key, in the order the keys are met. -/
def lastByKey (key : α → κ) (l : List α) : List α :=
  (l.foldl (fun found a => found.set (key a) a) (JsMap.empty : JsMap κ α)).values

theorem JsMap.KeyedBy.empty : (JsMap.empty : JsMap κ α).KeyedBy key := by
  intro k a h
  cases h

theorem JsMap.KeyedBy.map_values {m : JsMap κ α} (h : m.KeyedBy key) :
    m.values.map key = m.keys := by
  rw [JsMap.values, List.map_map]
  refine List.map_congr_left fun e he => ?_
  exact h e.1 e.2 (JsMap.get?_eq_some_iff.2 he)

theorem latest_lastByKey : latest key (lastByKey key l) k = latest key l k := by
  unfold lastByKey
  rw [JsMap.KeyedBy.empty.foldl.latest_values, get?_foldl_set]
  simp

theorem mem_lastByKey_iff : a ∈ lastByKey key l ↔ latest key l (key a) = some a := by
  unfold lastByKey
  rw [JsMap.mem_values_iff]
  simp only [get?_foldl_set, JsMap.get?_empty, Option.or_none]
  constructor
  · rintro ⟨k, hk⟩
    rw [(mem_of_latest hk).2]
    exact hk
  · exact fun h => ⟨key a, h⟩

theorem mem_of_mem_lastByKey (h : a ∈ lastByKey key l) : a ∈ l :=
  (mem_of_latest (mem_lastByKey_iff.1 h)).1

/-- The last entries have different keys. -/
theorem nodup_lastByKey : ((lastByKey key l).map key).Nodup := by
  unfold lastByKey
  rw [JsMap.KeyedBy.empty.foldl.map_values]
  exact JsMap.nodup _

/-- Entries with different keys are all kept, in their order. -/
theorem lastByKey_of_nodup (h : (l.map key).Nodup) : lastByKey key l = l := by
  unfold lastByKey
  induction l using List.reverseRecOn with
  | nil => rfl
  | append_singleton l a ih =>
      rw [List.map_append, List.nodup_append] at h
      have hnew : (l.foldl (fun found a => found.set (key a) a)
          (JsMap.empty : JsMap κ α)).get? (key a) = none := by
        rw [get?_foldl_set, JsMap.get?_empty, Option.or_none, latest_eq_none_iff]
        exact fun b hb => h.2.2 _ (List.mem_map_of_mem hb) _ (List.mem_singleton_self _)
      rw [List.foldl_append, List.foldl_cons, List.foldl_nil, JsMap.values_set_of_none _ hnew,
        ih h.1]

theorem length_lastByKey_le : (lastByKey key l).length ≤ l.length := by
  have hfold : ∀ m : JsMap κ α,
      (l.foldl (fun found a => found.set (key a) a) m).size ≤ m.size + l.length := by
    induction l with
    | nil => exact fun m => Nat.le_refl _
    | cons a l ih =>
        intro m
        have hset := JsMap.size_set_le m (key a) a
        have hrest := ih (m.set (key a) a)
        simp only [List.foldl_cons, List.length_cons]
        omega
  have hempty := hfold .empty
  simpa [lastByKey, JsMap.values, JsMap.size, JsMap.empty] using hempty

/-! ## Journals -/

/-- Every entry that counts in the first list counts in the second. -/
def Agrees (key : α → κ) (l l' : List α) : Prop :=
  ∀ k a, latest key l k = some a → latest key l' k = some a

theorem Agrees.nil : Agrees key ([] : List α) l := by
  intro k a h
  cases h

abbrev Journal (ι α : Type*) := List (ι × List α)

namespace Journal

variable [DecidableEq ι] {J : Journal ι α} {id : ι} {filled : List α}

def records (J : Journal ι α) : List α := J.flatMap Prod.snd

/-- The journal with other records under an id. -/
def fill (J : Journal ι α) (id : ι) (filled : List α) : Journal ι α :=
  J.map (fun entry => if entry.1 = id then (id, filled) else entry)

/-- The records of the ids opened after an id. -/
def after (J : Journal ι α) (id : ι) : List α :=
  records ((J.dropWhile (fun entry => entry.1 ≠ id)).drop 1)

theorem fill_eq_self (h : ∀ entry ∈ J, entry.1 = id → entry.2 = filled) : J.fill id filled = J := by
  unfold fill
  conv_rhs => rw [← List.map_id J]
  apply List.map_congr_left
  intro entry hentry
  split
  · rename_i hid
    rw [← h entry hentry hid, ← hid]
    rfl
  · rfl

theorem fill_of_ne (h : ∀ entry ∈ J, entry.1 ≠ id) : J.fill id filled = J :=
  fill_eq_self (fun entry hentry hid => absurd hid (h entry hentry))

/-- An id's entry, and what is opened before and after it. -/
theorem split_at (hopen : (id, []) ∈ J) (hnodup : (J.map Prod.fst).Nodup) :
    ∃ before later, J = before ++ (id, []) :: later ∧ J.after id = records later
      ∧ (∀ entry ∈ before, entry.1 ≠ id) ∧ ∀ entry ∈ later, entry.1 ≠ id := by
  obtain ⟨before, later, rfl⟩ := List.append_of_mem hopen
  rw [List.map_append, List.map_cons, List.nodup_append] at hnodup
  obtain ⟨_, hlater, hbefore⟩ := hnodup
  have hne : ∀ entry ∈ before, entry.1 ≠ id := by
    intro entry hentry
    exact hbefore entry.1 (List.mem_map_of_mem hentry) id List.mem_cons_self
  refine ⟨before, later, rfl, ?_, hne, ?_⟩
  · have hdrop : (before ++ (id, []) :: later).dropWhile (fun entry => decide (entry.1 ≠ id))
        = (id, []) :: later := by
      rw [List.dropWhile_append_of_pos (by simpa using hne)]
      simp
    unfold after
    rw [hdrop, List.drop_one, List.tail_cons]
  · intro entry hentry hid
    have hmem := List.mem_map_of_mem (f := Prod.fst) hentry
    rw [hid] at hmem
    exact (List.nodup_cons.1 hlater).1 hmem

/-- What counts after an open id is filled. -/
theorem latest_fill (hopen : (id, []) ∈ J) (hnodup : (J.map Prod.fst).Nodup) :
    latest key (J.fill id filled).records k
      = (latest key (J.after id) k).or ((latest key filled k).or (latest key J.records k)) := by
  obtain ⟨before, later, hJ, hafter, hbefore, hlater⟩ := split_at hopen hnodup
  have hfilled : (J.fill id filled).records = records before ++ filled ++ records later := by
    have hb : fill before id filled = before := fill_of_ne hbefore
    have hl : fill later id filled = later := fill_of_ne hlater
    unfold fill at hb hl ⊢
    rw [hJ, List.map_append, List.map_cons, hb, hl]
    simp [records]
  have hrecords : J.records = records before ++ records later := by
    rw [hJ]
    simp [records]
  rw [hfilled, hrecords, hafter]
  simp only [latest_append]
  cases latest key (records later) k with
  | none => simp
  | some a => simp

/-- A report that fills an open id still agrees, if what later ids record under its keys does. -/
theorem agrees_fill {reports : List α} (hopen : (id, []) ∈ J) (hnodup : (J.map Prod.fst).Nodup)
    (h : Agrees key reports J.records)
    (hlater : ∀ k a, latest key filled k = some a → (latest key (J.after id) k).getD a = a) :
    Agrees key (reports ++ filled) (J.fill id filled).records := by
  intro k a hlatest
  rw [latest_append] at hlatest
  rw [latest_fill hopen hnodup]
  cases hfilled : latest key filled k with
  | some b =>
      rw [hfilled, Option.some_or] at hlatest
      cases hlatest
      have hafter := hlater k a hfilled
      cases hcase : latest key (J.after id) k with
      | none => simp
      | some c =>
          rw [hcase, Option.getD_some] at hafter
          simp [hafter]
  | none =>
      rw [hfilled, Option.none_or] at hlatest
      have hrecords := h k a hlatest
      obtain ⟨before, later, hJ, hafter, _, _⟩ := split_at hopen hnodup
      rw [hafter, hrecords, Option.none_or]
      have hsplit : J.records = records before ++ records later := by
        rw [hJ]
        simp [records]
      rw [hsplit, latest_append] at hrecords
      cases hcase : latest key (records later) k with
      | none => simp
      | some c =>
          rw [hcase, Option.some_or] at hrecords
          simpa using hrecords

end Journal
