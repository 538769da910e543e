-- SUMMARY: Logs of questions and answers under ids that repeat.
import Mathlib.Algebra.Order.Group.Nat
import Mathlib.Data.List.Basic

/-! # Landing Answers

A log has questions and answers under ids, and an id may be used again later. An answer belongs to
the last question of its id before it. -/

namespace LingxiOS

inductive LogPart (κ : Type*) where
  | ask (id : κ)
  | answer (id : κ)
  | other
  deriving DecidableEq

variable {κ : Type*}

/-! ## Whose an answer is -/

/-- The part at `i` answers the one at `k`. -/
def AnswerOf (parts : List (LogPart κ)) (k i : Nat) : Prop :=
  ∃ id, parts[k]? = some (.ask id) ∧ parts[i]? = some (.answer id) ∧ k < i
    ∧ ∀ j, k < j → j < i → parts[j]? ≠ some (.ask id)

def FirstAnswerOf (parts : List (LogPart κ)) (k i : Nat) : Prop :=
  AnswerOf parts k i ∧ ∀ j, AnswerOf parts k j → i ≤ j

/-- The first answer under an id, or where one is appended if there is none. -/
structure Target (parts : List (LogPart κ)) (id : κ) (t : Nat) : Prop where
  answer : (parts ++ [.answer id])[t]? = some (.answer id)
  first : ∀ i, i < t → parts[i]? ≠ some (.answer id)

/-- The first answer under an id is, or would be, one of the question at `k`: no answer stands
    before it, and none of the questions after it stands before an answer. -/
structure OwnsFirst (parts : List (LogPart κ)) (k : Nat) (id : κ) : Prop where
  asks : parts[k]? = some (.ask id)
  before : ∀ i, i < k → parts[i]? ≠ some (.answer id)
  after : ∀ j, k < j → parts[j]? = some (.ask id) → ∃ i, k < i ∧ i < j ∧ parts[i]? = some (.answer id)

/-- Nothing under its id comes after the question at `k`. -/
structure Unanswered (parts : List (LogPart κ)) (k : Nat) (id : κ) : Prop where
  asks : parts[k]? = some (.ask id)
  after : ∀ j, k < j → parts[j]? ≠ some (.ask id) ∧ parts[j]? ≠ some (.answer id)

section Parts

variable {parts more : List (LogPart κ)} {k k' i j t : Nat} {id : κ}

theorem lt_length_of_part {p : LogPart κ} (h : parts[i]? = some p) : i < parts.length :=
  (List.getElem?_eq_some_iff.1 h).1

theorem AnswerOf.lt_length (h : AnswerOf parts k i) : i < parts.length := by
  obtain ⟨_, _, hanswer, _⟩ := h
  exact lt_length_of_part hanswer

/-- An answer is that of one question. -/
theorem AnswerOf.ask_unique (h : AnswerOf parts k i) (h' : AnswerOf parts k' i) : k = k' := by
  obtain ⟨id, hask, hanswer, hlt, hbetween⟩ := h
  obtain ⟨id', hask', hanswer', hlt', hbetween'⟩ := h'
  obtain rfl : id = id' := by
    rw [hanswer] at hanswer'
    cases hanswer'
    rfl
  rcases Nat.lt_trichotomy k k' with hbefore | rfl | hafter
  · exact absurd hask' (hbetween k' hbefore hlt')
  · rfl
  · exact absurd hask (hbetween' k hafter hlt)

theorem FirstAnswerOf.unique (h : FirstAnswerOf parts k i) (h' : FirstAnswerOf parts k j) : i = j :=
  Nat.le_antisymm (h.2 j h'.1) (h'.2 i h.1)

/-- What is appended changes nothing for an answer that is there. -/
theorem answerOf_append_iff (hi : i < parts.length) :
    AnswerOf (parts ++ more) k i ↔ AnswerOf parts k i := by
  refine exists_congr fun id => ?_
  rw [List.getElem?_append_left hi]
  constructor
  · rintro ⟨hask, hanswer, hlt, hbetween⟩
    rw [List.getElem?_append_left (hlt.trans hi)] at hask
    refine ⟨hask, hanswer, hlt, fun j hj hji => ?_⟩
    rw [← List.getElem?_append_left (hji.trans hi)]
    exact hbetween j hj hji
  · rintro ⟨hask, hanswer, hlt, hbetween⟩
    rw [List.getElem?_append_left (hlt.trans hi)]
    refine ⟨hask, hanswer, hlt, fun j hj hji => ?_⟩
    rw [List.getElem?_append_left (hji.trans hi)]
    exact hbetween j hj hji

theorem firstAnswerOf_append_iff (hi : i < parts.length) :
    FirstAnswerOf (parts ++ more) k i ↔ FirstAnswerOf parts k i := by
  refine and_congr (answerOf_append_iff hi) ?_
  constructor
  · intro hfirst j hj
    exact hfirst j ((answerOf_append_iff hj.lt_length).2 hj)
  · intro hfirst j hj
    by_cases hlt : j < parts.length
    · exact hfirst j ((answerOf_append_iff hlt).1 hj)
    · exact hi.le.trans (Nat.le_of_not_lt hlt)

theorem Target.le_length (h : Target parts id t) : t ≤ parts.length := by
  have hlt := lt_length_of_part h.answer
  rw [List.length_append, List.length_singleton] at hlt
  exact Nat.le_of_lt_succ hlt

theorem Target.le (h : Target parts id t) (hi : (parts ++ [.answer id])[i]? = some (.answer id)) :
    t ≤ i := by
  by_contra hlt
  have hlt := Nat.lt_of_not_le hlt
  rw [List.getElem?_append_left (hlt.trans_le h.le_length)] at hi
  exact h.first i hlt hi

theorem OwnsFirst.lt_target (h : OwnsFirst parts k id) (ht : Target parts id t) : k < t := by
  have hanswer := ht.answer
  rcases Nat.lt_trichotomy k t with hlt | rfl | hgt
  · exact hlt
  · rw [List.getElem?_append_left (lt_length_of_part h.asks), h.asks] at hanswer
    cases hanswer
  · rw [List.getElem?_append_left (hgt.trans (lt_length_of_part h.asks))] at hanswer
    exact absurd hanswer (h.before t hgt)

/-- The target of an id answers exactly the question that owns it. -/
theorem firstAnswerOf_target_iff (ht : Target parts id t) :
    FirstAnswerOf (parts ++ [.answer id]) k t ↔ OwnsFirst parts k id := by
  constructor
  · rintro ⟨⟨id', hask, hanswer, hlt, hbetween⟩, -⟩
    obtain rfl : id = id' := by
      have h := ht.answer
      rw [hanswer] at h
      cases h
      rfl
    have hk : k < parts.length := hlt.trans_le ht.le_length
    rw [List.getElem?_append_left hk] at hask
    refine ⟨hask, fun i hi => ht.first i (hi.trans hlt), fun j hj hjask => ?_⟩
    have hjlt : j < parts.length := lt_length_of_part hjask
    have htj : t < j := by
      by_contra hle
      rcases Nat.lt_or_eq_of_le (Nat.le_of_not_lt hle) with hjt | rfl
      · refine hbetween j hj hjt ?_
        rw [List.getElem?_append_left hjlt]
        exact hjask
      · rw [List.getElem?_append_left hjlt, hjask] at hanswer
        cases hanswer
    rw [List.getElem?_append_left (htj.trans hjlt)] at hanswer
    exact ⟨t, hlt, htj, hanswer⟩
  · intro h
    have hk := lt_length_of_part h.asks
    have hask : (parts ++ [.answer id])[k]? = some (.ask id) := by
      rw [List.getElem?_append_left hk]
      exact h.asks
    refine ⟨⟨id, hask, ht.answer, h.lt_target ht, fun j hj hjt hjask => ?_⟩, ?_⟩
    · rw [List.getElem?_append_left (hjt.trans_le ht.le_length)] at hjask
      obtain ⟨i, -, hij, hi⟩ := h.after j hj hjask
      exact ht.first i (hij.trans hjt) hi
    · rintro j ⟨id', hask', hanswer', -⟩
      rw [hask] at hask'
      cases hask'
      exact ht.le hanswer'

theorem OwnsFirst.unique (h : OwnsFirst parts k id) (h' : OwnsFirst parts k' id) : k = k' := by
  rcases Nat.lt_trichotomy k k' with hlt | rfl | hgt
  · obtain ⟨i, -, hi, hanswer⟩ := h.after k' hlt h'.asks
    exact absurd hanswer (h'.before i hi)
  · rfl
  · obtain ⟨i, -, hi, hanswer⟩ := h'.after k hgt h.asks
    exact absurd hanswer (h.before i hi)

/-- Answers that are appended leave the first ones to their questions. -/
theorem ownsFirst_append_iff (hmore : ∀ p ∈ more, ∃ id, p = .answer id) (hk : k < parts.length) :
    OwnsFirst (parts ++ more) k id ↔ OwnsFirst parts k id := by
  have hask : ∀ j, (parts ++ more)[j]? = some (.ask id) → j < parts.length := by
    intro j hj
    by_contra hle
    rw [List.getElem?_append_right (Nat.le_of_not_lt hle)] at hj
    obtain ⟨id', hid'⟩ := hmore _ (List.mem_of_getElem? hj)
    cases hid'
  constructor
  · rintro ⟨hasks, hbefore, hafter⟩
    rw [List.getElem?_append_left hk] at hasks
    refine ⟨hasks, fun i hi => ?_, fun j hj hjask => ?_⟩
    · rw [← List.getElem?_append_left (hi.trans hk)]
      exact hbefore i hi
    · have hjlt := lt_length_of_part hjask
      obtain ⟨i, hki, hij, hi⟩ := hafter j hj (by rw [List.getElem?_append_left hjlt]; exact hjask)
      rw [List.getElem?_append_left (hij.trans hjlt)] at hi
      exact ⟨i, hki, hij, hi⟩
  · rintro ⟨hasks, hbefore, hafter⟩
    refine ⟨?_, fun i hi => ?_, fun j hj hjask => ?_⟩
    · rw [List.getElem?_append_left hk]
      exact hasks
    · rw [List.getElem?_append_left (hi.trans hk)]
      exact hbefore i hi
    · have hjlt := hask j hjask
      rw [List.getElem?_append_left hjlt] at hjask
      obtain ⟨i, hki, hij, hi⟩ := hafter j hj hjask
      refine ⟨i, hki, hij, ?_⟩
      rw [List.getElem?_append_left (hij.trans hjlt)]
      exact hi

theorem unanswered_concat_iff {p : LogPart κ} : Unanswered (parts ++ [p]) k id ↔
    Unanswered parts k id ∧ p ≠ .ask id ∧ p ≠ .answer id ∨ k = parts.length ∧ p = .ask id := by
  have hlast : (parts ++ [p])[parts.length]? = some p := by
    rw [List.getElem?_append_right le_rfl, Nat.sub_self]
    rfl
  constructor
  · rintro ⟨hasks, hafter⟩
    have hk := lt_length_of_part hasks
    rw [List.length_append, List.length_singleton] at hk
    rcases Nat.lt_or_eq_of_le (Nat.le_of_lt_succ hk) with hlt | rfl
    · have hp := hafter parts.length hlt
      rw [hlast] at hp
      rw [List.getElem?_append_left hlt] at hasks
      refine .inl ⟨⟨hasks, fun j hj => ?_⟩, fun h => hp.1 (congrArg some h),
        fun h => hp.2 (congrArg some h)⟩
      by_cases hjlt : j < parts.length
      · rw [← List.getElem?_append_left hjlt]
        exact hafter j hj
      · rw [List.getElem?_eq_none (Nat.le_of_not_lt hjlt)]
        exact ⟨nofun, nofun⟩
    · rw [hlast] at hasks
      exact .inr ⟨rfl, Option.some.inj hasks⟩
  · rintro (⟨⟨hasks, hafter⟩, hask, hanswer⟩ | ⟨rfl, rfl⟩)
    · have hk := lt_length_of_part hasks
      refine ⟨by rw [List.getElem?_append_left hk]; exact hasks, fun j hj => ?_⟩
      by_cases hjlt : j < parts.length
      · rw [List.getElem?_append_left hjlt]
        exact hafter j hj
      · rcases Nat.lt_or_eq_of_le (Nat.le_of_not_lt hjlt) with hgt | rfl
        · rw [List.getElem?_eq_none]
          · exact ⟨nofun, nofun⟩
          · rw [List.length_append, List.length_singleton]
            exact hgt
        · rw [hlast]
          exact ⟨fun h => hask (Option.some.inj h), fun h => hanswer (Option.some.inj h)⟩
    · refine ⟨hlast, fun j hj => ?_⟩
      rw [List.getElem?_eq_none]
      · exact ⟨nofun, nofun⟩
      · rw [List.length_append, List.length_singleton]
        exact hj

/-- Answers that are appended under ids of their own are first ones. -/
theorem Unanswered.firstAnswerOf {ids : List κ} {n : Nat} (h : Unanswered parts k id)
    (hnodup : ids.Nodup) (hn : ids[n]? = some id) :
    FirstAnswerOf (parts ++ ids.map .answer) k (parts.length + n) := by
  have hk := lt_length_of_part h.asks
  have hask : (parts ++ ids.map .answer)[k]? = some (.ask id) := by
    rw [List.getElem?_append_left hk]
    exact h.asks
  have hright : ∀ j, parts.length ≤ j →
      (parts ++ ids.map .answer)[j]? = ids[j - parts.length]?.map LogPart.answer := by
    intro j hj
    rw [List.getElem?_append_right hj, List.getElem?_map]
  refine ⟨⟨id, hask, ?_, by omega, fun j hj _ hjask => ?_⟩, ?_⟩
  · rw [hright _ (Nat.le_add_right _ _), Nat.add_sub_cancel_left, hn]
    rfl
  · by_cases hjlt : j < parts.length
    · rw [List.getElem?_append_left hjlt] at hjask
      exact (h.after j hj).1 hjask
    · rw [hright j (Nat.le_of_not_lt hjlt)] at hjask
      obtain ⟨_, -, hid⟩ := Option.map_eq_some_iff.1 hjask
      cases hid
  · rintro j ⟨id', hask', hanswer', hlt, -⟩
    rw [hask] at hask'
    cases hask'
    have hjge : parts.length ≤ j := by
      by_contra hjlt
      rw [List.getElem?_append_left (Nat.lt_of_not_le hjlt)] at hanswer'
      exact (h.after j hlt).2 hanswer'
    rw [hright j hjge] at hanswer'
    obtain ⟨_, hid, heq⟩ := Option.map_eq_some_iff.1 hanswer'
    cases heq
    -- The ids are distinct: this one stands at one place among them.
    have hlen : n < ids.length := (List.getElem?_eq_some_iff.1 hn).1
    have hsame := (List.getElem?_inj hlen hnodup).1 (hn.trans hid.symm)
    omega

end Parts

/-! ## Landing -/

section Landing

variable {α β : Type*} (part : α → LogPart κ) (shows : α → β → Prop)

/-- The answers that were recovered for some questions of a log landed on them: what was changed or
    added is the first answer to one of these questions, and shows what was recovered. -/
structure Lands (recovered : Nat → β → Prop) (log log' : List α) : Prop where
  parts : log.map part <+: log'.map part
  kept : ∀ i, i < log.length → log'[i]? = log[i]?
    ∨ ∃ k b, recovered k b ∧ FirstAnswerOf (log.map part) k i
  added : ∀ i, log.length ≤ i → i < log'.length →
    ∃ k b, recovered k b ∧ FirstAnswerOf (log'.map part) k i
  landed : ∀ k b, recovered k b → ∃ i item, FirstAnswerOf (log'.map part) k i
    ∧ log'[i]? = some item ∧ shows item b

/-- Another answer is recovered for the question at `k`. -/
def recoverAt (recovered : Nat → β → Prop) (k : Nat) (b : β) (k' : Nat) (b' : β) : Prop :=
  if k' = k then b' = b else recovered k' b'

variable {part shows} {recovered recovered' : Nat → β → Prop} {log log' : List α} {k i : Nat}
  {b : β} {item : α}

theorem Lands.refl (log : List α) : Lands part shows (fun _ _ => False) log log :=
  ⟨List.prefix_rfl, fun _ _ => .inl rfl, fun _ hle hlt => absurd hlt (Nat.not_lt_of_le hle), nofun⟩

theorem Lands.congr (h : Lands part shows recovered log log')
    (heq : ∀ k b, recovered k b ↔ recovered' k b) : Lands part shows recovered' log log' := by
  obtain rfl : recovered = recovered' := funext fun k => funext fun b => propext (heq k b)
  exact h

/-- A question that had at most one answer has exactly one. -/
theorem Lands.one (h : Lands part shows recovered log log') (hk : recovered k b)
    (hone : ∀ i j, AnswerOf (log.map part) k i → AnswerOf (log.map part) k j → i = j) :
    ∃ i, AnswerOf (log'.map part) k i ∧ ∀ j, AnswerOf (log'.map part) k j → j = i := by
  obtain ⟨i, -, hi, -⟩ := h.landed k b hk
  refine ⟨i, hi.1, fun j hj => ?_⟩
  obtain ⟨more, hmore⟩ := h.parts
  by_cases hjlt : j < log.length
  · have hilt : i < log.length := (hi.2 j hj).trans_lt hjlt
    rw [← List.length_map (f := part)] at hjlt hilt
    rw [← hmore, answerOf_append_iff hjlt] at hj
    have hi := hi.1
    rw [← hmore, answerOf_append_iff hilt] at hi
    exact hone j i hj hi
  · have hlt := hj.lt_length
    rw [List.length_map] at hlt
    -- What was added is the first answer to its question.
    obtain ⟨k', -, -, hfirst⟩ := h.added j (Nat.le_of_not_lt hjlt) hlt
    obtain rfl := hfirst.1.ask_unique hj
    exact hfirst.unique hi

/-- One more answer: nothing else is changed, and it is the first one to its question. -/
theorem Lands.answer {log'' : List α} (h : Lands part shows recovered log log')
    (hparts : log'.map part <+: log''.map part) (hothers : ∀ j, j ≠ i → log''[j]? = log'[j]?)
    (hi : FirstAnswerOf (log''.map part) k i) (hitem : log''[i]? = some item)
    (hshows : shows item b) : Lands part shows (recoverAt recovered k b) log log'' := by
  have hself : recoverAt recovered k b k b := by rw [recoverAt, if_pos rfl]
  have hmem : ∀ {k' b'}, recovered k' b' → ∃ b'', recoverAt recovered k b k' b'' := by
    intro k' b' hk'
    by_cases hsame : k' = k
    · exact ⟨b, by rw [recoverAt, if_pos hsame]⟩
    · exact ⟨b', by rw [recoverAt, if_neg hsame]; exact hk'⟩
  have hfirst : ∀ {k' j}, FirstAnswerOf (log'.map part) k' j → FirstAnswerOf (log''.map part) k' j := by
    intro k' j hj
    obtain ⟨more, hmore⟩ := hparts
    rw [← hmore, firstAnswerOf_append_iff hj.1.lt_length]
    exact hj
  refine ⟨h.parts.trans hparts, fun j hj => ?_, fun j hle hlt => ?_, fun k' b' hk' => ?_⟩
  · by_cases hji : j = i
    · subst hji
      obtain ⟨more, hmore⟩ := h.parts.trans hparts
      rw [← List.length_map (f := part)] at hj
      rw [← hmore, firstAnswerOf_append_iff hj] at hi
      exact .inr ⟨k, b, hself, hi⟩
    · rw [hothers j hji]
      refine (h.kept j hj).imp_right ?_
      rintro ⟨k', b', hk', hk'first⟩
      obtain ⟨b'', hb''⟩ := hmem hk'
      exact ⟨k', b'', hb'', hk'first⟩
  · by_cases hji : j = i
    · subst hji
      exact ⟨k, b, hself, hi⟩
    · have hlt' : j < log'.length := by
        have hget := List.getElem?_eq_getElem hlt
        rw [hothers j hji] at hget
        exact (List.getElem?_eq_some_iff.1 hget).1
      obtain ⟨k', b', hk', hk'first⟩ := h.added j hle hlt'
      obtain ⟨b'', hb''⟩ := hmem hk'
      exact ⟨k', b'', hb'', hfirst hk'first⟩
  · by_cases hsame : k' = k
    · rw [recoverAt, if_pos hsame] at hk'
      subst hsame hk'
      exact ⟨i, item, hi, hitem, hshows⟩
    · rw [recoverAt, if_neg hsame] at hk'
      obtain ⟨i', item', hi', hitem', hshows'⟩ := h.landed k' b' hk'
      refine ⟨i', item', hfirst hi', ?_, hshows'⟩
      rw [hothers i' fun heq => hsame ((hfirst hi').1.ask_unique (heq ▸ hi.1))]
      exact hitem'

/-- Answers appended to questions that had none. -/
theorem Lands.of_unanswered {more : List α} {ids : List κ} (hmore : more.map part = ids.map .answer)
    (hnodup : ids.Nodup)
    (hasked : ∀ id ∈ ids, ∃ k b, recovered k b ∧ Unanswered (log.map part) k id)
    (hlanded : ∀ k b, recovered k b → ∃ (n : Nat) (id : κ) (item : α), ids[n]? = some id
      ∧ Unanswered (log.map part) k id ∧ more[n]? = some item ∧ shows item b) :
    Lands part shows recovered log (log ++ more) := by
  have hparts : (log ++ more).map part = log.map part ++ ids.map .answer := by
    rw [List.map_append, hmore]
  have hlength : more.length = ids.length := by
    have h := congrArg List.length hmore
    rwa [List.length_map, List.length_map] at h
  refine ⟨⟨_, hparts.symm⟩, fun i hi => .inl (List.getElem?_append_left hi), fun i hle hlt => ?_,
    fun k b hk => ?_⟩
  · rw [List.length_append, hlength] at hlt
    have hb : i - log.length < ids.length := by omega
    have hn := List.getElem?_eq_getElem hb
    obtain ⟨k, b, hk, hun⟩ := hasked _ (List.mem_of_getElem? hn)
    have hfirst := hun.firstAnswerOf hnodup hn
    rw [List.length_map, Nat.add_sub_cancel' hle] at hfirst
    exact ⟨k, b, hk, hparts ▸ hfirst⟩
  · obtain ⟨n, id, item, hn, hun, hitem, hshows⟩ := hlanded k b hk
    refine ⟨log.length + n, item, ?_, ?_, hshows⟩
    · have hfirst := hun.firstAnswerOf hnodup hn
      rw [List.length_map] at hfirst
      exact hparts ▸ hfirst
    · rw [List.getElem?_append_right (Nat.le_add_right _ _), Nat.add_sub_cancel_left]
      exact hitem

/-! ## Answering at the target -/

/-- A log with the first answer under an id replaced, or one appended. -/
structure AnsweredAt (part : α → LogPart κ) (id : κ) (t : Nat) (log log' : List α) : Prop where
  target : Target (log.map part) id t
  parts : log'.map part = log.map part ∧ t < log.length
    ∨ log'.map part = log.map part ++ [.answer id] ∧ t = log.length
  others : ∀ j, j ≠ t → log'[j]? = log[j]?

variable {id : κ} {t : Nat} {p : α → Bool}

theorem target_of_some (hp : ∀ x, p x = true ↔ part x = .answer id)
    (h : log.findIdx? p = some t) : Target (log.map part) id t ∧ t < log.length := by
  obtain ⟨hlt, hanswer, hfirst⟩ := List.findIdx?_eq_some_iff_getElem.1 h
  have hlt' : t < (log.map part).length := by rwa [List.length_map]
  refine ⟨⟨?_, fun i hi hpart => ?_⟩, hlt⟩
  · rw [List.getElem?_append_left hlt', List.getElem?_map, List.getElem?_eq_getElem hlt,
      Option.map_some, (hp _).1 hanswer]
  · have hilt := hi.trans hlt
    rw [List.getElem?_map, List.getElem?_eq_getElem hilt, Option.map_some] at hpart
    exact hfirst i hi ((hp _).2 (Option.some.inj hpart))

theorem target_of_none (hp : ∀ x, p x = true ↔ part x = .answer id)
    (h : log.findIdx? p = none) : Target (log.map part) id log.length := by
  rw [List.findIdx?_eq_none_iff] at h
  refine ⟨?_, fun i hi hpart => ?_⟩
  · rw [← List.length_map (f := part), List.getElem?_append_right le_rfl, Nat.sub_self]
    rfl
  · rw [List.getElem?_map, List.getElem?_eq_getElem hi, Option.map_some] at hpart
    have hfalse := h _ (List.getElem_mem hi)
    rw [(hp _).2 (Option.some.inj hpart)] at hfalse
    cases hfalse

theorem AnsweredAt.stable (h : AnsweredAt part id t log log') :
    ∃ more, log'.map part = log.map part ++ more ∧ ∀ p ∈ more, ∃ id, p = LogPart.answer id := by
  rcases h.parts with ⟨hparts, -⟩ | ⟨hparts, -⟩
  · exact ⟨[], by rw [hparts, List.append_nil], nofun⟩
  · exact ⟨[.answer id], hparts, fun p hp => ⟨id, List.mem_singleton.1 hp⟩⟩

/-- The questions are the same. -/
theorem AnsweredAt.asks_iff {id' : κ} {j : Nat} (h : AnsweredAt part id t log log')
    (hask : part item = .ask id') : log'[j]? = some item ↔ log[j]? = some item := by
  have hanswer := h.target.answer
  by_cases hjt : j = t
  · subst hjt
    constructor
    · intro hget
      have hpart : (log'.map part)[j]? = some (.ask id') := by
        rw [List.getElem?_map, hget, Option.map_some, hask]
      rcases h.parts with ⟨hparts, hlt⟩ | ⟨hparts, -⟩
      · rw [List.getElem?_append_left (by rwa [List.length_map]), ← hparts, hpart] at hanswer
        cases hanswer
      · rw [hparts, hanswer] at hpart
        cases hpart
    · intro hget
      have hpart : (log.map part)[j]? = some (.ask id') := by
        rw [List.getElem?_map, hget, Option.map_some, hask]
      rw [List.getElem?_append_left (lt_length_of_part hpart), hpart] at hanswer
      cases hanswer
  · rw [h.others j hjt]

/-- The answer is that of the question that owns the first one under the id. -/
theorem AnsweredAt.first_iff (h : AnsweredAt part id t log log') :
    FirstAnswerOf (log'.map part) k t ↔ OwnsFirst (log.map part) k id := by
  rw [← firstAnswerOf_target_iff h.target]
  rcases h.parts with ⟨hparts, hlt⟩ | ⟨hparts, -⟩
  · rw [hparts, firstAnswerOf_append_iff (by rwa [List.length_map])]
  · rw [hparts]

/-- The answers to any other question are left, and none is added. -/
theorem AnsweredAt.untouched (h : AnsweredAt part id t log log')
    (hk : ¬OwnsFirst (log.map part) k id) (hi : FirstAnswerOf (log'.map part) k i) :
    FirstAnswerOf (log.map part) k i ∧ log'[i]? = log[i]? := by
  have hit : i ≠ t := fun heq => hk (h.first_iff.1 (heq ▸ hi))
  have hlt := hi.1.lt_length
  rw [List.length_map] at hlt
  have hget := List.getElem?_eq_getElem hlt
  rw [h.others i hit] at hget
  have hilt : i < (log.map part).length := by
    rw [List.length_map]
    exact (List.getElem?_eq_some_iff.1 hget).1
  obtain ⟨more, hmore, -⟩ := h.stable
  rw [hmore, firstAnswerOf_append_iff hilt] at hi
  exact ⟨hi, h.others i hit⟩

end Landing

end LingxiOS
