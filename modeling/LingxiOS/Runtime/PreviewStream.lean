-- SUMMARY: What a receiver holds of a preview, in every interleaving.
import LingxiOS.Runtime.Preview
import Mathlib.Data.List.Nodup

/-! # Preview Agreement

Between the receiver and the buffer stand the frames a consumer still has to be
handed: the rest of its batch, while that is of the current generation, and the
pending frames. Fed to the receiver one by one they are all taken, and they lead
to the buffer's draft. This is the invariant; a producer changes the end of that
list or starts it over, a consumer takes its head. -/

namespace LingxiOS.Preview

variable {fence : Nat}

/-! ## Frames in turn -/

structure Identity.Valid (identity : Identity) : Prop where
  version_pos : 0 < identity.requestVersion
  version_safe : identity.requestVersion ≤ maxSafeInteger
  id_pos : 0 < Text.length identity.attemptId
  id_le : Text.length identity.attemptId ≤ 256

theorem Attempt.valid (attempt : Attempt) : attempt.toIdentity.Valid :=
  ⟨attempt.version_pos, attempt.version_safe, attempt.id_pos, attempt.id_le⟩

/-- A frame that is valid as far as its number is not too large. -/
structure PreviewFrame.WellFormed (frame : PreviewFrame) : Prop where
  identity : frame.toIdentity.Valid
  seq_pos : 0 < frame.seq
  text_le : frame.text.length ≤ 16384
  text_reset : frame.kind = .reset → frame.text = []

theorem PreviewFrame.WellFormed.valid {frame : PreviewFrame} (h : frame.WellFormed)
    (hseq : frame.seq ≤ maxSafeInteger) : isPreviewFrame frame = true := by
  have hkind : frame.kind = .delta ∨ frame.kind = .reset ∧ frame.text = [] := by
    cases hkind : frame.kind with
    | delta => exact .inl rfl
    | reset => exact .inr ⟨rfl, h.text_reset hkind⟩
  simp [isPreviewFrame, h.identity.version_pos, h.identity.version_safe, h.identity.id_pos,
    h.identity.id_le, h.seq_pos, h.text_le, hseq, hkind]

/-- A receiver takes the frame: a reset that comes later, or a delta that comes next. -/
def Takes (fence : Nat) (prior : Option PreviewSnapshot) (frame : PreviewFrame) : Prop :=
  frame.WellFormed ∧
    match frame.kind with
    | .reset => ∀ s, prior = some s →
        s.fence = fence ∧ s.seq < frame.seq ∧ s.requestVersion ≤ frame.requestVersion
    | .delta => ∃ s, prior = some s ∧ s.fence = fence ∧ s.toIdentity = frame.toIdentity ∧
        frame.seq = s.seq + 1 ∧ s.draft.length + frame.text.length ≤ 100000

theorem receive_reset {prior : Option PreviewSnapshot} {frame : PreviewFrame}
    (h : Takes fence prior frame) (hkind : frame.kind = .reset) :
    receive fence prior frame = some ⟨frame.toIdentity, fence, frame.seq, []⟩ := by
  obtain ⟨-, htakes⟩ := h
  rw [hkind] at htakes
  cases prior with
  | none => simp [receive, hkind]
  | some s =>
      obtain ⟨hfence, hseq, hversion⟩ := htakes s rfl
      have hlater : ¬ (fence < s.fence ∨ frame.requestVersion < s.requestVersion ∨
          (s.fence = fence ∧ frame.seq ≤ s.seq)) := by omega
      simp only [receive, hlater, if_false, hkind, if_true]

theorem receive_delta {prior : Option PreviewSnapshot} {frame : PreviewFrame}
    (h : Takes fence prior frame) (hkind : frame.kind = .delta) :
    ∃ s, prior = some s ∧ s.toIdentity = frame.toIdentity ∧ receive fence prior frame
      = some ⟨frame.toIdentity, fence, frame.seq, s.draft ++ frame.text⟩ := by
  obtain ⟨-, htakes⟩ := h
  rw [hkind] at htakes
  obtain ⟨s, rfl, hfence, hidentity, hseq, hlength⟩ := htakes
  have hversion : s.requestVersion = frame.requestVersion :=
    congrArg Identity.requestVersion hidentity
  have hlater : ¬ (fence < s.fence ∨ frame.requestVersion < s.requestVersion ∨
      (s.fence = fence ∧ frame.seq ≤ s.seq)) := by omega
  refine ⟨s, rfl, hidentity, ?_⟩
  simp only [receive, hlater, if_false, hkind, reduceCtorEq]
  rw [if_pos ⟨hfence, hidentity, hseq, hlength⟩]
  obtain ⟨identity, fence', seq, draft⟩ := s
  simp only at hidentity hfence
  rw [hidentity, hfence]

/-- What is held after a frame that is taken is of that frame. -/
theorem receive_of_takes {prior : Option PreviewSnapshot} {frame : PreviewFrame}
    (h : Takes fence prior frame) : ∃ draft,
      receive fence prior frame = some ⟨frame.toIdentity, fence, frame.seq, draft⟩ := by
  cases hkind : frame.kind with
  | reset => exact ⟨_, receive_reset h hkind⟩
  | delta =>
      obtain ⟨s, -, -, hreceive⟩ := receive_delta h hkind
      exact ⟨_, hreceive⟩

/-- Frames that are taken one after the other. -/
inductive Feeds (fence : Nat) : Option PreviewSnapshot → List PreviewFrame →
    Option PreviewSnapshot → Prop where
  | nil (s : Option PreviewSnapshot) : Feeds fence s [] s
  | cons {s final : Option PreviewSnapshot} {frame : PreviewFrame} {rest : List PreviewFrame} :
      Takes fence s frame → Feeds fence (receive fence s frame) rest final →
      Feeds fence s (frame :: rest) final

theorem Feeds.append {s t u : Option PreviewSnapshot} {xs ys : List PreviewFrame}
    (h : Feeds fence s xs t) (h' : Feeds fence t ys u) : Feeds fence s (xs ++ ys) u := by
  induction h with
  | nil => exact h'
  | cons htakes _ ih => exact .cons htakes (ih h')

theorem Feeds.split {s u : Option PreviewSnapshot} {xs ys : List PreviewFrame}
    (h : Feeds fence s (xs ++ ys) u) : ∃ t, Feeds fence s xs t ∧ Feeds fence t ys u := by
  induction xs generalizing s with
  | nil => exact ⟨s, .nil s, h⟩
  | cons frame xs ih =>
      cases h with
      | cons htakes hrest =>
          obtain ⟨t, hxs, hys⟩ := ih hrest
          exact ⟨t, .cons htakes hxs, hys⟩

theorem Feeds.nil_eq {s t : Option PreviewSnapshot} (h : Feeds fence s [] t) : s = t := by
  cases h
  rfl

/-- Deltas keep the attempt and only add text. -/
theorem Feeds.deltas {s : PreviewSnapshot} {frames : List PreviewFrame}
    {final : Option PreviewSnapshot} (h : Feeds fence (some s) frames final)
    (hdelta : ∀ frame ∈ frames, frame.kind = .delta) :
    ∃ t, final = some t ∧ t.toIdentity = s.toIdentity ∧ s.draft <+: t.draft ∧ s.seq ≤ t.seq := by
  induction frames generalizing s with
  | nil => exact ⟨s, h.nil_eq.symm, rfl, List.prefix_refl _, Nat.le_refl _⟩
  | cons frame rest ih =>
      cases h with
      | cons htakes hrest =>
          obtain ⟨hkind, hkinds⟩ := List.forall_mem_cons.1 hdelta
          obtain ⟨s', hs', hidentity, hreceive⟩ := receive_delta htakes hkind
          cases hs'
          obtain ⟨-, hdelta⟩ := htakes
          rw [hkind] at hdelta
          obtain ⟨s', hs', -, -, hnext, -⟩ := hdelta
          cases hs'
          rw [hreceive] at hrest
          obtain ⟨t, hfinal, hsame, hprefix, hseq⟩ := ih hrest hkinds
          exact ⟨t, hfinal, hsame.trans hidentity.symm, (List.prefix_append _ _).trans hprefix,
            Nat.le_trans (by rw [hnext]; exact Nat.le_succ _) hseq⟩

/-- Numbered deltas in turn. -/
theorem feeds_deltas {identity : Identity} (hvalid : identity.Valid) {texts : List Units}
    (htexts : ∀ text ∈ texts, text.length ≤ 16384) {seq : Nat} {draft : Units}
    (hlength : (draft ++ texts.flatten).length ≤ 100000) :
    Feeds fence (some ⟨identity, fence, seq, draft⟩) (deltas identity (seq + 1) texts)
      (some ⟨identity, fence, seq + texts.length, draft ++ texts.flatten⟩) := by
  induction texts generalizing seq draft with
  | nil => simpa [Preview.deltas] using Feeds.nil _
  | cons text texts ih =>
      obtain ⟨htext, hrest⟩ := List.forall_mem_cons.1 htexts
      simp only [List.flatten_cons, ← List.append_assoc] at hlength ⊢
      have htakes : Takes fence (some ⟨identity, fence, seq, draft⟩)
          ⟨identity, seq + 1, .delta, text⟩ := by
        refine ⟨⟨hvalid, Nat.succ_pos _, htext, fun h => by cases h⟩, _, rfl, rfl, rfl, rfl, ?_⟩
        simp only [List.length_append] at hlength ⊢
        omega
      obtain ⟨s, hs, -, hreceive⟩ := receive_delta htakes rfl
      cases hs
      have hfeeds : Feeds fence (some ⟨identity, fence, seq + 1, draft ++ text⟩)
          (deltas identity (seq + 1 + 1) texts) _ := ih hrest hlength
      rw [← hreceive] at hfeeds
      have hseq : seq + (text :: texts).length = seq + 1 + texts.length := by
        simp only [List.length_cons]; omega
      rw [hseq]
      exact .cons htakes hfeeds

/-- The slices of a draft make up the draft. -/
theorem slices_flatten {size : Nat} (hsize : 0 < size) (draft : Units) :
    (slices size draft).flatten = draft := by
  have hprefix : ∀ k, ((List.range k).map fun i => (draft.drop (i * size)).take size).flatten
      = draft.take (k * size) := by
    intro k
    induction k with
    | zero => simp
    | succ k ih =>
        rw [List.range_succ, List.map_append, List.flatten_append, ih]
        simp [Nat.succ_mul, List.take_add]
  rw [slices, hprefix, List.take_of_length_le]
  have := Nat.div_add_mod (draft.length + size - 1) size
  have := Nat.mod_lt (draft.length + size - 1) hsize
  rw [Nat.mul_comm]
  omega

theorem length_of_mem_slices {size : Nat} {draft text : Units} (h : text ∈ slices size draft) :
    text.length ≤ size := by
  obtain ⟨i, -, rfl⟩ := List.mem_map.1 h
  exact List.length_take_le _ _

/-! ## What a producer does -/

/-- Nothing is pushed until there is another reset. -/
def PreviewBuffer.Idle (buffer : PreviewBuffer) : Prop :=
  buffer.draft = [] ∧ (buffer.enabled = false ∨ buffer.closed = true)

/-- The buffer before its first reset. -/
structure PreviewBuffer.Unnamed (buffer : PreviewBuffer) : Prop where
  id : buffer.identity.attemptId = ""
  pending : buffer.pending = []
  draft : buffer.draft = []
  enabled : buffer.enabled = false

structure PreviewBuffer.Sane (buffer : PreviewBuffer) : Prop where
  draft_le : buffer.draft.length ≤ 100000
  named : buffer.identity.Valid ∨ buffer.Unnamed

theorem Identity.Valid.ne {identity : Identity} (h : identity.Valid) : identity.attemptId ≠ "" := by
  intro he
  have := h.id_pos
  rw [he] at this
  exact absurd this (by decide)

namespace PreviewBuffer

/-- No frame comes or goes. -/
structure Stays (b b' : PreviewBuffer) : Prop where
  pending : b'.pending = b.pending
  seq : b'.seq = b.seq
  identity : b'.identity = b.identity
  draft : b'.draft = b.draft
  generation : b'.generation = b.generation
  enabled : b'.enabled = b.enabled
  closed : b.closed = true → b'.closed = true
  consumer : b.consumer ≤ b'.consumer

/-- The draft grows, in the last pending delta or in a new one. -/
structure Grows (b b' : PreviewBuffer) (text : Units) : Prop where
  draft : b'.draft = b.draft ++ text
  length : b'.draft.length ≤ 100000
  active : ¬ b.Idle
  identity : b'.identity = b.identity
  generation : b'.generation = b.generation
  consumer : b'.consumer = b.consumer
  grown : (b'.pending = b.pending ++ [⟨b.identity, b.seq + 1, .delta, text⟩] ∧
      b'.seq = b.seq + 1 ∧ text.length ≤ 16384) ∨
    ∃ front last, b.pending = front ++ [last] ∧ last.kind = .delta ∧
      b'.pending = front ++ [{ last with text := last.text ++ text }] ∧ b'.seq = b.seq ∧
      (last.text ++ text).length ≤ 16384

/-- A new generation: a reset and the whole draft after it. -/
structure Restarts (b b' : PreviewBuffer) (texts : List Units) : Prop where
  pending : b'.pending = ⟨b'.identity, b.seq + 1, .reset, []⟩ :: deltas b'.identity (b.seq + 2) texts
  seq : b'.seq = b.seq + 1 + texts.length
  draft : b'.draft = texts.flatten
  length : b'.draft.length ≤ 100000
  texts_le : ∀ text ∈ texts, text.length ≤ 16384
  generation : b'.generation = b.generation + 1
  identity : b'.identity.Valid
  version : b.identity.requestVersion ≤ b'.identity.requestVersion
  consumer : b.consumer ≤ b'.consumer

/-- Everything a producer can do to a buffer. -/
def Produced (b b' : PreviewBuffer) : Prop :=
  b.Stays b' ∨ (∃ text, b.Grows b' text) ∨ ∃ texts, b.Restarts b' texts

theorem stays_flush (b : PreviewBuffer) : b.Stays b.flush :=
  ⟨rfl, rfl, rfl, rfl, rfl, rfl, id, Nat.le_refl _⟩

theorem Stays.refl (b : PreviewBuffer) : b.Stays b :=
  ⟨rfl, rfl, rfl, rfl, rfl, rfl, id, Nat.le_refl _⟩

theorem produced_reset (b : PreviewBuffer) {identity : Identity} (hvalid : identity.Valid)
    (hversion : b.identity.requestVersion ≤ identity.requestVersion) (enabled : Bool) :
    b.Produced (b.reset identity enabled) := by
  unfold reset
  split
  · exact .inl (.refl b)
  · exact .inr (.inr ⟨[], rfl, rfl, rfl, Nat.zero_le _, by simp, rfl, hvalid, hversion, Nat.le_refl _⟩)

theorem replay_cases {b : PreviewBuffer} (h : b.Sane) :
    b.Stays b.replay ∨ ∃ texts, b.Restarts b.replay texts := by
  unfold replay
  split
  · exact .inl (.refl b)
  · split
    · exact .inl b.stays_flush
    · rename_i hid
      rcases h.named with hvalid | hunnamed
      · refine .inr ⟨slices 16384 b.draft, rfl, rfl, ?_, h.draft_le, ?_, rfl, hvalid, Nat.le_refl _,
          Nat.le_refl _⟩
        · exact (slices_flatten (by decide) b.draft).symm
        · exact fun text htext => length_of_mem_slices htext
      · exact absurd hunnamed.id hid

theorem produced_replay {b : PreviewBuffer} (h : b.Sane) : b.Produced b.replay :=
  (replay_cases h).imp_right .inr

theorem produced_recover {b : PreviewBuffer} (h : b.Sane) :
    b.Produced b.recover ∧ b.consumer < b.recover.consumer := by
  have hsane : Sane { b with consumer := b.consumer + 1 } :=
    ⟨h.draft_le, h.named.imp_right fun hu => ⟨hu.id, hu.pending, hu.draft, hu.enabled⟩⟩
  rcases replay_cases hsane with hs | ⟨texts, hr⟩
  · exact ⟨.inl ⟨hs.pending, hs.seq, hs.identity, hs.draft, hs.generation, hs.enabled, hs.closed,
      Nat.le_of_succ_le hs.consumer⟩, hs.consumer⟩
  · exact ⟨.inr (.inr ⟨texts, hr.pending, hr.seq, hr.draft, hr.length, hr.texts_le, hr.generation,
      hr.identity, hr.version, Nat.le_of_succ_le hr.consumer⟩), hr.consumer⟩

/-- A draft that grows before the frames are rebuilt. -/
theorem Restarts.of_draft {b b' : PreviewBuffer} {draft : Units} {texts : List Units}
    (h : Restarts { b with draft := draft } b' texts) : b.Restarts b' texts :=
  ⟨h.pending, h.seq, h.draft, h.length, h.texts_le, h.generation, h.identity, h.version,
    h.consumer⟩

theorem grows_extend {b : PreviewBuffer} {text : Units} (hactive : ¬ b.Idle)
    (hlength : b.draft.length + text.length ≤ 100000)
    (htext : (b.lastText.getD []).length + text.length ≤ 16384) :
    b.Grows ({ b with draft := b.draft ++ text }.extend text) text := by
  have hle : (b.draft ++ text).length ≤ 100000 := by simpa using hlength
  unfold extend
  cases hlast : b.pending.getLast? with
  | none =>
      have hnil : b.pending = [] := List.getLast?_eq_none_iff.1 hlast
      refine ⟨rfl, hle, hactive, rfl, rfl, rfl, .inl ⟨?_, rfl, by omega⟩⟩
      simp [hnil]
  | some last =>
      obtain ⟨front, hpending⟩ := List.getLast?_eq_some_iff.1 hlast
      dsimp only
      by_cases hkind : last.kind = .delta
      · rw [if_pos hkind]
        refine ⟨rfl, hle, hactive, rfl, rfl, rfl, .inr ⟨front, last, hpending, hkind, ?_, rfl, ?_⟩⟩
        · simp [hpending]
        · simpa [lastText, hlast, Option.filter, hkind] using htext
      · rw [if_neg hkind]
        exact ⟨rfl, hle, hactive, rfl, rfl, rfl, .inl ⟨rfl, rfl, by omega⟩⟩

theorem Grows.schedule {b b' : PreviewBuffer} {text : Units} (h : b.Grows b' text) :
    b.Grows b'.schedule text := by
  unfold PreviewBuffer.schedule
  split
  · exact ⟨h.draft, h.length, h.active, h.identity, h.generation, h.consumer, h.grown⟩
  · exact ⟨h.draft, h.length, h.active, h.identity, h.generation, h.consumer, h.grown⟩

@[simp] theorem reset_consumer (b : PreviewBuffer) (identity : Identity) (enabled : Bool) :
    (b.reset identity enabled).consumer = b.consumer := by
  unfold reset
  split <;> rfl

@[simp] theorem replay_consumer (b : PreviewBuffer) : b.replay.consumer = b.consumer := by
  unfold replay
  split
  · rfl
  · split <;> rfl

@[simp] theorem push_consumer (b : PreviewBuffer) (text : Units) :
    (b.push text).consumer = b.consumer := by
  have hextend : ∀ b : PreviewBuffer, (b.extend text).consumer = b.consumer := by
    intro b
    unfold extend
    split
    · split <;> rfl
    · rfl
  unfold push
  split
  · rfl
  · split
    · simp
    · dsimp only
      split
      · simp
      · unfold schedule
        split <;> exact hextend _

@[simp] theorem discard_consumer (b : PreviewBuffer) : b.discard.consumer = b.consumer := by
  unfold discard
  split
  · rfl
  · simp

theorem produced_discard {b : PreviewBuffer} (h : b.Sane) : b.Produced b.discard := by
  unfold discard
  split
  · exact .inl (.refl b)
  · rename_i hid
    rcases h.named with hvalid | hunnamed
    · exact produced_reset b hvalid (Nat.le_refl _) false
    · exact absurd hunnamed.id hid

theorem produced_push {b : PreviewBuffer} (h : b.Sane) (text : Units) : b.Produced (b.push text) := by
  unfold push
  split
  · exact .inl (.refl b)
  · rename_i hactive
    simp only [Bool.or_eq_true, Bool.not_eq_true', not_or, Bool.not_eq_false,
      Bool.not_eq_true] at hactive
    obtain ⟨⟨henabled, hclosed⟩, -⟩ := hactive
    have hvalid : b.identity.Valid := by
      rcases h.named with hvalid | hunnamed
      · exact hvalid
      · rw [hunnamed.enabled] at henabled
        cases henabled
    split
    · exact produced_reset b hvalid (Nat.le_refl _) false
    · rename_i hlength
      have hsane : Sane { b with draft := b.draft ++ text } :=
        ⟨by simpa using hlength, .inl hvalid⟩
      dsimp only
      split
      · rcases replay_cases hsane with hstays | ⟨texts, hrestarts⟩
        · -- an enabled buffer that is not closed does rebuild its frames
          have hgeneration := hstays.generation
          simp [replay, hclosed, hvalid.ne, flush] at hgeneration
        · exact .inr (.inr ⟨texts, hrestarts.of_draft⟩)
      · rename_i htext
        have hnotidle : ¬ b.Idle := by
          rintro ⟨-, hidle⟩
          rcases hidle with hidle | hidle
          · rw [henabled] at hidle; cases hidle
          · rw [hclosed] at hidle; cases hidle
        exact .inr (.inl ⟨text, (grows_extend hnotidle (by omega) (by omega)).schedule⟩)

end PreviewBuffer

theorem PreviewBuffer.Produced.sane {b b' : PreviewBuffer} (h : b.Produced b') (hsane : b.Sane) :
    b'.Sane := by
  rcases h with hstays | ⟨text, hgrows⟩ | ⟨texts, hrestarts⟩
  · refine ⟨by rw [hstays.draft]; exact hsane.draft_le, ?_⟩
    rw [hstays.identity]
    refine hsane.named.imp_right fun hunnamed => ⟨?_, ?_, ?_, ?_⟩
    · rw [hstays.identity]; exact hunnamed.id
    · rw [hstays.pending]; exact hunnamed.pending
    · rw [hstays.draft]; exact hunnamed.draft
    · rw [hstays.enabled]; exact hunnamed.enabled
  · refine ⟨hgrows.length, ?_⟩
    rcases hsane.named with hvalid | hunnamed
    · rw [hgrows.identity]
      exact .inl hvalid
    · exact absurd ⟨hunnamed.draft, .inl hunnamed.enabled⟩ hgrows.active
  · exact ⟨hrestarts.length, .inl hrestarts.identity⟩

/-! ## What is still to come -/

/-- What a receiver is to hold in the end. -/
def Target (fence : Nat) (b : PreviewBuffer) (final : Option PreviewSnapshot) : Prop :=
  final = some ⟨b.identity, fence, b.seq, b.draft⟩ ∨ (final = none ∧ b.Idle)

/-- The frames still to come lead from what a receiver holds to the buffer's draft, and
    only the first of them may be a reset. -/
def Agrees (fence : Nat) (b : PreviewBuffer) (prior : Option PreviewSnapshot)
    (frames : List PreviewFrame) : Prop :=
  (∀ frame ∈ frames.tail, frame.kind = .delta) ∧
    ∃ final, Feeds fence prior frames final ∧ Target fence b final

theorem Agrees.stays {b b' : PreviewBuffer} (h : b.Stays b') {prior : Option PreviewSnapshot}
    {frames : List PreviewFrame} (hagrees : Agrees fence b prior frames) :
    Agrees fence b' prior frames := by
  obtain ⟨hlater, final, hfeeds, htarget⟩ := hagrees
  refine ⟨hlater, final, hfeeds, ?_⟩
  rcases htarget with hsome | ⟨hnone, hdraft, hidle⟩
  · left
    rw [hsome, h.identity, h.seq, h.draft]
  · refine .inr ⟨hnone, h.draft.trans hdraft, ?_⟩
    rw [h.enabled]
    exact hidle.imp_right h.closed

theorem mem_tail_append_singleton {α : Type} {xs : List α} {x y : α}
    (h : y ∈ (xs ++ [x]).tail) : y ∈ xs.tail ∨ y = x := by
  cases xs with
  | nil => simp at h
  | cons a xs => simpa using h

theorem Agrees.grows {b b' : PreviewBuffer} {text : Units} {prior : Option PreviewSnapshot}
    {front : List PreviewFrame} (hagrees : Agrees fence b prior (front ++ b.pending))
    (h : b.Grows b' text) (hsane : b.Sane) :
    Agrees fence b' prior (front ++ b'.pending) := by
  obtain ⟨hlater, final, hfeeds, htarget⟩ := hagrees
  have hfinal : final = some ⟨b.identity, fence, b.seq, b.draft⟩ := by
    rcases htarget with hsome | ⟨-, hidle⟩
    · exact hsome
    · exact absurd hidle h.active
  have hvalid : b.identity.Valid := by
    rcases hsane.named with hvalid | hunnamed
    · exact hvalid
    · exact absurd ⟨hunnamed.draft, .inl hunnamed.enabled⟩ h.active
  have hlength : (b.draft ++ text).length ≤ 100000 := by
    have := h.length
    rwa [h.draft] at this
  subst hfinal
  rcases h.grown with ⟨hpending, hseq, htext⟩ | ⟨rest, last, hpending, hkind, hpending', hseq, htext⟩
  · have htakes : Takes fence (some ⟨b.identity, fence, b.seq, b.draft⟩)
        ⟨b.identity, b.seq + 1, .delta, text⟩ :=
      ⟨⟨hvalid, Nat.succ_pos _, htext, fun h => by cases h⟩, _, rfl, rfl, rfl, rfl,
        by simpa using hlength⟩
    obtain ⟨s, hs, -, hreceive⟩ := receive_delta htakes rfl
    cases hs
    rw [hpending, ← List.append_assoc]
    refine ⟨?_, _, hfeeds.append (.cons htakes (.nil _)), .inl ?_⟩
    · intro frame hframe
      rcases mem_tail_append_singleton hframe with hframe | rfl
      · exact hlater frame hframe
      · rfl
    · rw [hreceive, h.identity, hseq, h.draft]
  · rw [hpending, ← List.append_assoc] at hfeeds hlater
    obtain ⟨t, hbefore, hlast⟩ := hfeeds.split
    cases hlast with
    | cons htakes hnil =>
        obtain ⟨s, rfl, hidentity, hreceive⟩ := receive_delta htakes hkind
        rw [hreceive] at hnil
        have heq := Option.some.inj hnil.nil_eq
        have hid : last.toIdentity = b.identity := congrArg PreviewSnapshot.toIdentity heq
        have hnumber : last.seq = b.seq := congrArg PreviewSnapshot.seq heq
        have hdraft : s.draft ++ last.text = b.draft := congrArg PreviewSnapshot.draft heq
        have htakes' : Takes fence (some s) { last with text := last.text ++ text } := by
          obtain ⟨hwell, hdelta⟩ := htakes
          rw [hkind] at hdelta
          obtain ⟨s', hs', hfence, hsame, hnext, -⟩ := hdelta
          cases hs'
          refine ⟨⟨hwell.identity, hwell.seq_pos, htext, fun hreset => ?_⟩, ?_⟩
          · rw [hkind] at hreset
            cases hreset
          · rw [hkind]
            refine ⟨s, rfl, hfence, hsame, hnext, ?_⟩
            rw [← hdraft] at hlength
            simp only [List.length_append] at hlength ⊢
            omega
        obtain ⟨s', hs', -, hreceive'⟩ := receive_delta htakes' hkind
        cases hs'
        rw [hpending', ← List.append_assoc]
        refine ⟨?_, _, hbefore.append (.cons htakes' (.nil _)), .inl ?_⟩
        · intro frame hframe
          rcases mem_tail_append_singleton hframe with hframe | rfl
          · refine hlater frame ?_
            cases hxs : front ++ rest with
            | nil => rw [hxs] at hframe; cases hframe
            | cons x xs =>
                rw [hxs] at hframe
                exact List.mem_append_left _ hframe
          · exact hkind
        · rw [hreceive', h.identity, hseq, h.draft, ← hdraft, ← hnumber, ← hid, List.append_assoc]

/-- What a receiver holds is not ahead of the buffer. -/
def Behind (fence : Nat) (b : PreviewBuffer) (prior : Option PreviewSnapshot) : Prop :=
  ∀ s, prior = some s →
    s.fence = fence ∧ s.seq ≤ b.seq ∧ s.requestVersion ≤ b.identity.requestVersion

theorem Agrees.restarts {b b' : PreviewBuffer} {texts : List Units} (h : b.Restarts b' texts)
    {prior : Option PreviewSnapshot} (hbehind : Behind fence b prior) :
    Agrees fence b' prior b'.pending := by
  have htakes : Takes fence prior ⟨b'.identity, b.seq + 1, .reset, []⟩ := by
    refine ⟨⟨h.identity, Nat.succ_pos _, Nat.zero_le _, fun _ => rfl⟩, fun s hs => ?_⟩
    obtain ⟨hfence, hseq, hversion⟩ := hbehind s hs
    exact ⟨hfence, Nat.lt_succ_of_le hseq, Nat.le_trans hversion h.version⟩
  have hlength : ([] ++ texts.flatten).length ≤ 100000 := by
    have := h.length
    rwa [h.draft] at this
  have hfeeds : Feeds fence (some ⟨b'.identity, fence, b.seq + 1, []⟩)
      (deltas b'.identity (b.seq + 1 + 1) texts) _ := feeds_deltas h.identity h.texts_le hlength
  rw [← receive_reset htakes rfl] at hfeeds
  rw [h.pending]
  refine ⟨?_, _, .cons htakes hfeeds, .inl ?_⟩
  · intro frame hframe
    have hdeltas : ∀ (ts : List Units) (seq : Nat), ∀ f ∈ deltas b'.identity seq ts,
        f.kind = .delta := by
      intro ts
      induction ts with
      | nil => simp [deltas]
      | cons t ts ih =>
          intro seq f hf
          rcases List.mem_cons.1 hf with rfl | hf
          · rfl
          · exact ih _ f hf
    exact hdeltas texts _ frame hframe
  · rw [h.seq, h.draft, List.nil_append]

/-- The head of what is to come is taken, and belongs to the buffer's attempt. -/
theorem Agrees.head {b : PreviewBuffer} {prior : Option PreviewSnapshot} {frame : PreviewFrame}
    {rest : List PreviewFrame} (h : Agrees fence b prior (frame :: rest)) :
    Takes fence prior frame ∧ frame.toIdentity = b.identity ∧
      (∃ s, receive fence prior frame = some s ∧ s.draft <+: b.draft ∧ s.seq ≤ b.seq) ∧
      Agrees fence b (receive fence prior frame) rest := by
  obtain ⟨hlater, final, hfeeds, htarget⟩ := h
  cases hfeeds with
  | cons htakes hrest =>
      obtain ⟨draft, hreceive⟩ := receive_of_takes htakes
      have hrest' := hrest
      rw [hreceive] at hrest'
      obtain ⟨t, rfl, hidentity, hprefix, hseq⟩ := hrest'.deltas hlater
      rcases htarget with hsome | ⟨hnone, -⟩
      · cases hsome
        refine ⟨htakes, hidentity.symm, ⟨_, hreceive, hprefix, hseq⟩, ?_, _, hrest, .inl rfl⟩
        exact fun f hf => hlater f (List.mem_of_mem_tail hf)
      · cases hnone

/-! ## What a consumer does -/

namespace Consumer

/-- The frames a consumer is still to be handed, as long as it is the current one. -/
def remaining (b : PreviewBuffer) (phase : Phase) : List PreviewFrame :=
  (match phase with
    | .batch frames generation => if generation = b.generation then frames else []
    | _ => []) ++ b.pending

end Consumer

/-- What a consumer leaves as it is. -/
structure PreviewBuffer.Same (b b' : PreviewBuffer) : Prop where
  seq : b'.seq = b.seq
  identity : b'.identity = b.identity
  draft : b'.draft = b.draft
  generation : b'.generation = b.generation
  enabled : b'.enabled = b.enabled
  closed : b'.closed = b.closed
  consumer : b'.consumer = b.consumer

/-- What an advance of a consumer can do: it is handed nothing, or, being the current
    one, the first of the frames still to come. -/
structure Advance.Fair (b : PreviewBuffer) (consumer : Nat) (phase : Phase) (result : Advance) :
    Prop where
  same : b.Same result.buffer
  generation : ∀ frames generation, result.phase = .batch frames generation →
    generation = b.generation
  quiet : result.frame = none → result.buffer.pending = b.pending ∧
    (consumer = b.consumer →
      Consumer.remaining result.buffer result.phase = Consumer.remaining b phase)
  hand : ∀ frame, result.frame = some frame → consumer = b.consumer ∧
    Consumer.remaining b phase = frame :: Consumer.remaining result.buffer result.phase ∧
    (result.buffer.pending = b.pending ∨ result.buffer.pending = [])

namespace PreviewBuffer

theorem Same.refl (b : PreviewBuffer) : b.Same b := ⟨rfl, rfl, rfl, rfl, rfl, rfl, rfl⟩

theorem same_wake (b : PreviewBuffer) (wake : Option Nat) : b.Same { b with wake := wake } :=
  ⟨rfl, rfl, rfl, rfl, rfl, rfl, rfl⟩

/-- A phase with no frame of the current generation left. -/
def Empty (b : PreviewBuffer) (phase : Phase) : Prop := Consumer.remaining b phase = b.pending

theorem fair_stop {b : PreviewBuffer} {consumer : Nat} {phase : Phase}
    (h : consumer = b.consumer → b.Empty phase) :
    Advance.Fair b consumer phase { buffer := b, phase := .done } :=
  ⟨.refl b, fun _ _ h => (by cases h), fun _ => ⟨rfl, fun hc => (h hc).symm⟩,
    fun _ h => (by cases h)⟩

theorem fair_wait {b : PreviewBuffer} {phase : Phase} (h : b.Empty phase) (consumer : Nat) :
    Advance.Fair b consumer phase
      { buffer := { b with wake := some consumer }, phase := .waiting } :=
  ⟨same_wake b _, fun _ _ h => (by cases h), fun _ => ⟨rfl, fun _ => h.symm⟩,
    fun _ h => (by cases h)⟩

theorem fair_collect {b : PreviewBuffer} {phase : Phase} (h : b.Empty phase) (consumer : Nat) :
    Advance.Fair b consumer phase (b.collect consumer) := by
  unfold collect
  split
  · rename_i hne
    exact fair_stop fun hc => absurd hc hne
  · rename_i hcurrent
    split
    · split
      · exact fair_stop fun _ => h
      · exact fair_wait h consumer
    · rename_i frame rest hpending
      refine ⟨⟨rfl, rfl, rfl, rfl, rfl, rfl, rfl⟩, ?_, fun h => (by cases h), ?_⟩
      · intro frames generation hphase
        cases hphase
        rfl
      · intro first hfirst
        cases hfirst
        refine ⟨not_not.1 hcurrent, ?_, .inr rfl⟩
        rw [h, hpending]
        simp [Consumer.remaining]

theorem fair_top {b : PreviewBuffer} {phase : Phase} (h : b.Empty phase) (consumer : Nat) :
    Advance.Fair b consumer phase (b.top consumer) := by
  unfold top
  split
  · exact fair_wait h consumer
  · exact fair_collect h consumer

theorem fair_next (b : PreviewBuffer) (consumer : Nat) (frames : List PreviewFrame)
    (generation : Nat) : Advance.Fair b consumer (.batch frames generation)
      (b.next consumer frames generation) := by
  have hover : b.Empty (.batch frames generation) → Advance.Fair b consumer
      (.batch frames generation)
      (if b.closed && b.pending.isEmpty then { buffer := b, phase := .done }
        else b.top consumer) := by
    intro hempty
    split
    · exact fair_stop fun _ => hempty
    · exact fair_top hempty consumer
  unfold next
  cases frames with
  | nil => exact hover (by simp [Empty, Consumer.remaining])
  | cons frame rest =>
      dsimp only
      split
      · rename_i hne
        exact fair_stop fun hc => absurd hc hne
      · rename_i hcurrent
        split
        · rename_i hstale
          exact hover (by simp [Empty, Consumer.remaining, hstale])
        · rename_i hgeneration
          have hgeneration := not_not.1 hgeneration
          refine ⟨.refl b, ?_, fun h => (by cases h), ?_⟩
          · intro frames' generation' hphase
            cases hphase
            exact hgeneration
          · intro first hfirst
            cases hfirst
            exact ⟨not_not.1 hcurrent, by simp [Consumer.remaining, hgeneration], .inl rfl⟩

end PreviewBuffer

/-! ## The invariant -/

/-- `Delivered`, but for the size of the number. -/
structure Told (fence : Nat) (before : List Delivery) (delivery : Delivery) : Prop where
  wellFormed : delivery.frame.WellFormed
  increasing : ∀ earlier ∈ before, earlier.frame.seq < delivery.frame.seq
  contiguous : delivery.frame.kind = .delta →
    ∃ last, before.getLast? = some last ∧ delivery.frame.seq = last.frame.seq + 1
  attempt : delivery.frame.toIdentity = delivery.identity
  holds : held fence (before ++ [delivery]) <+: delivery.draft

/-- What a consumer has received, and what it is still to be handed. -/
structure Consumer.Inv (fence : Nat) (b : PreviewBuffer) (c : Consumer) : Prop where
  number : c.id ≤ b.consumer
  generation : ∀ frames generation, c.phase = .batch frames generation → generation ≤ b.generation
  behind : Behind fence b (snapshot fence c.received)
  last : ∀ s, snapshot fence c.received = some s →
    ∃ last, c.received.getLast? = some last ∧ last.frame.seq = s.seq
  earlier : ∀ delivery ∈ c.received, ∃ s, snapshot fence c.received = some s ∧
    delivery.frame.seq ≤ s.seq
  told : ∀ before delivery, before ++ [delivery] <+: c.received → Told fence before delivery
  agrees : c.id = b.consumer →
    Agrees fence b (snapshot fence c.received) (Consumer.remaining b c.phase)

/-- A reset comes first. -/
def StartsOver (frames : List PreviewFrame) : Prop :=
  ∃ frame rest, frames = frame :: rest ∧ frame.kind = .reset

structure PreviewSystem.Inv (fence : Nat) (system : PreviewSystem) : Prop where
  sane : system.buffer.Sane
  fresh : StartsOver system.buffer.pending → Agrees fence system.buffer none system.buffer.pending
  nodup : (system.consumers.map Consumer.id).Nodup
  consumers : ∀ c ∈ system.consumers, c.Inv fence system.buffer

theorem snapshot_snoc (deliveries : List Delivery) (delivery : Delivery) :
    snapshot fence (deliveries ++ [delivery])
      = receive fence (snapshot fence deliveries) delivery.frame := by
  simp [snapshot, List.foldl_append]

theorem PreviewBuffer.Produced.consumer {b b' : PreviewBuffer} (h : b.Produced b') :
    b.consumer ≤ b'.consumer := by
  rcases h with hstays | ⟨text, hgrows⟩ | ⟨texts, hrestarts⟩
  · exact hstays.consumer
  · exact Nat.le_of_eq hgrows.consumer.symm
  · exact hrestarts.consumer

theorem PreviewBuffer.Produced.generation {b b' : PreviewBuffer} (h : b.Produced b') :
    b.generation ≤ b'.generation := by
  rcases h with hstays | ⟨text, hgrows⟩ | ⟨texts, hrestarts⟩
  · exact Nat.le_of_eq hstays.generation.symm
  · exact Nat.le_of_eq hgrows.generation.symm
  · exact Nat.le_of_lt (by rw [hrestarts.generation]; exact Nat.lt_succ_self _)

theorem PreviewBuffer.Produced.behind {b b' : PreviewBuffer} (h : b.Produced b')
    {prior : Option PreviewSnapshot} (hbehind : Behind fence b prior) : Behind fence b' prior := by
  intro s hs
  obtain ⟨hfence, hseq, hversion⟩ := hbehind s hs
  rcases h with hstays | ⟨text, hgrows⟩ | ⟨texts, hrestarts⟩
  · rw [hstays.seq, hstays.identity]
    exact ⟨hfence, hseq, hversion⟩
  · rw [hgrows.identity]
    refine ⟨hfence, ?_, hversion⟩
    rcases hgrows.grown with ⟨-, hnext, -⟩ | ⟨-, -, -, -, -, hnext, -⟩ <;> omega
  · refine ⟨hfence, ?_, Nat.le_trans hversion hrestarts.version⟩
    rw [hrestarts.seq]
    omega

/-- A producer keeps what a consumer is to be handed in agreement. -/
theorem Consumer.Inv.produce {b b' : PreviewBuffer} {c : Consumer} (h : c.Inv fence b)
    (hsane : b.Sane) (hproduced : b.Produced b')
    (hcurrent : c.id = b'.consumer → c.id = b.consumer) : c.Inv fence b' where
  number := Nat.le_trans h.number hproduced.consumer
  generation frames generation hphase :=
    Nat.le_trans (h.generation frames generation hphase) hproduced.generation
  behind := hproduced.behind h.behind
  last := h.last
  earlier := h.earlier
  told := h.told
  agrees hid := by
    have hagrees := h.agrees (hcurrent hid)
    unfold Consumer.remaining at hagrees ⊢
    rcases hproduced with hstays | ⟨text, hgrows⟩ | ⟨texts, hrestarts⟩
    · rw [hstays.pending, hstays.generation]
      exact hagrees.stays hstays
    · rw [hgrows.generation]
      exact hagrees.grows hgrows hsane
    · have hfront : (match c.phase with
          | .batch frames generation => if generation = b'.generation then frames else []
          | _ => []) = [] := by
        cases hphase : c.phase with
        | waiting => rfl
        | done => rfl
        | batch frames generation =>
            have hle := h.generation frames generation hphase
            have hne : generation ≠ b'.generation := by
              rw [hrestarts.generation]
              omega
            simp [hne]
      rw [hfront, List.nil_append]
      exact .restarts hrestarts h.behind

theorem StartsOver.of_grows {b b' : PreviewBuffer} {text : Units} (h : b.Grows b' text)
    (hstarts : StartsOver b'.pending) : StartsOver b.pending := by
  obtain ⟨frame, rest, hpending, hkind⟩ := hstarts
  rcases h.grown with ⟨heq, -, -⟩ | ⟨front, last, heq, hdelta, heq', -, -⟩
  · cases hb : b.pending with
    | nil =>
        rw [heq, hb] at hpending
        cases hpending
        cases hkind
    | cons first more =>
        rw [heq, hb] at hpending
        cases hpending
        exact ⟨frame, more, rfl, hkind⟩
  · cases hfront : front with
    | nil =>
        rw [heq', hfront] at hpending
        cases hpending
        rw [hdelta] at hkind
        cases hkind
    | cons first more =>
        rw [heq', hfront] at hpending
        cases hpending
        exact ⟨frame, more ++ [last], by rw [heq, hfront]; rfl, hkind⟩

theorem PreviewSystem.Inv.produce {system : PreviewSystem} {b' : PreviewBuffer}
    (h : system.Inv fence) (hproduced : system.buffer.Produced b')
    (hcurrent : ∀ c ∈ system.consumers, c.id = b'.consumer → c.id = system.buffer.consumer) :
    (system.produce b').Inv fence where
  sane := hproduced.sane h.sane
  fresh hstarts := by
    have hstarts : StartsOver b'.pending := hstarts
    show Agrees fence b' none b'.pending
    rcases hproduced with hstays | ⟨text, hgrows⟩ | ⟨texts, hrestarts⟩
    · rw [hstays.pending] at hstarts ⊢
      exact (h.fresh hstarts).stays hstays
    · have hagrees : Agrees fence system.buffer none ([] ++ system.buffer.pending) :=
        h.fresh (hstarts.of_grows hgrows)
      exact hagrees.grows hgrows h.sane
    · exact .restarts hrestarts fun s hs => by cases hs
  nodup := h.nodup
  consumers c hc := (h.consumers c hc).produce h.sane hproduced (hcurrent c hc)

theorem Agrees.same {b b' : PreviewBuffer} (h : b.Same b') {prior : Option PreviewSnapshot}
    {frames : List PreviewFrame} (hagrees : Agrees fence b prior frames) :
    Agrees fence b' prior frames := by
  obtain ⟨hlater, final, hfeeds, htarget⟩ := hagrees
  refine ⟨hlater, final, hfeeds, ?_⟩
  unfold Target PreviewBuffer.Idle at htarget ⊢
  rwa [h.identity, h.seq, h.draft, h.enabled, h.closed]

theorem Behind.same {b b' : PreviewBuffer} (h : b.Same b') {prior : Option PreviewSnapshot}
    (hbehind : Behind fence b prior) : Behind fence b' prior := by
  unfold Behind at hbehind ⊢
  rwa [h.seq, h.identity]

theorem Advance.Fair.pending {b : PreviewBuffer} {consumer : Nat} {phase : Phase}
    {result : Advance} (h : result.Fair b consumer phase) :
    result.buffer.pending = b.pending ∨ result.buffer.pending = [] := by
  cases hframe : result.frame with
  | none => exact .inl (h.quiet hframe).1
  | some frame => exact (h.hand frame hframe).2.2

/-- The frame a consumer is handed is told to it. -/
theorem Consumer.Inv.hand {b b' : PreviewBuffer} {c : Consumer} (h : c.Inv fence b)
    (hsame : b.Same b') (hcurrent : c.id = b.consumer) {frame : PreviewFrame} {phase : Phase}
    (hgeneration : ∀ frames generation, phase = .batch frames generation →
      generation = b.generation)
    (hremaining : Consumer.remaining b c.phase = frame :: Consumer.remaining b' phase) :
    Consumer.Inv fence b' { c with
      phase := phase
      received := c.received ++ [⟨frame, b'.identity, b'.draft⟩] } := by
  have hagrees := h.agrees hcurrent
  rw [hremaining] at hagrees
  obtain ⟨htakes, hidentity, ⟨s, hreceive, hprefix, hnumber⟩, hrest⟩ := hagrees.head
  have hsnapshot : snapshot fence (c.received ++ [⟨frame, b'.identity, b'.draft⟩]) = some s :=
    (snapshot_snoc _ _).trans hreceive
  obtain ⟨draft, hs⟩ := receive_of_takes htakes
  rw [hreceive] at hs
  cases hs
  -- everything received before comes before the frame
  have hbefore : ∀ delivery ∈ c.received, delivery.frame.seq < frame.seq := by
    intro delivery hdelivery
    obtain ⟨t, ht, hle⟩ := h.earlier delivery hdelivery
    obtain ⟨-, htakes⟩ := htakes
    cases hkind : frame.kind with
    | reset =>
        rw [hkind] at htakes
        exact Nat.lt_of_le_of_lt hle (htakes t ht).2.1
    | delta =>
        rw [hkind] at htakes
        obtain ⟨t', ht', -, -, hseq, -⟩ := htakes
        rw [ht] at ht'
        cases ht'
        omega
  refine ⟨?_, ?_, ?_, ?_, ?_, ?_, ?_⟩
  · rw [hsame.consumer]
    exact h.number
  · intro frames generation hphase
    rw [hsame.generation]
    exact Nat.le_of_eq (hgeneration frames generation hphase)
  · rw [hsnapshot]
    intro t ht
    cases ht
    rw [hsame.seq, hsame.identity, ← hidentity]
    exact ⟨rfl, hnumber, Nat.le_refl _⟩
  · rw [hsnapshot]
    intro t ht
    cases ht
    exact ⟨_, List.getLast?_concat .., rfl⟩
  · rw [hsnapshot]
    intro delivery hdelivery
    refine ⟨_, rfl, ?_⟩
    rcases List.mem_append.1 hdelivery with hdelivery | hdelivery
    · exact Nat.le_of_lt (hbefore delivery hdelivery)
    · exact Nat.le_of_eq (by rw [List.mem_singleton.1 hdelivery])
  · intro before delivery hmem
    rcases List.prefix_concat_iff.1 hmem with heq | hmem
    · obtain ⟨rfl, hlast⟩ := List.append_inj' heq rfl
      obtain rfl := List.singleton_inj.1 hlast
      refine ⟨htakes.1, hbefore, ?_, hidentity.trans hsame.identity.symm, ?_⟩
      · intro hkind
        have hkind : frame.kind = .delta := hkind
        obtain ⟨-, htakes⟩ := htakes
        rw [hkind] at htakes
        obtain ⟨t, ht, -, -, hseq, -⟩ := htakes
        obtain ⟨last, hlast, hlastseq⟩ := h.last t ht
        exact ⟨last, hlast, by rw [hlastseq]; exact hseq⟩
      · rw [held, hsnapshot]
        show draft <+: b'.draft
        rw [hsame.draft]
        exact hprefix
    · exact h.told before delivery hmem
  · intro _
    rw [hsnapshot, ← hreceive]
    exact hrest.same hsame

/-- A consumer that is not handed anything. -/
theorem Consumer.Inv.same {b b' : PreviewBuffer} {c : Consumer} (h : c.Inv fence b)
    (hsame : b.Same b') {phase : Phase}
    (hgeneration : ∀ frames generation, phase = .batch frames generation →
      generation ≤ b.generation)
    (hremaining : c.id = b.consumer → Consumer.remaining b' phase = Consumer.remaining b c.phase) :
    Consumer.Inv fence b' { c with phase := phase } where
  number := by rw [hsame.consumer]; exact h.number
  generation := by rw [hsame.generation]; exact hgeneration
  behind := h.behind.same hsame
  last := h.last
  earlier := h.earlier
  told := h.told
  agrees hid := by
    rw [hsame.consumer] at hid
    show Agrees fence b' _ (Consumer.remaining b' phase)
    rw [hremaining hid]
    exact (h.agrees hid).same hsame

theorem remaining_of_pending {b b' : PreviewBuffer} (hsame : b.Same b')
    (hpending : b'.pending = b.pending) (phase : Phase) :
    Consumer.remaining b' phase = Consumer.remaining b phase := by
  simp only [Consumer.remaining, hsame.generation, hpending]

/-- An advance of one consumer keeps the invariant. -/
theorem PreviewSystem.Inv.advance {system : PreviewSystem} (h : system.Inv fence) {c : Consumer}
    (hc : c ∈ system.consumers) {result : Advance}
    (hfair : result.Fair system.buffer c.id c.phase) : (system.advance c.id result).Inv fence where
  sane := by
    refine ⟨?_, ?_⟩
    · show result.buffer.draft.length ≤ 100000
      rw [hfair.same.draft]
      exact h.sane.draft_le
    · show result.buffer.identity.Valid ∨ result.buffer.Unnamed
      rw [hfair.same.identity]
      refine h.sane.named.imp_right fun hunnamed => ⟨?_, ?_, ?_, ?_⟩
      · rw [hfair.same.identity]; exact hunnamed.id
      · rcases hfair.pending with hpending | hpending
        · rw [hpending]; exact hunnamed.pending
        · exact hpending
      · rw [hfair.same.draft]; exact hunnamed.draft
      · rw [hfair.same.enabled]; exact hunnamed.enabled
  fresh hstarts := by
    have hstarts : StartsOver result.buffer.pending := hstarts
    show Agrees fence result.buffer none result.buffer.pending
    rcases hfair.pending with hpending | hpending
    · rw [hpending] at hstarts ⊢
      exact (h.fresh hstarts).same hfair.same
    · rw [hpending] at hstarts
      obtain ⟨frame, rest, hnil, -⟩ := hstarts
      cases hnil
  nodup := by
    have hids : (system.advance c.id result).consumers.map Consumer.id
        = system.consumers.map Consumer.id := by
      simp only [PreviewSystem.advance, List.map_map]
      apply List.map_congr_left
      intro other _
      simp only [Function.comp_apply]
      split <;> rfl
    rw [hids]
    exact h.nodup
  consumers other hother := by
    show other.Inv fence result.buffer
    obtain ⟨old, hold, rfl⟩ := List.mem_map.1 hother
    have hinv := h.consumers old hold
    by_cases hid : old.id = c.id
    · obtain rfl : old = c := List.inj_on_of_nodup_map h.nodup hold hc hid
      rw [if_pos rfl]
      cases hframe : result.frame with
      | none =>
          rw [Option.toList_none, List.map_nil, List.append_nil]
          refine hinv.same hfair.same ?_ (hfair.quiet hframe).2
          exact fun frames generation hphase =>
            Nat.le_of_eq (hfair.generation frames generation hphase)
      | some frame =>
          obtain ⟨hcurrent, hremaining, -⟩ := hfair.hand frame hframe
          exact hinv.hand hfair.same hcurrent hfair.generation hremaining
    · rw [if_neg hid]
      refine hinv.same hfair.same hinv.generation fun hcurrent => ?_
      -- only the current consumer takes from the pending frames
      refine remaining_of_pending hfair.same ?_ _
      cases hframe : result.frame with
      | none => exact (hfair.quiet hframe).1
      | some frame => exact absurd (hcurrent.trans (hfair.hand frame hframe).1.symm) hid

/-- A new consumer finds what it needs to start with. -/
theorem PreviewSystem.Inv.accept {system : PreviewSystem} (h : system.Inv fence)
    (hfresh : system.buffer.Fresh) : system.accept.Inv fence := by
  have hstays : system.buffer.Stays { system.buffer with consumer := system.buffer.consumer + 1 } :=
    ⟨rfl, rfl, rfl, rfl, rfl, rfl, id, Nat.le_succ _⟩
  have hbefore := h.produce (.inl hstays) fun c hc hid => by
    have hnumber := (h.consumers c hc).number
    have hid : c.id = system.buffer.consumer + 1 := hid
    omega
  have hpending : Agrees fence system.accept.buffer none system.buffer.pending := by
    unfold PreviewBuffer.Fresh at hfresh
    split at hfresh
    · rename_i hnil
      rw [hnil]
      exact ⟨by simp, none, .nil _, .inr ⟨rfl, hfresh⟩⟩
    · rename_i frame rest hcons
      exact (h.fresh ⟨frame, rest, hcons, hfresh⟩).stays hstays
  refine ⟨hbefore.sane, hbefore.fresh, ?_, ?_⟩
  · rw [PreviewSystem.accept, List.map_append, List.nodup_append]
    refine ⟨h.nodup, by simp, ?_⟩
    intro id hid id' hid'
    obtain ⟨c, hc, rfl⟩ := List.mem_map.1 hid
    have hnumber := (h.consumers c hc).number
    have hid' : id' = system.buffer.consumer + 1 := by simpa using hid'
    omega
  · intro c hc
    rcases List.mem_append.1 hc with hc | hc
    · exact hbefore.consumers c hc
    · rw [List.mem_singleton.1 hc]
      exact ⟨Nat.le_refl _, fun _ _ h => (by cases h), fun _ h => (by cases h),
        fun _ h => (by cases h), fun _ h => (by cases h),
        fun before delivery h => (by simp at h), fun _ => hpending⟩

/-- One event keeps the invariant. -/
theorem PreviewSystem.Inv.step {system system' : PreviewSystem} {event : PreviewEvent}
    (h : system.Inv fence) (hok : Orderly system event)
    (hstep : PreviewSystem.Step system event system') : system'.Inv fence := by
  cases hstep with
  | reset attempt enabled =>
      exact h.produce (PreviewBuffer.produced_reset _ attempt.valid hok enabled) (by simp)
  | push text => exact h.produce (PreviewBuffer.produced_push h.sane text) (by simp)
  | discard => exact h.produce (PreviewBuffer.produced_discard h.sane) (by simp)
  | replay => exact h.produce (PreviewBuffer.produced_replay h.sane) (by simp)
  | recover =>
      obtain ⟨hproduced, hlater⟩ := PreviewBuffer.produced_recover h.sane
      refine h.produce hproduced fun c hc hid => ?_
      have hnumber := (h.consumers c hc).number
      omega
  | close =>
      exact h.produce (.inl ⟨rfl, rfl, rfl, rfl, rfl, rfl, fun _ => rfl, Nat.le_refl _⟩)
        fun _ _ hid => hid
  | tick htimer => exact h.produce (.inl (PreviewBuffer.stays_flush _)) fun _ _ hid => hid
  | consume =>
      have hempty : system.accept.buffer.Empty .waiting := rfl
      have hfair := PreviewBuffer.fair_top hempty system.accept.buffer.consumer
      exact (h.accept hok).advance (List.mem_append_right _ (List.mem_singleton_self _)) hfair
  | @pull c frames generation hc hphase =>
      have hfair := system.buffer.fair_next c.id frames generation
      rw [← hphase] at hfair
      exact h.advance hc hfair
  | @resume c hc hphase hwoken =>
      have hempty : PreviewBuffer.Empty
          { system.buffer with woken := system.buffer.woken.erase c.id } c.phase := by
        rw [hphase]
        rfl
      have hfair := PreviewBuffer.fair_collect hempty c.id
      exact h.advance hc ⟨⟨hfair.same.seq, hfair.same.identity, hfair.same.draft,
        hfair.same.generation, hfair.same.enabled, hfair.same.closed, hfair.same.consumer⟩,
        hfair.generation, hfair.quiet, hfair.hand⟩

/-! ## Agreement -/

theorem PreviewSystem.Inv.init : PreviewSystem.Inv fence {} where
  sane := ⟨Nat.zero_le _, .inr ⟨rfl, rfl, rfl, rfl⟩⟩
  fresh := by
    rintro ⟨frame, rest, hnil, -⟩
    cases hnil
  nodup := List.nodup_nil
  consumers := fun c hc => by cases hc

/-- The invariant is what a consumer may rely on, while numbers are safe integers. -/
theorem PreviewSystem.Inv.agreement {system : PreviewSystem} (h : system.Inv fence)
    (hsafe : system.buffer.seq ≤ maxSafeInteger) : Agreement fence system where
  delivered c hc before delivery hbefore := by
    have hinv := h.consumers c hc
    have htold := hinv.told before delivery hbefore
    have hmem : delivery ∈ c.received :=
      hbefore.subset (List.mem_append_right _ (List.mem_singleton_self _))
    obtain ⟨s, hs, hle⟩ := hinv.earlier delivery hmem
    have hseq := (hinv.behind s hs).2.1
    exact ⟨htold.wellFormed.valid (by omega), htold.increasing, htold.contiguous, htold.attempt,
      htold.holds⟩
  caughtUp c hc hcurrent hpending hbatch := by
    have hremaining : Consumer.remaining system.buffer c.phase = [] := by
      unfold Consumer.batch at hbatch
      unfold Consumer.remaining
      rw [hpending, List.append_nil]
      split
      · rename_i frames generation hphase
        rw [hphase] at hbatch
        dsimp only at hbatch
        rw [hbatch]
        split <;> rfl
      · rfl
    obtain ⟨-, final, hfeeds, htarget⟩ := (h.consumers c hc).agrees hcurrent
    rw [hremaining] at hfeeds
    rw [held, hfeeds.nil_eq]
    rcases htarget with hsome | ⟨hnone, hdraft, -⟩
    · rw [hsome]
      rfl
    · rw [hnone, hdraft]
      rfl

/-- In every interleaving in which consumers start with a reset and request versions
    never go back, every consumer's frames agree with the buffer, as long as the frames
    are numbered with safe integers. -/
theorem preview_agreement {system : PreviewSystem}
    (h : (PreviewSystem.transitions.restrict Orderly).Reachable system)
    (hsafe : system.buffer.seq ≤ maxSafeInteger) (fence : Nat) : Agreement fence system := by
  have hinv : system.Inv fence := by
    refine TransitionSystem.Reachable.invariant ?_ ?_ h
    · rintro s rfl
      exact .init
    · intro s event s' hi hstep
      exact hi.step hstep.1 hstep.2
  exact hinv.agreement hsafe

/-! ## Fixed runs -/

private def firstAttempt : Attempt :=
  ⟨⟨1, "a"⟩, by decide, by decide, by decide, by decide⟩

private def secondAttempt : Attempt :=
  ⟨⟨2, "a"⟩, by decide, by decide, by decide, by decide⟩

private def resetTo (system : PreviewSystem) (attempt : Attempt) : PreviewSystem :=
  system.produce (system.buffer.reset attempt.toIdentity true)

private def consumed (system : PreviewSystem) : PreviewSystem :=
  system.accept.advance system.accept.buffer.consumer
    (system.accept.buffer.top system.accept.buffer.consumer)

private def pushed (system : PreviewSystem) : PreviewSystem :=
  system.produce (system.buffer.push [120])

/-- A consumer that has been handed the reset of a new buffer, and a push after it. -/
private def streaming : PreviewSystem := pushed (consumed (resetTo {} firstAttempt))

private theorem orderly_next {s s' : PreviewSystem} {e : PreviewEvent}
    (h : (PreviewSystem.transitions.restrict Orderly).Reachable s)
    (hstep : PreviewSystem.Step s e s') (hok : Orderly s e) :
    (PreviewSystem.transitions.restrict Orderly).Reachable s' :=
  h.next ⟨hok, hstep⟩

theorem preview_agreement_streaming : Agreement 1 streaming := by
  have hstart : (PreviewSystem.transitions.restrict Orderly).Reachable {} := .of_start rfl
  have hreset := orderly_next hstart (.reset firstAttempt true) (Nat.le_refl 1)
  have hfresh : (resetTo {} firstAttempt).buffer.Fresh := rfl
  have hconsume := orderly_next hreset .consume hfresh
  have hpush := orderly_next hconsume (.push [120]) trivial
  exact preview_agreement hpush (by decide) 1

/-- The one consumer of a system is handed what is pending. -/
private def pulled (system : PreviewSystem) (generation : Nat) : PreviewSystem :=
  system.advance 1 (system.buffer.next 1 [] generation)

private theorem pulled_step {system : PreviewSystem} {c : Consumer} (generation : Nat)
    (hconsumers : system.consumers = [c]) (hid : c.id = 1)
    (hphase : c.phase = .batch [] generation) :
    PreviewSystem.transitions.step system (.pull 1) (pulled system generation) := by
  have hc : c ∈ system.consumers := by simp [hconsumers]
  have hstep := PreviewSystem.Step.pull hc hphase
  rwa [hid] at hstep

/-- The second attempt comes first; then the request version goes back. -/
private def backward : PreviewSystem :=
  pulled (pushed (pulled (resetTo (consumed (resetTo {} secondAttempt)) firstAttempt) 1)) 2

/-- The buffer is closed with a delta pending whose reset is with an earlier consumer. -/
private def reopened : PreviewSystem :=
  let closed := (pushed (consumed (resetTo {} firstAttempt)))
  let closed := closed.produce closed.buffer.close
  consumed (closed.produce closed.buffer.recover)

/-- A receiver keeps the text of a later request version, and a consumer that starts
    after the close finds deltas without their reset. -/
theorem disagreement :
    (PreviewSystem.transitions.Reachable backward ∧ ¬ Agreement 1 backward) ∧
    (PreviewSystem.transitions.Reachable reopened ∧ ¬ Agreement 1 reopened) := by
  have hstart : PreviewSystem.transitions.Reachable {} := .of_start rfl
  refine ⟨⟨?_, fun h => ?_⟩, ?_, fun h => ?_⟩
  · have hconsumed := (hstart.next (.reset secondAttempt true)).next .consume
    have hback := hconsumed.next (.reset firstAttempt true)
    have hreset := hback.next (pulled_step 1 rfl rfl rfl)
    have hpushed := hreset.next (.push [120])
    exact hpushed.next (pulled_step 2 rfl rfl rfl)
  · have hheld := h.caughtUp _ (List.mem_singleton_self _) rfl rfl rfl
    exact absurd hheld (by decide)
  · have hpushed := ((hstart.next (.reset firstAttempt true)).next .consume).next (.push [120])
    exact ((hpushed.next .close).next .recover).next .consume
  · have hdelivered := h.delivered _ (List.mem_cons_of_mem _ (List.mem_singleton_self _)) [] _
      (List.prefix_refl _)
    obtain ⟨last, hlast, -⟩ := hdelivered.contiguous rfl
    cases hlast

end LingxiOS.Preview
