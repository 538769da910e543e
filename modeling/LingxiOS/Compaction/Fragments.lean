-- SUMMARY: What the summary calls send: fragments that cover the history.
import LingxiOS.Compaction.Model

/-! # Fragments

A history that is too long for one request is summarized by fragments of its JSON
text. Whatever the fit test answers, the fragments sent follow one another without
a gap, and none of them ends inside a surrogate pair. -/

namespace LingxiOS.Compaction

open JsonText Stringify Program

/-! ## Events -/

/-- The operation assigns to the session. -/
def CompactionOp.writes : CompactionOp → Bool
  | .setSummary _ | .setHistory _ | .raiseEpoch => true
  | .throwIfAborted | .aborted | .compact _ => false

def CompactionOp.request? : CompactionOp → Option CompactionRequest
  | .compact request => some request
  | _ => none

/-- The requests sent to the summarizer, in order. -/
def requests (events : List CompactionEvent) : List CompactionRequest :=
  events.filterMap fun event => event.op.request?

@[simp] theorem requests_nil : requests [] = [] := rfl

@[simp] theorem requests_cons (event : CompactionEvent) (rest : List CompactionEvent) :
    requests (event :: rest) = event.op.request?.toList ++ requests rest := by
  unfold requests
  cases h : event.op.request? <;> simp [h]

@[simp] theorem requests_append (first rest : List CompactionEvent) :
    requests (first ++ rest) = requests first ++ requests rest := List.filterMap_append

/-- Nothing is assigned to the session. -/
def Quiet (events : List CompactionEvent) : Prop := ∀ event ∈ events, event.op.writes = false

theorem Quiet.append {first rest : List CompactionEvent} (hfirst : Quiet first) (hrest : Quiet rest) :
    Quiet (first ++ rest) := by
  intro event hevent
  rcases List.mem_append.1 hevent with h | h
  · exact hfirst event h
  · exact hrest event h

theorem Quiet.cons {event : CompactionEvent} {rest : List CompactionEvent}
    (hevent : event.op.writes = false) (hrest : Quiet rest) : Quiet (event :: rest) :=
  List.forall_mem_cons.2 ⟨hevent, hrest⟩

theorem quiet_nil : Quiet [] := fun _ h => absurd h List.not_mem_nil

/-- The last call of some events was summarized as `combined`. -/
def LastSummary (maxSummaryChars : Nat) (events : List CompactionEvent) (combined : Units) : Prop :=
  ∃ before request call after, events = before ++ ⟨.compact request, .ok call⟩ :: after
    ∧ requests after = [] ∧ boundSummary call.value maxSummaryChars = .ok combined

theorem LastSummary.append {maxSummaryChars : Nat} {events : List CompactionEvent} {combined : Units}
    (first : List CompactionEvent) (h : LastSummary maxSummaryChars events combined) :
    LastSummary maxSummaryChars (first ++ events) combined := by
  obtain ⟨before, request, call, after, rfl, hafter, hbound⟩ := h
  exact ⟨first ++ before, request, call, after, by rw [List.append_assoc], hafter, hbound⟩

/-! ## One call -/

variable {model : ModelDriver} {maxSummaryChars : Nat} {background : Bool} {st : Progress}
  {events : List CompactionEvent} {outcome : Except Thrown (Except (Thrown × Progress) Progress)}

theorem runs_guarded {op : CompactionOp} {next : op.Value → Guarded}
    (h : Runs (guarded st op next) events outcome) :
    (∃ e, events = [⟨op, .error e⟩] ∧ outcome = .ok (.error (e, st))) ∨
      ∃ answer rest, events = ⟨op, .ok answer⟩ :: rest ∧ Runs (next answer) rest outcome := by
  obtain ⟨answer, rest, hevents, hrest⟩ := runs_attempt_bind_iff.1 h
  cases answer with
  | error e =>
      obtain ⟨rfl, rfl⟩ := runs_done_iff.1 hrest
      exact .inl ⟨e, hevents, rfl⟩
  | ok answer => exact .inr ⟨answer, rest, hevents, hrest⟩

theorem runs_checked {α : Type} {result : Except Thrown α} {next : α → Guarded}
    (h : Runs (checked st result next) events outcome) :
    (∃ e, result = .error e ∧ events = [] ∧ outcome = .ok (.error (e, st))) ∨
      ∃ a, result = .ok a ∧ Runs (next a) events outcome := by
  cases result with
  | error e =>
      obtain ⟨rfl, rfl⟩ := runs_done_iff.1 h
      exact .inl ⟨e, rfl, rfl, rfl⟩
  | ok a => exact .inr ⟨a, rfl, h⟩

/-- What one summary call does: it may fail before or after its request, which fits. -/
inductive Compacted (model : ModelDriver) (maxSummaryChars : Nat) (request : CompactionRequest) :
    List CompactionEvent → Except (Thrown × Progress) Progress → Prop
  | unsent {events : List CompactionEvent} {failure : Thrown × Progress} (hquiet : Quiet events)
      (hrequests : requests events = []) :
      Compacted model maxSummaryChars request events (.error failure)
  | failed {events : List CompactionEvent} {failure : Thrown × Progress} (hquiet : Quiet events)
      (hrequests : requests events = [request])
      (hfits : fitsModel model request.toValue = .ok true) :
      Compacted model maxSummaryChars request events (.error failure)
  | summarized {call : CompactionResult} {st : Progress}
      (hfits : fitsModel model request.toValue = .ok true)
      (hbound : boundSummary call.value maxSummaryChars = .ok st.combined) :
      Compacted model maxSummaryChars request
        [⟨.throwIfAborted, .ok ()⟩, ⟨.compact request, .ok call⟩, ⟨.throwIfAborted, .ok ()⟩] (.ok st)

theorem compact_runs {request : CompactionRequest}
    (h : (compact model maxSummaryChars request st).Runs events outcome) :
    ∃ answer, outcome = .ok answer ∧ Compacted model maxSummaryChars request events answer := by
  unfold compact at h
  obtain ⟨e, rfl, rfl⟩ | ⟨⟨⟩, es₁, rfl, h₁⟩ := runs_guarded h
  · exact ⟨_, rfl, .unsent (.cons rfl quiet_nil) rfl⟩
  obtain ⟨e, -, rfl, rfl⟩ | ⟨tokens, htokens, h₂⟩ := runs_checked h₁
  · exact ⟨_, rfl, .unsent (.cons rfl quiet_nil) rfl⟩
  obtain ⟨e, -, rfl, rfl⟩ | ⟨fits, hfits, h₃⟩ := runs_checked h₂
  · exact ⟨_, rfl, .unsent (.cons rfl quiet_nil) rfl⟩
  cases fits with
  | false =>
      obtain ⟨rfl, rfl⟩ := runs_done_iff.1 h₃
      exact ⟨_, rfl, .unsent (.cons rfl quiet_nil) rfl⟩
  | true =>
      obtain ⟨e, rfl, rfl⟩ | ⟨call, es₂, rfl, h₄⟩ := runs_guarded h₃
      · exact ⟨_, rfl, .failed (.cons rfl (.cons rfl quiet_nil)) rfl hfits⟩
      obtain ⟨e, rfl, rfl⟩ | ⟨⟨⟩, es₃, rfl, h₅⟩ := runs_guarded h₄
      · exact ⟨_, rfl, .failed (.cons rfl (.cons rfl (.cons rfl quiet_nil))) rfl hfits⟩
      obtain ⟨e, -, rfl, rfl⟩ | ⟨combined, hbound, h₆⟩ := runs_checked h₅
      · exact ⟨_, rfl, .failed (.cons rfl (.cons rfl (.cons rfl quiet_nil))) rfl hfits⟩
      obtain ⟨rfl, rfl⟩ := runs_done_iff.1 h₆
      exact ⟨_, rfl, .summarized hfits hbound⟩

/-! ## Fragments of a text -/

/-- A position between the two halves of a surrogate pair. -/
def SplitsPair (text : Units) (position : Nat) : Prop :=
  0 < position ∧ text[position - 1]?.any isHigh = true ∧ text[position]?.any isLow = true

/-- Nonempty fragments that follow one another from an offset to the end of a text, with
    no pair split between two of them. -/
inductive Covers (text : Units) : Nat → List Units → Prop
  | done : Covers text text.length []
  | next {offset length : Nat} {fragments : List Units} (hpos : 0 < length)
      (hle : offset + length ≤ text.length) (hsplit : ¬SplitsPair text (offset + length))
      (hrest : Covers text (offset + length) fragments) :
      Covers text offset (slice text offset length :: fragments)

section

variable {text : Units} {offset : Nat} {fragments : List Units}

theorem slice_length {length : Nat} (hle : offset + length ≤ text.length) :
    (slice text offset length).length = length := by
  rw [slice, List.length_take, List.length_drop]
  omega

theorem Covers.flatten (h : Covers text offset fragments) : fragments.flatten = text.drop offset := by
  induction h with
  | done => simp
  | next hpos hle hsplit hrest ih =>
      rw [List.flatten_cons, ih, slice, ← List.drop_drop, List.take_append_drop]

theorem Covers.ne_nil (h : Covers text offset fragments) : ∀ fragment ∈ fragments, fragment ≠ [] := by
  induction h with
  | done => simp
  | next hpos hle hsplit hrest ih =>
      refine List.forall_mem_cons.2 ⟨?_, ih⟩
      rw [← List.length_pos_iff, slice_length hle]
      exact hpos

/-- No fragment ends inside a pair. -/
theorem Covers.not_splits (h : Covers text offset fragments) (n : Nat)
    (hoffset : ¬SplitsPair text offset) :
    ¬SplitsPair text (offset + (fragments.take n).flatten.length) := by
  induction h generalizing n with
  | done => simpa using hoffset
  | next hpos hle hsplit hrest ih =>
      cases n with
      | zero => simpa using hoffset
      | succ n =>
          have hrest := ih n hsplit
          rw [List.take_succ_cons, List.flatten_cons, List.length_append, slice_length hle,
            ← Nat.add_assoc]
          exact hrest

theorem not_isLow_of_isHigh {u : Nat} (h : isHigh u = true) : isLow u = false := by
  simp only [isHigh, Bool.and_eq_true, decide_eq_true_eq] at h
  simp only [isLow, Bool.and_eq_false_iff, decide_eq_false_iff_not]
  omega

end

/-! ## The loop -/

variable {serialized : Units} {offset : Nat}

theorem fragmentLength_ok {combined : Units} {low : Nat}
    (h : fragmentLength model serialized combined background offset = .ok low) (hlow : 0 < low)
    (hoffset : offset < serialized.length) :
    offset + low ≤ serialized.length ∧ ¬SplitsPair serialized (offset + low) := by
  obtain ⟨found, hfound, h⟩ := Except.bind_ok h
  obtain ⟨-, hhigh, -⟩ := bisect_ok hfound (Nat.zero_le _)
  cases h
  split at hlow <;> rename_i hhalf
  · rw [if_pos hhalf]
    refine ⟨by omega, ?_⟩
    rintro ⟨-, -, hlowhalf⟩
    rw [show offset + (found - 1) = offset + found - 1 by omega] at hlowhalf
    cases hu : serialized[offset + found - 1]? with
    | none => simp [hu] at hhalf
    | some u =>
        rw [hu] at hhalf hlowhalf
        rw [Option.any_some] at hhalf hlowhalf
        rw [not_isLow_of_isHigh hhalf] at hlowhalf
        cases hlowhalf
  · rw [if_neg hhalf]
    exact ⟨by omega, fun h => hhalf h.2.1⟩

/-- What the fragment loop sends from an offset on, and how it ends. -/
structure Sent (model : ModelDriver) (maxSummaryChars : Nat) (background : Bool) (serialized : Units)
    (offset : Nat) (events : List CompactionEvent) (answer : Except (Thrown × Progress) Progress) :
    Prop where
  quiet : Quiet events
  fits : ∀ request ∈ requests events, fitsModel model request.toValue = .ok true
  bounded : (requests events).length ≤ serialized.length - offset
  covers : ∀ st, answer = .ok st → ∃ sent : List (Units × Units),
    requests events = sent.map (fun f => ⟨fragmentItems f.1 f.2, background⟩)
      ∧ Covers serialized offset (sent.map Prod.snd)
  last : ∀ st, answer = .ok st → offset < serialized.length →
    LastSummary maxSummaryChars events st.combined

/-- A round that fails has sent one request at most. -/
theorem Sent.of_failure {failure : Thrown × Progress} (hoffset : offset < serialized.length)
    (hquiet : Quiet events)
    (hfits : ∀ request ∈ requests events, fitsModel model request.toValue = .ok true)
    (hlength : (requests events).length ≤ 1) :
    Sent model maxSummaryChars background serialized offset events (.error failure) where
  quiet := hquiet
  fits := hfits
  bounded := by omega
  covers := fun st h => by cases h
  last := fun st h _ => by cases h

/-- A round that sends nothing. -/
theorem Sent.of_event {failure : Thrown × Progress} {event : CompactionEvent}
    (hoffset : offset < serialized.length) (hwrites : event.op.writes = false)
    (hrequest : event.op.request? = none) :
    Sent model maxSummaryChars background serialized offset [event] (.error failure) :=
  .of_failure hoffset (.cons hwrites quiet_nil) (by simp [hrequest]) (by simp [hrequest])

/-- A round that was summarized, and the rounds after it. -/
theorem Sent.next {low : Nat} {combined : Units} {call : CompactionResult} {rest : List CompactionEvent}
    {answer : Except (Thrown × Progress) Progress} (hlow : 0 < low)
    (hend : offset + low ≤ serialized.length) (hsplit : ¬SplitsPair serialized (offset + low))
    (hfits : fitsModel model (fragmentRequest serialized combined background offset low).toValue
      = .ok true)
    (hbound : boundSummary call.value maxSummaryChars = .ok st.combined)
    (hlast : ∀ st', answer = .ok st' → offset + low = serialized.length → st'.combined = st.combined
      ∧ requests rest = [])
    (hrest : Sent model maxSummaryChars background serialized (offset + low) rest answer) :
    Sent model maxSummaryChars background serialized offset
      (⟨.throwIfAborted, .ok ()⟩ :: ([⟨.throwIfAborted, .ok ()⟩,
        ⟨.compact (fragmentRequest serialized combined background offset low), .ok call⟩,
        ⟨.throwIfAborted, .ok ()⟩] ++ rest)) answer where
  quiet := .cons rfl (.append (.cons rfl (.cons rfl (.cons rfl quiet_nil))) hrest.quiet)
  fits := by
    simp only [requests_cons, requests_append, requests_nil, CompactionOp.request?, Option.toList_none,
      Option.toList_some, List.nil_append, List.append_nil, List.singleton_append, List.forall_mem_cons]
    exact ⟨hfits, hrest.fits⟩
  bounded := by
    have hbounded := hrest.bounded
    simp only [requests_cons, requests_append, requests_nil, CompactionOp.request?, Option.toList_none,
      Option.toList_some, List.nil_append, List.append_nil, List.singleton_append, List.length_cons]
    omega
  covers := by
    rintro st' hanswer
    obtain ⟨sent, hsent, hcovers⟩ := hrest.covers st' hanswer
    refine ⟨(combined, slice serialized offset low) :: sent, ?_, .next hlow hend hsplit hcovers⟩
    simp [CompactionOp.request?, hsent, fragmentRequest]
  last := by
    rintro st' hanswer -
    by_cases hmore : offset + low < serialized.length
    · exact (hrest.last st' hanswer hmore).append (_ :: [_, _, _])
    · obtain ⟨hcombined, hnone⟩ := hlast st' hanswer (by omega)
      refine ⟨[⟨.throwIfAborted, .ok ()⟩, ⟨.throwIfAborted, .ok ()⟩], _, call,
        ⟨.throwIfAborted, .ok ()⟩ :: rest, rfl, ?_, ?_⟩
      · simp [CompactionOp.request?, hnone]
      · rw [hcombined]
        exact hbound

/-- At the end of the text nothing more is sent. -/
theorem compactFragments_end (h : (compactFragments model maxSummaryChars background serialized
    serialized.length st).Runs events outcome) : events = [] ∧ outcome = .ok (.ok st) := by
  rw [compactFragments, dif_neg (Nat.lt_irrefl _)] at h
  exact runs_done_iff.1 h

theorem compactFragments_runs (hle : offset ≤ serialized.length)
    (h : (compactFragments model maxSummaryChars background serialized offset st).Runs events outcome) :
    ∃ answer, outcome = .ok answer ∧
      Sent model maxSummaryChars background serialized offset events answer := by
  induction offset, st using compactFragments.induct serialized generalizing events with
  | case2 offset st hoffset =>
      obtain rfl : offset = serialized.length := by omega
      obtain ⟨rfl, rfl⟩ := compactFragments_end h
      refine ⟨_, rfl, quiet_nil, by simp, by simp, ?_, fun _ _ hlt => absurd hlt hoffset⟩
      exact fun _ _ => ⟨[], rfl, .done⟩
  | case1 offset st hoffset ih =>
      rw [compactFragments, dif_pos hoffset] at h
      obtain ⟨e, rfl, rfl⟩ | ⟨⟨⟩, es₁, rfl, h₁⟩ := runs_guarded h
      · exact ⟨_, rfl, .of_event hoffset rfl rfl⟩
      obtain ⟨e, -, rfl, rfl⟩ | ⟨low, hfound, h₂⟩ := runs_checked h₁
      · exact ⟨_, rfl, .of_event hoffset rfl rfl⟩
      by_cases hlow : 0 < low
      · rw [dif_pos hlow] at h₂
        obtain ⟨hend, hsplit⟩ := fragmentLength_ok hfound hlow hoffset
        obtain ⟨e, hcall, -⟩ | ⟨answer, first, rest, rfl, hcall, hrest⟩ := runs_bind_iff.1 h₂
        · obtain ⟨answer, hanswer, -⟩ := compact_runs hcall
          cases hanswer
        obtain ⟨_, ⟨⟩, hcompacted⟩ := compact_runs hcall
        cases hcompacted with
        | unsent hquiet hrequests =>
            obtain ⟨rfl, rfl⟩ := runs_done_iff.1 hrest
            refine ⟨_, rfl, .of_failure hoffset (.cons rfl (hquiet.append quiet_nil)) ?_ ?_⟩
            · simp [CompactionOp.request?, hrequests]
            · simp [CompactionOp.request?, hrequests]
        | failed hquiet hrequests hfits =>
            obtain ⟨rfl, rfl⟩ := runs_done_iff.1 hrest
            refine ⟨_, rfl, .of_failure hoffset (.cons rfl (hquiet.append quiet_nil)) ?_ ?_⟩
            · simpa [CompactionOp.request?, hrequests] using hfits
            · simp [CompactionOp.request?, hrequests]
        | @summarized call st' hfits hbound =>
            obtain ⟨answer, rfl, hsent⟩ := ih low hlow st' hend hrest
            refine ⟨answer, rfl, .next hlow hend hsplit hfits hbound ?_ hsent⟩
            rintro st'' rfl hall
            rw [hall] at hrest
            obtain ⟨rfl, hanswer⟩ := compactFragments_end hrest
            cases hanswer
            exact ⟨rfl, rfl⟩
      · rw [dif_neg hlow] at h₂
        obtain ⟨e, -, rfl, rfl⟩ | ⟨tokens, -, h₃⟩ := runs_checked h₂
        · exact ⟨_, rfl, .of_event hoffset rfl rfl⟩
        · obtain ⟨rfl, rfl⟩ := runs_done_iff.1 h₃
          exact ⟨_, rfl, .of_event hoffset rfl rfl⟩

/-- No fragment that starts at the offset fits. -/
def Stuck (model : ModelDriver) (background : Bool) (serialized combined : Units) (offset : Nat) : Prop :=
  ∀ length, 0 < length → offset + length ≤ serialized.length →
    fitsModel model (fragmentRequest serialized combined background offset length).toValue = .ok false

theorem Stuck.fragmentLength {combined : Units} (h : Stuck model background serialized combined offset)
    (hoffset : offset < serialized.length) :
    ∃ low, fragmentLength model serialized combined background offset = .ok low ∧ low = 0 := by
  have hnone := bisect_of_none (fun m hlow hhigh => h m hlow (by omega) :
    ∀ m, 0 < m → m ≤ serialized.length - offset → fitsModel model
      (fragmentRequest serialized combined background offset m).toValue = .ok false)
  refine ⟨_, by rw [Compaction.fragmentLength, hnone]; rfl, ?_⟩
  split <;> rfl

/-- The count for a fragment of two characters, which the error reports, is there. -/
theorem Stuck.inputTokens {combined : Units} (h : Stuck model background serialized combined offset)
    (hoffset : offset < serialized.length) : ∃ tokens, inputTokens model
      (fragmentRequest serialized combined background offset 2).toValue = .ok tokens := by
  have hfits : fitsModel model (fragmentRequest serialized combined background offset 2).toValue
      = .ok false := by
    by_cases htwo : offset + 2 ≤ serialized.length
    · exact h 2 (by omega) htwo
    · have hone := h 1 (by omega) (by omega)
      have hslice : slice serialized offset 2 = slice serialized offset 1 := by
        have hrest : (serialized.drop offset).length ≤ 1 := by
          rw [List.length_drop]
          omega
        rw [slice, slice, List.take_of_length_le (by omega), List.take_of_length_le hrest]
      rwa [fragmentRequest, hslice, ← fragmentRequest]
  obtain ⟨tokens, htokens, -⟩ := Except.map_eq_ok_iff.1 hfits
  exact ⟨tokens, htokens⟩

/-- Where no fragment fits, the loop ends without a request: with the abort it finds there,
    or with a context-budget error. -/
theorem compactFragments_stuck (hoffset : offset < serialized.length)
    (hstuck : Stuck model background serialized st.combined offset)
    (h : (compactFragments model maxSummaryChars background serialized offset st).Runs events outcome) :
    (∃ e, events = [⟨.throwIfAborted, .error e⟩] ∧ outcome = .ok (.error (e, st))) ∨
      ∃ st', events = [⟨.throwIfAborted, .ok ()⟩] ∧ outcome = .ok (.error (.contextBudget, st')) := by
  rw [compactFragments, dif_pos hoffset] at h
  obtain ⟨e, rfl, rfl⟩ | ⟨⟨⟩, es₁, rfl, h₁⟩ := runs_guarded h
  · exact .inl ⟨e, rfl, rfl⟩
  obtain ⟨low, hlow, hzero⟩ := hstuck.fragmentLength hoffset
  obtain ⟨tokens, htokens⟩ := hstuck.inputTokens hoffset
  subst hzero
  rw [hlow] at h₁
  simp only [checked, htokens, Nat.lt_irrefl, dif_neg, not_false_eq_true] at h₁
  obtain ⟨rfl, rfl⟩ := runs_done_iff.1 h₁
  exact .inr ⟨_, rfl, rfl⟩

/-! ## The whole function -/

/-- The requests sent for some items: one with all of them where that fits, and otherwise one
    for each fragment of their JSON text. -/
structure CoversItems (model : ModelDriver) (background : Bool) (items : List ModelItem)
    (sent : List CompactionRequest) : Prop where
  nonempty : sent ≠ []
  whole : fitsModel model (CompactionRequest.toValue ⟨items, background⟩) = .ok true →
    sent = [⟨items, background⟩]
  fragments : fitsModel model (CompactionRequest.toValue ⟨items, background⟩) = .ok false →
    ∃ fragments : List (Units × Units),
      sent = fragments.map (fun f => ⟨fragmentItems f.1 f.2, background⟩)
        ∧ (fragments.map Prod.snd).flatten = stringify (itemsValue items)
        ∧ (∀ f ∈ fragments, f.2 ≠ [])
        ∧ ∀ n, ¬SplitsPair (stringify (itemsValue items))
          ((fragments.map Prod.snd).take n).flatten.length

/-- What the summary calls of a compaction do, in one request or in fragments. -/
structure Summarized (model : ModelDriver) (maxSummaryChars : Nat) (background : Bool)
    (summarize : List ModelItem) (events : List CompactionEvent)
    (answer : Except (Thrown × Progress) Progress) : Prop where
  quiet : Quiet events
  fits : ∀ request ∈ requests events, fitsModel model request.toValue = .ok true
  bounded : fitsModel model (CompactionRequest.toValue ⟨summarize, background⟩) = .ok false →
    (requests events).length ≤ (stringify (itemsValue summarize)).length
  covers : ∀ st, answer = .ok st → CoversItems model background summarize (requests events)
  last : ∀ st, answer = .ok st → LastSummary maxSummaryChars events st.combined

theorem stringify_items_pos (items : List ModelItem) : 0 < (stringify (itemsValue items)).length := by
  simp [stringify, itemsValue, print]

theorem Sent.coversItems {summarize : List ModelItem} {answer : Except (Thrown × Progress) Progress}
    (h : Sent model maxSummaryChars background (stringify (itemsValue summarize)) 0 events answer)
    (hfits : fitsModel model (CompactionRequest.toValue ⟨summarize, background⟩) = .ok false)
    (hanswer : answer = .ok st) : CoversItems model background summarize (requests events) := by
  obtain ⟨sent, hrequests, hcovers⟩ := h.covers st hanswer
  have hflatten := hcovers.flatten
  rw [List.drop_zero] at hflatten
  refine ⟨?_, ?_, fun _ => ⟨sent, hrequests, hflatten, ?_, fun n => ?_⟩⟩
  · rintro hnone
    have hpos := stringify_items_pos summarize
    rw [hrequests, List.map_eq_nil_iff] at hnone
    rw [← hflatten, hnone] at hpos
    exact absurd hpos (Nat.lt_irrefl 0)
  · intro hwhole
    rw [hfits] at hwhole
    cases hwhole
  · intro f hf
    exact hcovers.ne_nil f.2 (List.mem_map_of_mem hf)
  · have hsplit := hcovers.not_splits n (fun h => absurd h.1 (Nat.lt_irrefl 0))
    rwa [Nat.zero_add] at hsplit

theorem summarizeAll_runs {summarize : List ModelItem}
    (h : (summarizeAll model maxSummaryChars background summarize).Runs events outcome) :
    ∃ answer, outcome = .ok answer ∧
      Summarized model maxSummaryChars background summarize events answer := by
  unfold summarizeAll at h
  obtain ⟨e, hfits, rfl, rfl⟩ | ⟨fits, hfits, h₁⟩ := runs_checked h
  · exact ⟨_, rfl, quiet_nil, by simp, by simp, fun _ hok => (by cases hok),
      fun _ hok => (by cases hok)⟩
  cases fits with
  | false =>
      obtain ⟨answer, rfl, hsent⟩ := compactFragments_runs (Nat.zero_le _) h₁
      exact ⟨answer, rfl, hsent.quiet, hsent.fits, fun _ => hsent.bounded,
        fun st hst => hsent.coversItems hfits hst,
        fun st hst => hsent.last st hst (stringify_items_pos summarize)⟩
  | true =>
      obtain ⟨answer, rfl, hcompacted⟩ := compact_runs h₁
      have hno : ∀ {P : Prop}, fitsModel model (CompactionRequest.toValue ⟨summarize, background⟩)
          = .ok false → P := by
        intro P hno
        rw [hfits] at hno
        cases hno
      refine ⟨answer, rfl, ?_⟩
      cases hcompacted with
      | unsent hquiet hrequests =>
          exact ⟨hquiet, by simp [hrequests], hno, fun _ hok => (by cases hok),
            fun _ hok => (by cases hok)⟩
      | failed hquiet hrequests hfits =>
          exact ⟨hquiet, by simpa [hrequests] using hfits, hno, fun _ hok => (by cases hok),
            fun _ hok => (by cases hok)⟩
      | summarized hfits hbound =>
          refine ⟨.cons rfl (.cons rfl (.cons rfl quiet_nil)), ?_, hno, ?_, ?_⟩
          · simpa [CompactionOp.request?] using hfits
          · rintro _ ⟨⟩
            exact ⟨by simp [CompactionOp.request?], fun _ => rfl, hno⟩
          · rintro _ ⟨⟩
            exact ⟨[_], _, _, [_], rfl, rfl, hbound⟩

variable {options : CompactionOptions} {session : SessionRecord} {overheadTokens : Nat}
  {result : Except Thrown CompactionOutcome}

theorem searchBoundary_error {t : BoundaryTest} {history : List ModelItem} {keepTailItems : Nat}
    {e : Thrown} (h : searchBoundary model t history keepTailItems = .error e) :
    t.options.hardLimit ≤ t.estimated := by
  unfold searchBoundary at h
  by_contra hlow
  simp [Int.not_le.1 hlow] at h

/-- How a compaction goes: it ends before the summary calls, or after them. -/
inductive CompactionRun (model : ModelDriver) (options : CompactionOptions) (session : SessionRecord)
    (overheadTokens : Nat) (background : Bool) :
    List CompactionEvent → Except Thrown CompactionOutcome → Prop
  | unestimated {e : Thrown} (hestimate : estimateTokens model session.history = .error e) :
      CompactionRun model options session overheadTokens background [] (.error e)
  | declined : CompactionRun model options session overheadTokens background []
      (.ok { compacted := false })
  | unsearched {tokens : Nat} {e : Thrown} (hestimate : estimateTokens model session.history = .ok tokens)
      (hhard : options.hardLimit ≤ (tokens + overheadTokens : Nat)) :
      CompactionRun model options session overheadTokens background [] (.error e)
  | summarized {tokens boundary : Nat} {first rest : List CompactionEvent}
      {answer : Except (Thrown × Progress) Progress} {result : Except Thrown CompactionOutcome}
      (hestimate : estimateTokens model session.history = .ok tokens)
      (hsearch : searchBoundary model ⟨options, tokens + overheadTokens, overheadTokens, background⟩
        session.history (min session.history.length options.keepTailItems) = .ok boundary)
      (hcalls : (summarizeAll model options.maxSummaryChars background
        (withPrior session.summary (session.history.take boundary))).Runs first (.ok answer))
      (hsummarized : Summarized model options.maxSummaryChars background
        (withPrior session.summary (session.history.take boundary)) first answer)
      (hconclude : (conclude model ⟨options, tokens + overheadTokens, overheadTokens, background⟩
        session.history (session.history.drop boundary) answer).Runs rest result) :
      CompactionRun model options session overheadTokens background (first ++ rest) result

theorem compactIfNeeded_runs
    (h : (compactIfNeeded model options session overheadTokens background).Runs events result) :
    CompactionRun model options session overheadTokens background events result := by
  unfold compactIfNeeded at h
  cases hestimate : estimateTokens model session.history with
  | error e =>
      rw [hestimate] at h
      obtain ⟨rfl, rfl⟩ := runs_done_iff.1 h
      exact .unestimated hestimate
  | ok tokens =>
      rw [hestimate] at h
      simp only [Program.ofExcept, ok_bind] at h
      split at h
      · obtain ⟨rfl, rfl⟩ := runs_done_iff.1 h
        exact .declined
      cases hsearch : searchBoundary model ⟨options, tokens + overheadTokens, overheadTokens, background⟩
          session.history (min session.history.length options.keepTailItems) with
      | error e =>
          rw [hsearch] at h
          obtain ⟨rfl, rfl⟩ := runs_done_iff.1 h
          exact .unsearched hestimate (searchBoundary_error hsearch)
      | ok boundary =>
          rw [hsearch] at h
          simp only [ok_bind] at h
          split at h
          · obtain ⟨rfl, rfl⟩ := runs_done_iff.1 h
            exact .declined
          unfold compactAt at h
          dsimp only at h
          split at h
          · obtain ⟨rfl, rfl⟩ := runs_done_iff.1 h
            exact .declined
          obtain ⟨e, hcalls, -⟩ | ⟨answer, first, rest, rfl, hcalls, hrest⟩ := runs_bind_iff.1 h
          · obtain ⟨answer, hanswer, -⟩ := summarizeAll_runs hcalls
            cases hanswer
          obtain ⟨_, ⟨⟩, hsummarized⟩ := summarizeAll_runs hcalls
          exact .summarized hestimate hsearch hcalls hsummarized hrest

/-- How a compaction ends after its summary calls. An assignment that fails is `broken`. -/
inductive Concluded (model : ModelDriver) (t : BoundaryTest) (history keep : List ModelItem)
    (answer : Except (Thrown × Progress) Progress) :
    List CompactionEvent → Except Thrown CompactionOutcome → Prop
  | threw {events : List CompactionEvent} {e : Thrown} (hquiet : Quiet events)
      (hrequests : requests events = []) (hhard : t.options.hardLimit ≤ t.estimated) :
      Concluded model t history keep answer events (.error e)
  | declined {events : List CompactionEvent} (hquiet : Quiet events)
      (hrequests : requests events = []) :
      Concluded model t history keep answer events (.ok { compacted := false })
  | broken {events : List CompactionEvent} {op : CompactionOp} {e : Thrown}
      (hrequests : requests events = []) (hwrites : op.writes = true)
      (hmem : ⟨op, .error e⟩ ∈ events) : Concluded model t history keep answer events (.error e)
  | assigned (events : List CompactionEvent) {st : Progress} (hquiet : Quiet events)
      (hrequests : requests events = []) (hanswer : answer = .ok st)
      (hshrinks : shrinks model (summaryItem st.combined :: keep) history = .ok true) :
      Concluded model t history keep answer
        (events ++ [⟨.setSummary st.combined, .ok ()⟩,
          ⟨.setHistory (summaryItem st.combined :: keep), .ok ()⟩, ⟨.raiseEpoch, .ok ()⟩])
        (.ok { compacted := true, usage := st.usage })

variable {t : BoundaryTest} {history keep : List ModelItem}
  {answer : Except (Thrown × Progress) Progress}

theorem recover_runs {error : Thrown} (h : (recover model t error st).Runs events result) :
    Concluded model t history keep answer events result := by
  unfold recover at h
  split at h
  · obtain ⟨rfl, rfl⟩ := runs_done_iff.1 h
    exact .declined quiet_nil rfl
  · rename_i hhard
    obtain ⟨e, rfl, rfl⟩ | ⟨aborted, rest, rfl, h₁⟩ := runs_perform_bind_iff.1 h
    · exact .threw (.cons rfl quiet_nil) rfl (Int.not_lt.1 hhard)
    · obtain ⟨rfl, rfl⟩ := runs_done_iff.1 h₁
      exact .threw (.cons rfl quiet_nil) rfl (Int.not_lt.1 hhard)

theorem Concluded.cons {event : CompactionEvent} (hwrites : event.op.writes = false)
    (hrequest : event.op.request? = none) (h : Concluded model t history keep answer events result) :
    Concluded model t history keep answer (event :: events) result := by
  cases h with
  | threw hquiet hrequests hhard => exact .threw (.cons hwrites hquiet) (by simp [hrequest, hrequests]) hhard
  | declined hquiet hrequests => exact .declined (.cons hwrites hquiet) (by simp [hrequest, hrequests])
  | broken hrequests hop hmem =>
      exact .broken (by simp [hrequest, hrequests]) hop (List.mem_cons_of_mem _ hmem)
  | assigned events hquiet hrequests hanswer hshrinks =>
      exact .assigned (event :: events) (.cons hwrites hquiet) (by simp [hrequest, hrequests]) hanswer
        hshrinks

theorem assign_runs (h : (assign model t history keep st).Runs events result) :
    Concluded model t history keep (.ok st) events result := by
  unfold assign at h
  dsimp only at h
  split at h
  · exact recover_runs h
  · obtain ⟨rfl, rfl⟩ := runs_done_iff.1 h
    exact .declined quiet_nil rfl
  · rename_i hshrinks
    obtain ⟨e, rfl, rfl⟩ | ⟨⟨⟩, rest, rfl, h₁⟩ := runs_perform_bind_iff.1 h
    · exact .broken rfl rfl List.mem_cons_self
    obtain ⟨e, rfl, rfl⟩ | ⟨⟨⟩, rest, rfl, h₂⟩ := runs_perform_bind_iff.1 h₁
    · exact .broken rfl rfl (List.mem_cons_of_mem _ List.mem_cons_self)
    obtain ⟨e, rfl, rfl⟩ | ⟨⟨⟩, rest, rfl, h₃⟩ := runs_perform_bind_iff.1 h₂
    · exact .broken rfl rfl (List.mem_cons_of_mem _ (List.mem_cons_of_mem _ List.mem_cons_self))
    obtain ⟨rfl, rfl⟩ := runs_done_iff.1 h₃
    exact .assigned [] quiet_nil rfl rfl hshrinks

theorem conclude_runs (h : (conclude model t history keep answer).Runs events result) :
    Concluded model t history keep answer events result := by
  cases answer with
  | error failure => exact recover_runs h
  | ok st =>
      obtain ⟨outcome, rest, rfl, h₁⟩ := runs_attempt_bind_iff.1 h
      cases outcome with
      | error e => exact (recover_runs h₁).cons rfl rfl
      | ok _ => exact (assign_runs h₁).cons rfl rfl

theorem Concluded.requests_eq (h : Concluded model t history keep answer events result) :
    requests events = [] := by
  cases h with
  | threw _ hrequests _ => exact hrequests
  | declined _ hrequests => exact hrequests
  | broken hrequests _ _ => exact hrequests
  | assigned _ _ hrequests _ _ => simp [hrequests, CompactionOp.request?]

/-- A history is only replaced by a summary of calls that ended without an error. -/
theorem Concluded.answered {outcome : CompactionOutcome}
    (h : Concluded model t history keep answer events (.ok outcome))
    (hcompacted : outcome.compacted = true) : ∃ st, answer = .ok st := by
  cases h with
  | declined => cases hcompacted
  | assigned _ _ _ hanswer _ => exact ⟨_, hanswer⟩

/-- The items a compaction summarizes: those before the boundary the search finds. -/
def Summarizes (model : ModelDriver) (options : CompactionOptions) (session : SessionRecord)
    (overheadTokens : Nat) (background : Bool) (items : List ModelItem) : Prop :=
  ∃ tokens boundary, estimateTokens model session.history = .ok tokens ∧
    searchBoundary model ⟨options, tokens + overheadTokens, overheadTokens, background⟩
      session.history (min session.history.length options.keepTailItems) = .ok boundary ∧
    items = withPrior session.summary (session.history.take boundary)

/-- Every request fits. Where the items to summarize do not fit one request, the fragments
    sent are at most as many as the serialized items have units; if the summary calls end
    without an error, as they do where the history is compacted, they are consecutive and
    nonempty, make up the whole text, and no fragment ends inside a pair. Where no fragment
    fits, the loop ends. -/
theorem fragments_cover_history
    (h : (compactIfNeeded model options session overheadTokens background).Runs events result) :
    (∀ request ∈ requests events, fitsModel model request.toValue = .ok true) ∧
    (requests events = [] ∨ ∃ items first rest answer,
      Summarizes model options session overheadTokens background items ∧
      events = first ++ rest ∧ requests rest = [] ∧
      (summarizeAll model options.maxSummaryChars background items).Runs first (.ok answer) ∧
      (fitsModel model (CompactionRequest.toValue ⟨items, background⟩) = .ok false →
        (requests events).length ≤ (stringify (itemsValue items)).length) ∧
      ∀ st, answer = .ok st → CoversItems model background items (requests events)) ∧
    (∀ outcome, result = .ok outcome → outcome.compacted = true → ∃ items,
      Summarizes model options session overheadTokens background items ∧
      CoversItems model background items (requests events)) ∧
    ∀ serialized offset st events' outcome, offset < serialized.length →
      Stuck model background serialized st.combined offset →
      (compactFragments model options.maxSummaryChars background serialized offset st).Runs events'
        outcome →
      (∃ e, events' = [⟨.throwIfAborted, .error e⟩] ∧ outcome = .ok (.error (e, st))) ∨
        ∃ st', events' = [⟨.throwIfAborted, .ok ()⟩] ∧ outcome = .ok (.error (.contextBudget, st')) := by
  refine ⟨?fits, ?sent, ?compacted,
    fun _ _ _ _ _ hoffset hstuck hrun => compactFragments_stuck hoffset hstuck hrun⟩
  all_goals cases compactIfNeeded_runs h
  case fits.summarized _ _ _ _ _ _ _ hsummarized hconclude =>
    rw [requests_append, (conclude_runs hconclude).requests_eq, List.append_nil]
    exact hsummarized.fits
  case sent.summarized first rest answer hestimate hsearch hcalls hsummarized hconclude =>
    have hrest := (conclude_runs hconclude).requests_eq
    refine .inr ⟨_, first, rest, answer, ⟨_, _, hestimate, hsearch, rfl⟩, rfl, hrest, hcalls, ?_⟩
    rw [requests_append, hrest, List.append_nil]
    exact ⟨hsummarized.bounded, hsummarized.covers⟩
  case compacted.summarized hestimate hsearch _ hsummarized hconclude =>
    rintro outcome rfl hcompacted
    obtain ⟨st, hst⟩ := (conclude_runs hconclude).answered hcompacted
    refine ⟨_, ⟨_, _, hestimate, hsearch, rfl⟩, ?_⟩
    rw [requests_append, (conclude_runs hconclude).requests_eq, List.append_nil]
    exact hsummarized.covers st hst
  case compacted.declined =>
    rintro _ ⟨⟩ hcompacted
    cases hcompacted
  all_goals simp

/-- The four fields, with nothing in them. -/
def emptySummary : Units := literal
  ("\x7b\"observedResults\":\"\",\"decisions\":\"\",\"remainingWork\":\"\","
    ++ "\"uncertainties\":\"\"\x7d")

/-- A signal that is never aborted, and a model that answers with an empty summary. -/
def plainHost : (op : CompactionOp) → Except Thrown op.Value
  | .compact _ => .ok ⟨emptySummary, "model", ⟨true, 3, 1⟩⟩
  | .aborted => .ok false
  | .throwIfAborted | .setSummary _ | .setHistory _ | .raiseEpoch => .ok ()

/-- A compaction of items that do not fit one request. -/
private theorem compactIfNeeded_fragments {tokens boundary : Nat}
    (hestimate : estimateTokens model session.history = .ok tokens)
    (hsoft : options.softLimit ≤ tokens + overheadTokens)
    (hsearch : searchBoundary model ⟨options, tokens + overheadTokens, overheadTokens, false⟩
      session.history (min session.history.length options.keepTailItems) = .ok boundary)
    (hboundary : boundary ≠ 0)
    (hwhole : fitsModel model (CompactionRequest.toValue
      ⟨withPrior session.summary (session.history.take boundary), false⟩) = .ok false) :
    compactIfNeeded model options session overheadTokens false
      = compactFragments model options.maxSummaryChars false
          (stringify (itemsValue (withPrior session.summary (session.history.take boundary)))) 0 {}
        >>= conclude model ⟨options, tokens + overheadTokens, overheadTokens, false⟩
          session.history (session.history.drop boundary) := by
  have hlow : ¬(tokens : Int) + overheadTokens < options.softLimit := by omega
  simp [compactIfNeeded, hestimate, Program.ofExcept, hlow, hsearch, hboundary, compactAt,
    summarizeAll, checked, hwhole]

/-- One round of the loop, where nothing fails. -/
private theorem exec_round {low tokens : Nat} {combined : Units} {β : Type} (st : Progress)
    (next : Except (Thrown × Progress) Progress → CompactionProgram β)
    (hoffset : offset < serialized.length) (hlow : 0 < low)
    (hfound : fragmentLength model serialized st.combined background offset = .ok low)
    (htokens : inputTokens model
      (fragmentRequest serialized st.combined background offset low).toValue = .ok tokens)
    (hfits : model.profile.fits tokens = true)
    (hbound : boundSummary emptySummary maxSummaryChars = .ok combined) :
    ∃ first st', requests first = [fragmentRequest serialized st.combined background offset low]
      ∧ st'.combined = combined
      ∧ st'.usage = some (CompactionUsage.add st.usage ⟨emptySummary, "model", ⟨true, 3, 1⟩⟩)
      ∧ let rest := (compactFragments model maxSummaryChars background serialized (offset + low) st'
          >>= next).exec plainHost
        (compactFragments model maxSummaryChars background serialized offset st >>= next).exec plainHost
          = (first ++ rest.1, rest.2) := by
  rw [compactFragments, dif_pos hoffset]
  simp only [guarded, checked, hfound, dif_pos hlow, compact, htokens, fitsModel, Except.map, hfits,
    if_true]
  refine ⟨[⟨.throwIfAborted, .ok ()⟩, ⟨.throwIfAborted, .ok ()⟩,
      ⟨.compact (fragmentRequest serialized st.combined background offset low), plainHost (.compact _)⟩,
      ⟨.throwIfAborted, .ok ()⟩],
    Progress.complete { st with requestInputTokens := tokens, validatingSummary := true } combined
      ⟨emptySummary, "model", ⟨true, 3, 1⟩⟩, rfl, rfl, rfl, ?_⟩
  simp [exec, perform, attempt, plainHost, hbound]

/-- A model that takes a request unless it has an x where a whole history has one, or a first
    fragment of more than 29 units. -/
private def narrowModel : ModelDriver :=
  ⟨⟨1000, 0, 0⟩, some fun text =>
    some (if text[27]? = some 120 then 2 else if text[833]? = some 120 then 1000 else 1)⟩

private def narrowSession : SessionRecord where
  history := [.message .user (List.replicate 220 120)]

private def narrowText : Units := stringify (itemsValue narrowSession.history)

private def narrowRun : List CompactionEvent × Except Thrown CompactionOutcome :=
  (compactIfNeeded narrowModel ⟨0, 0, 0, 320⟩ narrowSession 0 false).exec plainHost

private theorem narrow_first :
    fitsModel narrowModel (CompactionRequest.toValue ⟨narrowSession.history, false⟩) = .ok false
      ∧ fragmentLength narrowModel narrowText [] false 0 = .ok 29
      ∧ inputTokens narrowModel (fragmentRequest narrowText [] false 0 29).toValue = .ok 1 := by
  unfold fragmentLength fragmentRequest fragmentItems fitsModel inputTokens
    CompactionRequest.toValue compactionInstructions fragmentPrefix literal
  simp only [String.toList_append]
  repeat rw [String.toList_ofList]
  decide +kernel

private def narrowSummary : Units := (boundSummary emptySummary 320).toOption.getD []

private theorem narrow_rest : boundSummary emptySummary 320 = .ok narrowSummary
      ∧ fragmentLength narrowModel narrowText narrowSummary false 29 = .ok 221
      ∧ inputTokens narrowModel (fragmentRequest narrowText narrowSummary false 29 221).toValue
        = .ok 1 := by
  unfold fragmentLength fragmentRequest fragmentItems fitsModel inputTokens summaryItem
    CompactionRequest.toValue compactionInstructions fragmentPrefix summaryPrefix
    narrowSummary emptySummary literal
  simp only [String.toList_append]
  repeat rw [String.toList_ofList]
  decide +kernel

private theorem narrow_estimates :
    estimateTokens narrowModel narrowSession.history = .ok 2
      ∧ estimateTokens narrowModel [summaryItem narrowSummary] = .ok 1
      ∧ searchBoundary narrowModel ⟨⟨0, 0, 0, 320⟩, 2 + 0, 0, false⟩ narrowSession.history
        (min narrowSession.history.length 0) = .ok 1
      ∧ narrowText.length = 250 := by
  decide +kernel

private theorem narrowRun_compacted :
    narrowRun.2 = .ok { compacted := true, usage := some ⟨"model", 6, 2, true⟩ }
      ∧ (requests narrowRun.1).length = 2 := by
  obtain ⟨hwhole, hfound₁, htokens₁⟩ := narrow_first
  obtain ⟨hbound, hfound₂, htokens₂⟩ := narrow_rest
  obtain ⟨hestimate, hnew, hsearch, hlength⟩ := narrow_estimates
  have hend : ¬ 0 + 29 + 221 < narrowText.length := by
    rw [hlength]
    decide
  have hfits : narrowModel.profile.fits 1 = true := by decide
  have hloops : compactIfNeeded narrowModel ⟨0, 0, 0, 320⟩ narrowSession 0 false
      = compactFragments narrowModel 320 false narrowText 0 {}
        >>= conclude narrowModel ⟨⟨0, 0, 0, 320⟩, 2, 0, false⟩ narrowSession.history [] :=
    compactIfNeeded_fragments hestimate (by decide) hsearch (by decide) hwhole
  obtain ⟨first₁, st₁, hrequests₁, hcombined₁, husage₁, hexec₁⟩ := exec_round {}
    (conclude narrowModel ⟨⟨0, 0, 0, 320⟩, 2, 0, false⟩ narrowSession.history [])
    (by omega) (by omega) hfound₁ htokens₁ hfits hbound
  rw [← hcombined₁] at hfound₂ htokens₂
  obtain ⟨first₂, st₂, hrequests₂, hcombined₂, husage₂, hexec₂⟩ := exec_round st₁
    (conclude narrowModel ⟨⟨0, 0, 0, 320⟩, 2, 0, false⟩ narrowSession.history [])
    (by omega) (by omega) hfound₂ htokens₂ hfits hbound
  rw [narrowRun, hloops, hexec₁, hexec₂, compactFragments, dif_neg hend]
  simp [conclude, exec, attempt, perform, plainHost, assign, shrinks, hcombined₂, hnew, hestimate,
    hrequests₁, hrequests₂, CompactionOp.request?, husage₂, husage₁, CompactionUsage.add]

/-- A message of 220 characters goes to the model in two fragments. -/
theorem fragments_cover_history_narrow : (requests narrowRun.1).length = 2
    ∧ ∃ items, Summarizes narrowModel ⟨0, 0, 0, 320⟩ narrowSession 0 false items
      ∧ CoversItems narrowModel false items (requests narrowRun.1) := by
  obtain ⟨hresult, hlength⟩ := narrowRun_compacted
  exact ⟨hlength, (fragments_cover_history (runs_exec plainHost _)).2.2.1 _ hresult rfl⟩

end LingxiOS.Compaction
