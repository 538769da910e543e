-- SUMMARY: Compaction is atomic and keeps tool pairs.
import LingxiOS.Compaction.Fragments

/-! # Atomicity

The session is assigned to at the end of a compaction, after everything that can
fail, or not at all. What is kept of the history is a suffix that is closed over
tool pairs and holds every call that still waits for its output. -/

namespace LingxiOS.Compaction

open JsonText Stringify Program

variable {model : ModelDriver} {options : CompactionOptions} {session : SessionRecord}
  {overheadTokens : Nat} {background : Bool} {events : List CompactionEvent}
  {result : Except Thrown CompactionOutcome}

/-! ## The session after a run -/

/-- Assigning to the session never throws. -/
def Behaves (event : CompactionEvent) : Prop :=
  event.op.writes = true → ∃ answer, event.answer = .ok answer

theorem SessionRecord.apply_of_quiet {event : CompactionEvent} (h : event.op.writes = false) :
    session.apply event = session := by
  obtain ⟨op, answer⟩ := event
  cases op with
  | throwIfAborted | aborted | compact => rfl
  | setSummary | setHistory | raiseEpoch => cases h

theorem Quiet.after (h : Quiet events) : session.after events = session := by
  induction events with
  | nil => rfl
  | cons event rest ih =>
      obtain ⟨hevent, hrest⟩ := List.forall_mem_cons.1 h
      rw [SessionRecord.after, List.foldl_cons, SessionRecord.apply_of_quiet hevent]
      exact ih hrest

theorem SessionRecord.after_append (first rest : List CompactionEvent) :
    session.after (first ++ rest) = (session.after first).after rest := List.foldl_append

theorem LastSummary.append_quiet {maxSummaryChars : Nat} {combined : Units}
    {rest : List CompactionEvent} (h : LastSummary maxSummaryChars events combined)
    (hrest : requests rest = []) : LastSummary maxSummaryChars (events ++ rest) combined := by
  obtain ⟨before, request, call, after, rfl, hafter, hbound⟩ := h
  refine ⟨before, request, call, after ++ rest, by simp, ?_, hbound⟩
  rw [requests_append, hafter, hrest, List.append_nil]

/-- What a compaction that behaves comes to. -/
inductive Settled (model : ModelDriver) (options : CompactionOptions) (session : SessionRecord)
    (overheadTokens : Nat) (background : Bool) (events : List CompactionEvent) :
    Except Thrown CompactionOutcome → Prop
  | unestimated {e : Thrown} (hestimate : estimateTokens model session.history = .error e)
      (hafter : session.after events = session) :
      Settled model options session overheadTokens background events (.error e)
  | threw {tokens : Nat} {e : Thrown} (hestimate : estimateTokens model session.history = .ok tokens)
      (hhard : options.hardLimit ≤ (tokens + overheadTokens : Nat))
      (hafter : session.after events = session) :
      Settled model options session overheadTokens background events (.error e)
  | declined (hafter : session.after events = session) :
      Settled model options session overheadTokens background events (.ok { compacted := false })
  | compacted {tokens boundary : Nat} {combined : Units} {usage : Option CompactionUsage}
      (hestimate : estimateTokens model session.history = .ok tokens)
      (hsearch : searchBoundary model ⟨options, tokens + overheadTokens, overheadTokens, background⟩
        session.history (min session.history.length options.keepTailItems) = .ok boundary)
      (hlast : LastSummary options.maxSummaryChars events combined)
      (hafter : session.after events = { session with
        summary := some combined
        history := summaryItem combined :: session.history.drop boundary
        compactionEpoch := session.compactionEpoch + 1 })
      (hshrinks : shrinks model (summaryItem combined :: session.history.drop boundary)
        session.history = .ok true) :
      Settled model options session overheadTokens background events
        (.ok { compacted := true, usage := usage })

theorem settled_of_runs
    (h : (compactIfNeeded model options session overheadTokens background).Runs events result)
    (hbehaves : ∀ event ∈ events, Behaves event) :
    Settled model options session overheadTokens background events result := by
  cases compactIfNeeded_runs h with
  | unestimated hestimate => exact .unestimated hestimate rfl
  | declined => exact .declined rfl
  | unsearched hestimate hhard => exact .threw hestimate hhard rfl
  | @summarized tokens boundary first rest answer _ hestimate hsearch _ hsummarized hconclude =>
      have hfirst := hsummarized.quiet
      cases conclude_runs hconclude with
      | threw hquiet _ hhard => exact .threw hestimate hhard (hfirst.append hquiet).after
      | declined hquiet _ => exact .declined (hfirst.append hquiet).after
      | broken _ hwrites hmem =>
          obtain ⟨answer, hanswer⟩ := hbehaves _ (List.mem_append_right _ hmem) hwrites
          cases hanswer
      | @assigned middle st hquiet hrequests hanswer hshrinks =>
          have hlast := hsummarized.last st hanswer
          refine .compacted hestimate hsearch (hlast.append_quiet ?_) ?_ hshrinks
          · simp [hrequests, CompactionOp.request?]
          · rw [← List.append_assoc, SessionRecord.after_append, (hfirst.append hquiet).after]
            rfl

/-- A compaction that throws or declines leaves the session as it was. One that compacts
    raises the epoch, keeps the last bounded summary and makes the history smaller. It
    throws only at the hard limit, or when the history cannot be counted at all. -/
theorem compaction_atomic
    (h : (compactIfNeeded model options session overheadTokens background).Runs events result)
    (hbehaves : ∀ event ∈ events, Behaves event) :
    (∀ e, result = .error e → session.after events = session ∧
      (estimateTokens model session.history = .error e ∨
        ∃ tokens, estimateTokens model session.history = .ok tokens ∧
          options.hardLimit ≤ (tokens + overheadTokens : Nat))) ∧
    (∀ outcome, result = .ok outcome → outcome.compacted = false → session.after events = session) ∧
    ∀ outcome, result = .ok outcome → outcome.compacted = true → ∃ combined old new,
      (session.after events).compactionEpoch = session.compactionEpoch + 1 ∧
      (session.after events).summary = some combined ∧
      LastSummary options.maxSummaryChars events combined ∧
      estimateTokens model session.history = .ok old ∧
      estimateTokens model (session.after events).history = .ok new ∧ new < old := by
  cases settled_of_runs h hbehaves with
  | unestimated hestimate hafter =>
      refine ⟨?_, fun _ hok => (by cases hok), fun _ hok => (by cases hok)⟩
      rintro _ ⟨⟩
      exact ⟨hafter, .inl hestimate⟩
  | threw hestimate hhard hafter =>
      refine ⟨?_, fun _ hok => (by cases hok), fun _ hok => (by cases hok)⟩
      rintro _ ⟨⟩
      exact ⟨hafter, .inr ⟨_, hestimate, hhard⟩⟩
  | declined hafter =>
      refine ⟨fun _ herror => (by cases herror), fun _ _ _ => hafter, ?_⟩
      rintro _ ⟨⟩ hcompacted
      cases hcompacted
  | compacted hestimate _ hlast hafter hshrinks =>
      refine ⟨fun _ herror => (by cases herror), ?_, ?_⟩
      · rintro _ ⟨⟩ hcompacted
        cases hcompacted
      · rintro _ ⟨⟩ -
        obtain ⟨new, hnew, hold⟩ := Except.bind_ok hshrinks
        obtain ⟨old, hold, hlt⟩ := Except.bind_ok hold
        rw [hafter]
        refine ⟨_, old, new, rfl, rfl, hlast, hold, hnew, ?_⟩
        simpa using hlt

/-- A model that counts one token for a text that starts with an item's type. -/
def typeModel : ModelDriver :=
  ⟨⟨1000, 0, 0⟩, some fun text => some (if text[3]? = some 116 then 1 else 0)⟩

/-- Two calls, each with its output after it. -/
private def answeredSession : SessionRecord where
  history := [.functionCall [97] [116] [] none, .functionCallOutput [97] [111, 107],
    .functionCall [98] [116] [] none, .functionCallOutput [98] [111, 107]]

/-- One item is to be kept. -/
private def answeredRun : List CompactionEvent × Except Thrown CompactionOutcome :=
  (compactIfNeeded typeModel ⟨0, 100, 1, 320⟩ answeredSession 0 false).exec plainHost

theorem plainHost_behaves (op : CompactionOp) : Behaves ⟨op, plainHost op⟩ := by
  intro _
  cases op <;> exact ⟨_, rfl⟩

private theorem answeredRun_compacted :
    answeredRun.2 = .ok { compacted := true, usage := some ⟨"model", 3, 1, true⟩ } := by
  decide +kernel

/-- An answered call is folded into a summary. -/
theorem compaction_atomic_answered : ∃ combined old new,
    (answeredSession.after answeredRun.1).compactionEpoch = 1 ∧
    (answeredSession.after answeredRun.1).summary = some combined ∧
    LastSummary 320 answeredRun.1 combined ∧
    estimateTokens typeModel answeredSession.history = .ok old ∧
    estimateTokens typeModel (answeredSession.after answeredRun.1).history = .ok new ∧ new < old :=
  (compaction_atomic (runs_exec plainHost _) (exec_forall plainHost_behaves _)).2.2 _
    answeredRun_compacted rfl

/-- A model whose counter gives no usable count. -/
private def blindModel : ModelDriver := ⟨⟨128000, 8192, 0⟩, some fun _ => none⟩

/-- It throws below any hard limit, since there is no estimate to compare. -/
theorem uncounted_history_throws : ∃ result,
    (compactIfNeeded blindModel ⟨0, 1000000, 20, 24000⟩ { history := [] } 0 false).Runs []
      (.error result) ∧
    ¬∃ tokens, estimateTokens blindModel [] = .ok tokens ∧ (1000000 : Int) ≤ (tokens + 0 : Nat) := by
  refine ⟨.other "invalid model token estimate", .done _, ?_⟩
  rintro ⟨tokens, htokens, -⟩
  cases htokens

/-! ## Tool pairs -/

/-- The search ends with the cut of some tail, unless the tokens of a tail cannot be counted. -/
theorem searchBoundary_total (t : BoundaryTest) (history : List ModelItem) (keepTailItems : Nat) :
    (∃ tail, searchBoundary model t history keepTailItems = .ok (tailBoundary history tail)) ∨
      ∃ kept e, kept <:+ history ∧ estimateTokens model kept = .error e ∧
        searchBoundary model t history keepTailItems = .error e := by
  induction keepTailItems using searchBoundary.induct model t history with
  | case1 tail hlow =>
      refine .inl ⟨tail, ?_⟩
      rw [searchBoundary]
      simp only [hlow, if_true]
  | case2 hlow =>
      refine .inl ⟨0, ?_⟩
      rw [searchBoundary]
      simp
  | case3 tail boundary hlow hpos e hcount =>
      refine .inr ⟨_, e, List.drop_suffix boundary history, hcount, ?_⟩
      rw [searchBoundary]
      simp only [hlow, hpos, hcount, boundary, Bool.false_eq_true, if_false, dite_false]
  | case4 tail boundary hlow hpos tokens hcount hroom =>
      refine .inl ⟨tail, ?_⟩
      rw [searchBoundary]
      simp only [hlow, hpos, hcount, hroom, boundary, Bool.false_eq_true, if_false, if_true, dite_false]
  | case5 tail boundary hlow hpos tokens hcount hroom ih =>
      rw [searchBoundary]
      simp only [hlow, hpos, hcount, hroom, boundary, Bool.false_eq_true, if_false, dite_false]
      exact ih

/-- What a boundary that was found keeps together. -/
theorem tailBoundary_keeps (history : List ModelItem) (tail : Nat) :
    (∀ item ∈ history.drop (tailBoundary history tail), ∀ id, item.outputId? = some id →
      (∃ call ∈ history, call.callId? = some id) →
      ∃ call ∈ history.drop (tailBoundary history tail), call.callId? = some id) ∧
    ∀ index call id, history[index]? = some call → call.callId? = some id →
      (∀ item ∈ history, item.outputId? ≠ some id) → tailBoundary history tail ≤ index := by
  constructor
  · intro item hitem id hid hcall
    exact Pairs.cut_closed.opened hitem hid hcall
  · intro index call id hcall hid hnone
    apply Pairs.cut_le_of_open hcall
    simpa [Pairs.isOpen, hid] using hnone

/-- A compaction keeps a suffix of the history after its summary: every output in it has
    its call in it, if the history holds that call, and every call without an output is in
    it. The search for the boundary always ends. -/
theorem tool_pairs_survive {outcome : CompactionOutcome}
    (h : (compactIfNeeded model options session overheadTokens background).Runs events (.ok outcome))
    (hbehaves : ∀ event ∈ events, Behaves event) (hcompacted : outcome.compacted = true) :
    (∃ combined boundary,
      (session.after events).history = summaryItem combined :: session.history.drop boundary ∧
      (∀ item ∈ session.history.drop boundary, ∀ id, item.outputId? = some id →
        (∃ call ∈ session.history, call.callId? = some id) →
        ∃ call ∈ session.history.drop boundary, call.callId? = some id) ∧
      ∀ index call id, session.history[index]? = some call → call.callId? = some id →
        (∀ item ∈ session.history, item.outputId? ≠ some id) → boundary ≤ index) ∧
    ∀ (t : BoundaryTest) keepTailItems,
      (∃ boundary, searchBoundary model t session.history keepTailItems = .ok boundary) ∨
        ∃ kept e, kept <:+ session.history ∧ estimateTokens model kept = .error e ∧
          searchBoundary model t session.history keepTailItems = .error e := by
  constructor
  · cases settled_of_runs h hbehaves with
    | declined _ => cases hcompacted
    | @compacted tokens boundary combined _ _ hsearch _ hafter _ =>
        have htotal := @searchBoundary_total model ⟨options, tokens + overheadTokens,
          overheadTokens, background⟩ session.history
          (min session.history.length options.keepTailItems)
        rcases htotal with ⟨tail, htail⟩ | ⟨_, _, _, _, herror⟩
        · obtain rfl : boundary = tailBoundary session.history tail :=
            Except.ok.inj (hsearch.symm.trans htail)
          refine ⟨combined, _, by rw [hafter], tailBoundary_keeps session.history tail⟩
        · rw [herror] at hsearch
          cases hsearch
  · intro t keepTailItems
    rcases @searchBoundary_total model t session.history keepTailItems
      with ⟨tail, htail⟩ | herror
    · exact .inl ⟨_, htail⟩
    · exact .inr herror

/-- The last output is kept with its call; the first pair is folded into the summary. -/
theorem tool_pairs_survive_answered : ∃ combined,
    (answeredSession.after answeredRun.1).history
        = summaryItem combined :: answeredSession.history.drop 2
      ∧ ∃ call ∈ answeredSession.history.drop 2, call.callId? = some [98] := by
  obtain ⟨combined, boundary, hhistory, hpairs, -⟩ := (tool_pairs_survive
    (answeredRun_compacted ▸ runs_exec plainHost _) (exec_forall plainHost_behaves _) rfl).1
  have hlength : (answeredSession.after answeredRun.1).history.length = 3 := by decide +kernel
  have hboundary : boundary = 2 := by
    rw [answeredRun, hhistory, List.length_cons, List.length_drop] at hlength
    have hfour : answeredSession.history.length = 4 := rfl
    omega
  subst hboundary
  exact ⟨combined, hhistory, hpairs (.functionCallOutput [98] [111, 107]) (by decide) _ rfl
    ⟨.functionCall [98] [116] [] none, by decide, rfl⟩⟩

end LingxiOS.Compaction
