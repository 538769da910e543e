-- SUMMARY: Background compaction: a candidate and its installation.
import LingxiOS.Compaction.Atomicity

/-! # Candidates

A translation of `prepareCompaction`. A candidate compares the live session with
the base it was made from and installs once. What was appended meanwhile follows
the compacted base, but an output that was appended may come after its call was
folded away: a call whose id the base had answered before counts as answered. -/

namespace LingxiOS

deriving instance DecidableEq for ObligationKind
deriving instance DecidableEq for DeliveryObligation
deriving instance DecidableEq for ResourceCheckRecord
deriving instance DecidableEq for RequestSnapshot

namespace Compaction

open JsonText Stringify Program

/-! ## The candidate -/

/-- The request without its evidence, its resource checks and its contract. -/
def requirements (request : Option RequestSnapshot) : Option RequestSnapshot :=
  request.map fun request =>
    { request with evidence := ⟨0, "", []⟩, resourceChecks := none, contract := none }

structure CandidateBase where
  history : List ModelItem
  summary : Option Units
  epoch : Nat
  request : Option RequestSnapshot

structure Candidate where
  base : CandidateBase
  copy : SessionRecord
  outcome : Option CompactionOutcome := none

def prepareCompaction (session : SessionRecord) : Candidate where
  base := ⟨session.history, session.summary, session.compactionEpoch, requirements session.request⟩
  copy := session

/-- What the compaction of the copy leaves once it has settled; a promise settles once. -/
def Candidate.settle (candidate : Candidate) (events : List CompactionEvent)
    (result : Except Thrown CompactionOutcome) : Candidate :=
  if candidate.outcome.isSome then candidate
  else { candidate with
    copy := candidate.copy.after events
    outcome := some (match result with
      | .ok outcome => outcome
      | .error _ => { compacted := false }) }

/-- The live session is no longer the base with something after it. -/
def CandidateBase.Differs (base : CandidateBase) (current : SessionRecord) : Prop :=
  current.compactionEpoch ≠ base.epoch ∨ current.summary ≠ base.summary
    ∨ requirements current.request ≠ base.request
    ∨ current.history.take base.history.length ≠ base.history

instance (base : CandidateBase) (current : SessionRecord) : Decidable (base.Differs current) :=
  inferInstanceAs (Decidable (_ ∨ _ ∨ _ ∨ _))

def Candidate.install (candidate : Candidate) (current : SessionRecord) :
    Candidate × SessionRecord × CompactionOutcome :=
  match candidate.outcome with
  | none => (candidate, current, { compacted := false })
  | some outcome =>
      if !outcome.compacted ∨ candidate.base.Differs current then
        (candidate, current, { compacted := false })
      else
        ({ candidate with outcome := some { compacted := false } },
          { current with
            history := candidate.copy.history ++ current.history.drop candidate.base.history.length
            summary := candidate.copy.summary
            compactionEpoch := candidate.copy.compactionEpoch },
          outcome)

/-! ## The live session -/

/-- What the turn does to the live session without replacing its history or its requirements. -/
inductive Change where
  | append (items : List ModelItem)
  | evidence (evidence : EvidenceSnapshot)
  | resourceChecks (checks : Option (List ResourceCheckRecord))
  | contract (contract : Option TaskContract)

def SessionRecord.change (session : SessionRecord) : Change → SessionRecord
  | .append items => { session with history := session.history ++ items }
  | .evidence evidence =>
      { session with request := session.request.map ({ · with evidence := evidence }) }
  | .resourceChecks checks =>
      { session with request := session.request.map ({ · with resourceChecks := checks }) }
  | .contract contract =>
      { session with request := session.request.map ({ · with contract := contract }) }

def SessionRecord.changes (session : SessionRecord) (changes : List Change) : SessionRecord :=
  changes.foldl SessionRecord.change session

def Change.items : Change → List ModelItem
  | .append items => items
  | .evidence _ | .resourceChecks _ | .contract _ => []

/-- The items some changes append. -/
def appended (changes : List Change) : List ModelItem := changes.flatMap Change.items

theorem requirements_change (session : SessionRecord) (change : Change) :
    requirements (session.change change).request = requirements session.request := by
  cases change with
  | append => rfl
  | evidence | resourceChecks | contract =>
      simp only [requirements, SessionRecord.change, Option.map_map]
      rfl

theorem SessionRecord.changes_cons (session : SessionRecord) (change : Change) (rest : List Change) :
    session.changes (change :: rest) = (session.change change).changes rest := rfl

/-- Such changes leave the base in front of what they append. -/
theorem SessionRecord.changes_spec (session : SessionRecord) (changes : List Change) :
    (session.changes changes).history = session.history ++ appended changes ∧
      (session.changes changes).summary = session.summary ∧
      (session.changes changes).compactionEpoch = session.compactionEpoch ∧
      requirements (session.changes changes).request = requirements session.request := by
  induction changes generalizing session with
  | nil => simp [SessionRecord.changes, appended]
  | cons change rest ih =>
      obtain ⟨hhistory, hsummary, hepoch, hrequest⟩ := ih (session.change change)
      rw [SessionRecord.changes_cons, hhistory, hsummary, hepoch, hrequest, requirements_change]
      cases change with
      | append items => simp [SessionRecord.change, appended, Change.items]
      | evidence | resourceChecks | contract => simp [SessionRecord.change, appended, Change.items]

theorem not_differs_changes (session : SessionRecord) (changes : List Change) :
    ¬(prepareCompaction session).base.Differs (session.changes changes) := by
  obtain ⟨hhistory, hsummary, hepoch, hrequest⟩ := session.changes_spec changes
  rintro (h | h | h | h)
  · exact h hepoch
  · exact h hsummary
  · exact h hrequest
  · apply h
    simp [hhistory, prepareCompaction]

/-! ## Pairs across the seam -/

/-- Every call of the id lies before some boundary that keeps at least so many items, with
    every call before it answered and no answered pair across it. -/
def Droppable (history : List ModelItem) (keepTailItems : Nat) (id : Units) : Prop :=
  ∃ boundary, boundary ≤ history.length - keepTailItems ∧
    (∀ item ∈ history.take boundary,
      Pairs.isOpen ModelItem.callId? ModelItem.outputId? history item = false) ∧
    Pairs.Closed ModelItem.callId? ModelItem.outputId? history boundary ∧
    ∀ item ∈ history.drop boundary, item.callId? ≠ some id

/-- An id can be dropped exactly when the boundary that keeps so many items drops it. -/
theorem droppable_iff {history : List ModelItem} {keepTailItems : Nat} {id : Units} :
    Droppable history keepTailItems id ↔
      ¬∃ call ∈ history.drop (tailBoundary history keepTailItems), call.callId? = some id := by
  constructor
  · rintro ⟨boundary, hle, hnone, hclosed, hdrop⟩ ⟨call, hcall, hid⟩
    have hcut : boundary ≤ tailBoundary history keepTailItems := Pairs.le_cut hle hnone hclosed
    exact hdrop call ((List.drop_sublist_drop_left history hcut).subset hcall) hid
  · intro hnone
    refine ⟨tailBoundary history keepTailItems, Pairs.cut_le,
      fun item hitem => Pairs.not_open_of_mem_take_cut hitem, Pairs.cut_closed, ?_⟩
    intro item hitem hid
    exact hnone ⟨item, hitem, hid⟩

/-- Every output that was appended to the base has a call in the new history, if it had one. -/
def PairsKept (base appended installed : List ModelItem) : Prop :=
  ∀ item ∈ appended, ∀ id, item.outputId? = some id →
    (∃ call ∈ base ++ appended, call.callId? = some id) →
    ∃ call ∈ installed, call.callId? = some id

/-- No output is appended whose calls the base can drop, unless such a call is appended too. -/
def Seamless (base appended : List ModelItem) (keepTailItems : Nat) : Prop :=
  ∀ item ∈ appended, ∀ id, item.outputId? = some id →
    (∃ call ∈ base, call.callId? = some id) → Droppable base keepTailItems id →
    ∃ call ∈ appended, call.callId? = some id

theorem pairsKept_iff {base appended : List ModelItem} {keepTailItems : Nat} (summary : Units) :
    PairsKept base appended
        (summaryItem summary :: base.drop (tailBoundary base keepTailItems) ++ appended)
      ↔ Seamless base appended keepTailItems := by
  have hsummary : (summaryItem summary).callId? = none := rfl
  constructor
  · intro h item hitem id hid ⟨call, hcall, hcallId⟩ hdroppable
    obtain ⟨kept, hkept, hkeptId⟩ :=
      h item hitem id hid ⟨call, List.mem_append_left _ hcall, hcallId⟩
    rcases List.mem_append.1 hkept with hbefore | hafter
    · rcases List.mem_cons.1 hbefore with rfl | hbase
      · rw [hsummary] at hkeptId
        cases hkeptId
      · exact absurd ⟨kept, hbase, hkeptId⟩ (droppable_iff.1 hdroppable)
    · exact ⟨kept, hafter, hkeptId⟩
  · intro h item hitem id hid ⟨call, hcall, hcallId⟩
    by_cases happended : ∃ call ∈ appended, call.callId? = some id
    · obtain ⟨kept, hkept, hkeptId⟩ := happended
      exact ⟨kept, List.mem_append_right _ hkept, hkeptId⟩
    · have hbase : ∃ call ∈ base, call.callId? = some id := by
        rcases List.mem_append.1 hcall with hbase | hafter
        · exact ⟨call, hbase, hcallId⟩
        · exact absurd ⟨call, hafter, hcallId⟩ happended
      have hkept : ∃ call ∈ base.drop (tailBoundary base keepTailItems), call.callId? = some id := by
        by_contra hnone
        exact happended (h item hitem id hid hbase (droppable_iff.2 hnone))
      obtain ⟨kept, hkept, hkeptId⟩ := hkept
      exact ⟨kept, List.mem_append_left _ (List.mem_cons_of_mem _ hkept), hkeptId⟩

/-! ## Runs -/

/-- What can happen to a candidate and the live session. -/
inductive CandidateStep where
  | settled (events : List CompactionEvent) (result : Except Thrown CompactionOutcome)
  | changed (current : SessionRecord)
  | installed

/-- A step, with what an installation returns. -/
def Candidate.step (candidate : Candidate) (current : SessionRecord) :
    CandidateStep → Candidate × SessionRecord × Option CompactionOutcome
  | .settled events result => (candidate.settle events result, current, none)
  | .changed current => (candidate, current, none)
  | .installed =>
      let (candidate, current, outcome) := candidate.install current
      (candidate, current, some outcome)

/-- What the installations of a run return, in order. -/
def Candidate.installs (candidate : Candidate) (current : SessionRecord) :
    List CandidateStep → List CompactionOutcome
  | [] => []
  | step :: rest =>
      let (candidate, current, outcome) := candidate.step current step
      outcome.toList ++ candidate.installs current rest

/-- The candidate can still be installed. -/
def Candidate.live (candidate : Candidate) : Bool :=
  candidate.outcome.all fun outcome => outcome.compacted

theorem Candidate.install_of_differs {candidate : Candidate} {current : SessionRecord}
    (h : candidate.base.Differs current) :
    candidate.install current = (candidate, current, { compacted := false }) := by
  unfold Candidate.install
  cases candidate.outcome with
  | none => rfl
  | some outcome => exact if_pos (.inr h)

/-- An installation that reports nothing changed nothing, and one that reports a
    compaction uses the candidate up. -/
theorem Candidate.install_spec (candidate : Candidate) (current : SessionRecord) :
    candidate.install current = (candidate, current, { compacted := false }) ∨
      candidate.live = true ∧ (candidate.install current).1.live = false := by
  unfold Candidate.install Candidate.live
  cases candidate.outcome with
  | none => exact .inl rfl
  | some outcome =>
      by_cases h : !outcome.compacted ∨ candidate.base.Differs current
      · exact .inl (if_pos h)
      · right
        simp only [if_neg h]
        simp only [not_or, Bool.not_eq_true, Bool.not_eq_false'] at h
        exact ⟨h.1, rfl⟩

theorem Candidate.settle_live {candidate : Candidate} {events : List CompactionEvent}
    {result : Except Thrown CompactionOutcome} (h : candidate.live = false) :
    (candidate.settle events result).live = false := by
  unfold Candidate.settle
  cases houtcome : candidate.outcome with
  | none =>
      rw [Candidate.live, houtcome] at h
      cases h
  | some outcome => exact h

/-- At most one installation takes effect. -/
theorem Candidate.installs_le (candidate : Candidate) (current : SessionRecord)
    (steps : List CandidateStep) :
    ((candidate.installs current steps).filter (·.compacted)).length
      ≤ if candidate.live then 1 else 0 := by
  induction steps generalizing candidate current with
  | nil => exact Nat.zero_le _
  | cons step rest ih =>
      cases step with
      | changed changed => exact ih candidate changed
      | settled events result =>
          refine Nat.le_trans (ih (candidate.settle events result) current) ?_
          cases hlive : candidate.live with
          | true => split <;> simp
          | false => simp [settle_live hlive]
      | installed =>
          simp only [installs, step, Option.toList_some, List.singleton_append, List.filter_cons]
          rcases candidate.install_spec current with hsame | ⟨hlive, hused⟩
          · rw [hsame]
            exact ih candidate current
          · have hrest := ih (candidate.install current).1 (candidate.install current).2.1
            rw [hused, if_neg Bool.false_ne_true] at hrest
            rw [hlive, if_pos rfl]
            split
            · exact Nat.succ_le_succ hrest
            · exact Nat.le_trans hrest (Nat.zero_le _)

/-! ## Installing -/

section

variable {model : ModelDriver} {options : CompactionOptions} {session : SessionRecord}
  {overheadTokens : Nat} {events : List CompactionEvent} {result : Except Thrown CompactionOutcome}

/-- The candidate once its compaction has settled. -/
def settledCandidate (session : SessionRecord) (events : List CompactionEvent)
    (result : Except Thrown CompactionOutcome) : Candidate :=
  (prepareCompaction session).settle events result

/-- A candidate installs over what it summarized, once, and changes nothing where the live
    session differs from its base. Appended outputs keep their calls exactly where none of
    them repeats an id that the base can drop. -/
theorem candidate_installs
    (h : (compactIfNeeded model options session overheadTokens true).Runs events result)
    (hbehaves : ∀ event ∈ events, Behaves event) :
    (∀ current, (prepareCompaction session).base.Differs current →
      (settledCandidate session events result).install current
        = (settledCandidate session events result, current, { compacted := false })) ∧
    (∀ current steps, (((prepareCompaction session).installs current steps).filter
      (·.compacted)).length ≤ 1) ∧
    ∀ outcome changes, result = .ok outcome → outcome.compacted = true →
      ∃ used current,
        (settledCandidate session events result).install (session.changes changes)
          = (used, current, outcome) ∧
        current = { session.changes changes with
          history := (session.after events).history ++ appended changes
          summary := (session.after events).summary
          compactionEpoch := session.compactionEpoch + 1 } ∧
        (PairsKept session.history (appended changes) current.history
          ↔ Seamless session.history (appended changes) options.keepTailItems) := by
  refine ⟨fun current hdiffers => Candidate.install_of_differs hdiffers, ?_, ?_⟩
  · intro current steps
    exact (prepareCompaction session).installs_le current steps
  · rintro outcome changes rfl hcompacted
    cases settled_of_runs h hbehaves with
    | declined _ => cases hcompacted
    | @compacted tokens boundary combined usage _ hsearch _ hafter _ =>
        obtain rfl : boundary = tailBoundary session.history options.keepTailItems := by
          rw [searchBoundary] at hsearch
          simp only [Bool.true_or, if_true] at hsearch
          rw [← Except.ok.inj hsearch, tailBoundary, tailBoundary]
          congr 1
          omega
        have hsame := not_differs_changes session changes
        have hseam : (session.changes changes).history.drop session.history.length
            = appended changes := by
          rw [(session.changes_spec changes).1, List.drop_left]
        refine ⟨_, _, if_neg ?_, ?_, ?_⟩
        · rintro (hfalse | hdiffers)
          · cases hfalse
          · exact hsame hdiffers
        · simp [settledCandidate, Candidate.settle, prepareCompaction, hafter, hseam]
        · have hpairs : _ ↔ Seamless session.history (appended changes) options.keepTailItems :=
            pairsKept_iff combined
          simpa [settledCandidate, Candidate.settle, prepareCompaction, hafter, hseam] using hpairs

/-- An answered call with long arguments, and one that waits for its output. -/
private def waitingSession (callId : Units) : SessionRecord where
  history := [.functionCall [97] [116] (List.replicate 300 97) none,
    .functionCallOutput [97] [111, 107], .functionCall callId [116] [] none]

private def waitingRun (callId : Units) : List CompactionEvent × Except Thrown CompactionOutcome :=
  (compactIfNeeded typeModel ⟨0, 100, 0, 320⟩ (waitingSession callId) 0 true).exec plainHost

private def answering (callId : Units) : List Change :=
  [.append [.functionCallOutput callId [111, 107]]]

/-- What comes of the run over a call that waits, under an id of its own and under the id of
    the answered call. -/
private theorem waitingRun_facts :
    (waitingRun [98]).2 = .ok { compacted := true, usage := some ⟨"model", 3, 1, true⟩ } ∧
    (∃ call ∈ (waitingSession [98]).history.drop
        (tailBoundary (waitingSession [98]).history 0), call.callId? = some [98]) ∧
    let installed := (settledCandidate (waitingSession [97]) (waitingRun [97]).1
      (waitingRun [97]).2).install ((waitingSession [97]).changes (answering [97]))
    installed.2.2.compacted = true
      ∧ ¬∃ call ∈ installed.2.1.history, call.callId? = some [97] := by
  decide +kernel

private theorem waiting_seamless :
    Seamless (waitingSession [98]).history (appended (answering [98])) 0 := by
  intro item hitem id hid _ hdroppable
  obtain rfl : item = .functionCallOutput [98] [111, 107] := List.mem_singleton.1 hitem
  obtain rfl : [98] = id := Option.some.inj hid
  exact absurd waitingRun_facts.2.1 (droppable_iff.1 hdroppable)

/-- The output of the call that waited follows its call. -/
theorem candidate_installs_waiting : ∃ used current outcome,
    (settledCandidate (waitingSession [98]) (waitingRun [98]).1 (waitingRun [98]).2).install
      ((waitingSession [98]).changes (answering [98])) = (used, current, outcome) ∧
    outcome.compacted = true ∧
    PairsKept (waitingSession [98]).history (appended (answering [98])) current.history := by
  have hruns : (compactIfNeeded typeModel ⟨0, 100, 0, 320⟩ (waitingSession [98]) 0 true).Runs
      (waitingRun [98]).1 (waitingRun [98]).2 := by
    rw [waitingRun]
    exact runs_exec plainHost _
  have hbehaves : ∀ event ∈ (waitingRun [98]).1, Behaves event := by
    rw [waitingRun]
    exact exec_forall plainHost_behaves _
  obtain ⟨-, -, hinstalls⟩ := candidate_installs hruns hbehaves
  obtain ⟨used, current, hinstall, -, hpairs⟩ :=
    hinstalls _ (answering [98]) waitingRun_facts.1 rfl
  exact ⟨used, current, _, hinstall, rfl, hpairs.2 waiting_seamless⟩

/-- The call that waits repeats the id of the answered one, and is folded away with it. -/
theorem repeated_call_folded :
    (compactIfNeeded typeModel ⟨0, 100, 0, 320⟩ (waitingSession [97]) 0 true).Runs
      (waitingRun [97]).1 (waitingRun [97]).2 ∧
    ∃ used current outcome,
      (settledCandidate (waitingSession [97]) (waitingRun [97]).1 (waitingRun [97]).2).install
        ((waitingSession [97]).changes (answering [97])) = (used, current, outcome) ∧
      outcome.compacted = true ∧
      ¬PairsKept (waitingSession [97]).history (appended (answering [97])) current.history := by
  have hruns : (compactIfNeeded typeModel ⟨0, 100, 0, 320⟩ (waitingSession [97]) 0 true).Runs
      (waitingRun [97]).1 (waitingRun [97]).2 := by
    rw [waitingRun]
    exact runs_exec plainHost _
  obtain ⟨-, -, hcompacted, hnone⟩ := waitingRun_facts
  rcases hinstall : (settledCandidate (waitingSession [97]) (waitingRun [97]).1
    (waitingRun [97]).2).install ((waitingSession [97]).changes (answering [97])) with
    ⟨used, current, outcome⟩
  rw [hinstall] at hcompacted hnone
  refine ⟨hruns, used, current, outcome, rfl, hcompacted, fun hkept => ?_⟩
  exact hnone (hkept (.functionCallOutput [97] [111, 107]) (List.mem_singleton.2 rfl) [97] rfl
    ⟨_, List.mem_append_left _ (List.mem_cons_self ..), rfl⟩)

end

end Compaction
end LingxiOS
