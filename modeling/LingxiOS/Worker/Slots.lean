-- SUMMARY: The poll loop of a worker and its slots.
import LingxiOS.Base.Transition
import LingxiOS.Protocol.Types

/-! # Worker Slots

`AgentWorker.poll` beside the runs it started, each of which may end whenever the loop awaits
something. A claim is answered with any work its filter allows. -/

namespace LingxiOS.Worker

/-! ## Options -/

structure AgentWorkerOptions where
  maxConcurrentRuns : Nat
  reservedInteractiveRuns : Nat
  reserveInteractiveByLane : Bool
  /-- The constructor throws otherwise. -/
  reserved_lt : reservedInteractiveRuns < maxConcurrentRuns

/-- A work item as the worker reads it. -/
structure ClaimedWork where
  id : String
  fence : Nat
  lane : WorkLane
  executionClass : Option String := none
  deriving DecidableEq

/-- What `claimWork` is asked for; `none` asks for any. -/
structure ClaimFilter where
  lanes : Option (List WorkLane) := none
  executionClass : Option ExecutionClass := none
  deriving DecidableEq

def ClaimFilter.allows (filter : ClaimFilter) (work : ClaimedWork) : Bool :=
  filter.lanes.all (·.contains work.lane)
    && filter.executionClass.all (· == executionClassOf work.lane work.executionClass)

namespace AgentWorkerOptions

variable (options : AgentWorkerOptions)

def backgroundLimit : Nat := options.maxConcurrentRuns - options.reservedInteractiveRuns

/-- The filter of a claim, if only reserved slots are left or not. -/
def claimFilter (reservedOnly : Bool) : ClaimFilter where
  lanes := if reservedOnly && options.reserveInteractiveByLane then some [.interactive, .approval] else none
  executionClass :=
    if reservedOnly && !options.reserveInteractiveByLane then some .conversation else none

def isBackground (work : ClaimedWork) : Bool :=
  if options.reserveInteractiveByLane then !([.interactive, .approval].contains work.lane)
  else executionClassOf work.lane work.executionClass == .operation

/-- A filter for the reserved slots lets no background work through. -/
theorem not_background_of_reserved {work : ClaimedWork}
    (h : (options.claimFilter true).allows work = true) : options.isBackground work = false := by
  obtain ⟨hlanes, hclass⟩ := Bool.and_eq_true_iff.1 h
  unfold claimFilter at hlanes hclass
  unfold isBackground
  cases hlane : options.reserveInteractiveByLane with
  | true =>
      rw [hlane] at hlanes
      have hlanes : [WorkLane.interactive, .approval].contains work.lane = true := hlanes
      rw [if_pos rfl, hlanes]
      rfl
  | false =>
      rw [hlane] at hclass
      have hclass : ExecutionClass.conversation = executionClassOf work.lane work.executionClass :=
        beq_iff_eq.1 hclass
      rw [if_neg Bool.false_ne_true, ← hclass]
      rfl

end AgentWorkerOptions

/-! ## The loop -/

/-- A run that has not ended; `background` is what its completion looks at. -/
structure ActiveRun where
  id : String
  background : Bool
  deriving DecidableEq

/-- Where the loop is. -/
inductive PollPhase where
  | polling
  /-- All slots are taken: a run is awaited. -/
  | full
  | claiming (filter : ClaimFilter)
  /-- There was no work. -/
  | waiting
  /-- Something was thrown. -/
  | backingOff
  | ended
  deriving DecidableEq

/-- An item that was claimed while the worker was not stopping, and whether a run of its id was
    active. -/
structure Claim where
  work : ClaimedWork
  active : Bool
  deriving DecidableEq

/-- A worker, with a record of what it claimed and what it passed to `runWork`. -/
structure AgentWorker where
  active : List ActiveRun := []
  backgroundRuns : Int := 0
  stopping : Bool := false
  phase : PollPhase := .polling
  claims : List Claim := []
  runs : List ClaimedWork := []
  deriving DecidableEq

inductive WorkerEvent where
  /-- The loop goes round. -/
  | poll
  /-- A slot became free. -/
  | freed
  | answered (work : Option ClaimedWork)
  /-- What was awaited is rejected. -/
  | failed
  | woken
  | finished (id : String)
  | stop
  deriving DecidableEq

namespace AgentWorker

variable (options : AgentWorkerOptions) (worker : AgentWorker)

def isActive (id : String) : Bool := worker.active.any (·.id == id)

def reservedOnly : Bool := options.backgroundLimit ≤ worker.backgroundRuns

/-- A turn of the loop, up to what it awaits. -/
def poll : AgentWorker :=
  if worker.stopping then { worker with phase := .ended }
  else if options.maxConcurrentRuns ≤ worker.active.length then { worker with phase := .full }
  else { worker with phase := .claiming (options.claimFilter (worker.reservedOnly options)) }

/-- The item is passed to `runWork`. -/
def start (work : ClaimedWork) : AgentWorker where
  active := worker.active ++ [⟨work.id, options.isBackground work⟩]
  backgroundRuns := worker.backgroundRuns + if options.isBackground work then 1 else 0
  stopping := worker.stopping
  phase := .polling
  claims := worker.claims ++ [⟨work, false⟩]
  runs := worker.runs ++ [work]

/-- A claim is answered. -/
def answer (work : Option ClaimedWork) : AgentWorker :=
  if worker.stopping then { worker with phase := .ended }
  else match work with
    | none => { worker with phase := .waiting }
    | some work =>
        if worker.isActive work.id then
          { worker with phase := .polling, claims := worker.claims ++ [⟨work, true⟩] }
        else worker.start options work

/-- A run has ended: its slot is given back. -/
def finish (run : ActiveRun) : AgentWorker :=
  { worker with
    active := worker.active.filter fun other => other.id ≠ run.id
    backgroundRuns := worker.backgroundRuns - if run.background then 1 else 0 }

def fail : AgentWorker := { worker with phase := if worker.stopping then .ended else .backingOff }

def step : WorkerEvent → Option AgentWorker
  | .poll => if worker.phase = .polling then some (worker.poll options) else none
  | .freed =>
      if worker.phase = .full ∧ worker.active.length < options.maxConcurrentRuns then
        some { worker with phase := .polling }
      else none
  | .answered work => match worker.phase with
    | .claiming filter => if work.all filter.allows then some (worker.answer options work) else none
    | _ => none
  | .failed => match worker.phase with
    | .claiming _ | .waiting => some worker.fail
    | _ => none
  | .woken =>
      if worker.phase = .waiting ∨ worker.phase = .backingOff then some { worker with phase := .polling }
      else none
  | .finished id => (worker.active.find? (·.id == id)).map worker.finish
  | .stop => some { worker with stopping := true }

end AgentWorker

def workerSystem (options : AgentWorkerOptions) : TransitionSystem AgentWorker WorkerEvent where
  start worker := worker = {}
  step worker event worker' := worker.step options event = some worker'

/-! ## The invariant -/

def backgrounds (active : List ActiveRun) : Nat := active.countP (·.background)

/-- The slots that are taken, and those that the claim in flight may take. -/
structure Slots (options : AgentWorkerOptions) (worker : AgentWorker) : Prop where
  distinct : (worker.active.map ActiveRun.id).Nodup
  counted : worker.backgroundRuns = backgrounds worker.active
  active : worker.active.length ≤ options.maxConcurrentRuns
  background : backgrounds worker.active ≤ options.backgroundLimit
  /-- A claim is only made for a free slot, and for any work only while not all slots that
      background work may take are taken. -/
  claiming : ∀ filter, worker.phase = .claiming filter →
    worker.active.length < options.maxConcurrentRuns
      ∧ (filter = options.claimFilter true ∨ backgrounds worker.active < options.backgroundLimit)
  /-- The items that were passed on are those whose id was not active. -/
  runs : worker.runs = (worker.claims.filter (!·.active)).map Claim.work
  started : ∀ run ∈ worker.active, ∃ work ∈ worker.runs, work.id = run.id
  repeated : ∀ claim ∈ worker.claims, claim.active = true → ∃ work ∈ worker.runs,
    work.id = claim.work.id

section Steps

variable {options : AgentWorkerOptions} {worker worker' : AgentWorker} {event : WorkerEvent}

theorem backgrounds_concat (active : List ActiveRun) (run : ActiveRun) :
    backgrounds (active ++ [run]) = backgrounds active + if run.background then 1 else 0 := by
  cases h : run.background <;> simp [backgrounds, h]

/-- Moving on within the loop keeps the slots as long as no claim is made. -/
theorem Slots.move {phase : PollPhase} (h : Slots options worker)
    (hphase : ∀ filter, phase ≠ .claiming filter) : Slots options { worker with phase := phase } :=
  { h with claiming := fun filter hclaiming => absurd hclaiming (hphase filter) }

theorem Slots.poll (h : Slots options worker) : Slots options (worker.poll options) := by
  unfold AgentWorker.poll
  split
  case isTrue => exact h.move nofun
  case isFalse =>
    split
    case isTrue => exact h.move nofun
    case isFalse hfree =>
      refine { h with claiming := fun filter hclaiming => ⟨Nat.lt_of_not_le hfree, ?_⟩ }
      cases hclaiming
      cases hreserved : worker.reservedOnly options with
      | true => exact .inl rfl
      | false =>
          have hlimit : ¬(options.backgroundLimit : Int) ≤ worker.backgroundRuns :=
            of_decide_eq_false hreserved
          rw [h.counted] at hlimit
          exact .inr (by exact_mod_cast Int.not_le.1 hlimit)

/-- Of distinct ids, one is given back. -/
theorem filter_eq_erase {active : List ActiveRun} {run : ActiveRun}
    (hdistinct : (active.map ActiveRun.id).Nodup) (hrun : run ∈ active) :
    active.filter (fun other => other.id ≠ run.id) = active.erase run := by
  rw [(List.Nodup.of_map _ hdistinct).erase_eq_filter]
  refine List.filter_congr fun other hother => ?_
  have hinj : other.id = run.id ↔ other = run :=
    ⟨fun hid => List.inj_on_of_nodup_map hdistinct hother hrun hid, fun h => h ▸ rfl⟩
  rw [Bool.eq_iff_iff, decide_eq_true_eq, bne_iff_ne, ne_eq, ne_eq, hinj]

/-- A run ends: its id is free, and so is the place it may have had among the background runs. -/
theorem Slots.finish {run : ActiveRun} (h : Slots options worker) (hrun : run ∈ worker.active) :
    Slots options (worker.finish run) := by
  have herase := filter_eq_erase h.distinct hrun
  have hsub : (worker.finish run).active.Sublist worker.active := List.filter_sublist
  have hlength := hsub.length_le
  have hcount : backgrounds (worker.finish run).active
      = backgrounds worker.active - if run.background then 1 else 0 := by
    change backgrounds (worker.active.filter _) = _
    have hperm := (List.perm_cons_erase hrun).countP_eq (·.background)
    rw [List.countP_cons] at hperm
    rw [herase, backgrounds, backgrounds, hperm, Nat.add_sub_cancel]
  have hle : backgrounds (worker.finish run).active ≤ backgrounds worker.active :=
    hsub.countP_le
  refine { h with
    distinct := (hsub.map _).nodup h.distinct
    counted := ?_
    active := hlength.trans h.active
    background := hle.trans h.background
    claiming := fun filter hclaiming => ?_
    started := fun other hother => h.started other (hsub.subset hother) }
  · rw [hcount]
    change worker.backgroundRuns - _ = _
    rw [h.counted]
    cases hbackground : run.background with
    | false => simp
    | true =>
        have hpos : 0 < backgrounds worker.active := List.countP_pos_iff.2 ⟨run, hrun, hbackground⟩
        simp only [if_true]
        omega
  · obtain ⟨hfree, hlimit⟩ := h.claiming filter hclaiming
    exact ⟨hlength.trans_lt hfree, hlimit.imp_right hle.trans_lt⟩

/-- A claim that is answered takes the slot it was made for. -/
theorem Slots.answer {work : Option ClaimedWork} {filter : ClaimFilter} (h : Slots options worker)
    (hphase : worker.phase = .claiming filter) (hallows : work.all filter.allows = true) :
    Slots options (worker.answer options work) := by
  obtain ⟨hfree, hlimit⟩ := h.claiming filter hphase
  unfold AgentWorker.answer
  split
  case isTrue => exact h.move nofun
  case isFalse =>
    cases work with
    | none => exact h.move nofun
    | some work =>
        dsimp only
        split
        case isTrue hactive =>
          -- The id is still active: the item is dropped.
          obtain ⟨run, hrun, hid⟩ := List.any_eq_true.1 hactive
          obtain ⟨earlier, hearlier, hsame⟩ := h.started run hrun
          refine { h with claiming := nofun, runs := ?_, repeated := ?_ }
          · rw [h.runs, List.filter_append, List.map_append]
            exact (List.append_nil _).symm
          · intro claim hclaim hrepeated
            rcases List.mem_append.1 hclaim with hold | hnew
            · exact h.repeated claim hold hrepeated
            · rw [List.mem_singleton.1 hnew]
              exact ⟨earlier, hearlier, hsame.trans (beq_iff_eq.1 hid)⟩
        case isFalse hactive =>
          have hnew : ∀ run ∈ worker.active, run.id ≠ work.id := fun run hrun hid =>
            hactive (List.any_eq_true.2 ⟨run, hrun, beq_iff_eq.2 hid⟩)
          have hbackground : backgrounds worker.active
              + (if options.isBackground work then 1 else 0) ≤ options.backgroundLimit := by
            have hwithin := h.background
            rcases hlimit with rfl | hlimit
            · rw [options.not_background_of_reserved hallows]
              exact hwithin
            · split <;> omega
          refine ⟨?_, ?_, ?_, ?_, nofun, ?_, ?_, ?_⟩
          · change ((worker.active ++ [_]).map ActiveRun.id).Nodup
            rw [List.map_append, List.map_singleton, List.nodup_append]
            refine ⟨h.distinct, List.nodup_singleton _, fun id hid other hother => ?_⟩
            obtain ⟨run, hrun, rfl⟩ := List.mem_map.1 hid
            rw [List.mem_singleton.1 hother]
            exact hnew run hrun
          · change worker.backgroundRuns + _ = ((backgrounds (worker.active ++ [_]) : Nat) : Int)
            rw [h.counted, backgrounds_concat]
            split <;> simp
          · change (worker.active ++ [_]).length ≤ _
            rw [List.length_append, List.length_singleton]
            exact hfree
          · change backgrounds (worker.active ++ [_]) ≤ _
            rw [backgrounds_concat]
            exact hbackground
          · change worker.runs ++ [work] = _
            rw [h.runs]
            change _ = ((worker.claims ++ [_]).filter _).map _
            rw [List.filter_append, List.map_append]
            rfl
          · intro run hrun
            rcases List.mem_append.1 hrun with hold | hlast
            · obtain ⟨earlier, hearlier, hid⟩ := h.started run hold
              exact ⟨earlier, List.mem_append_left _ hearlier, hid⟩
            · rw [List.mem_singleton.1 hlast]
              exact ⟨work, List.mem_append_right _ List.mem_cons_self, rfl⟩
          · intro claim hclaim hrepeated
            rcases List.mem_append.1 hclaim with hold | hlast
            · obtain ⟨earlier, hearlier, hid⟩ := h.repeated claim hold hrepeated
              exact ⟨earlier, List.mem_append_left _ hearlier, hid⟩
            · rw [List.mem_singleton.1 hlast] at hrepeated
              cases hrepeated

theorem Slots.step (h : Slots options worker) (hstep : worker.step options event = some worker') :
    Slots options worker' := by
  unfold AgentWorker.step at hstep
  split at hstep
  case h_1 =>
    obtain ⟨-, hnext⟩ := Option.ite_none_right_eq_some.1 hstep
    cases hnext
    exact h.poll
  case h_2 =>
    obtain ⟨-, hnext⟩ := Option.ite_none_right_eq_some.1 hstep
    cases hnext
    exact h.move nofun
  case h_3 work =>
    split at hstep
    case h_1 filter hphase =>
      obtain ⟨hallows, hnext⟩ := Option.ite_none_right_eq_some.1 hstep
      cases hnext
      exact h.answer hphase hallows
    case h_2 => cases hstep
  case h_4 =>
    have hfail : Slots options worker.fail := h.move (by split <;> nofun)
    split at hstep
    case h_1 => exact Option.some.inj hstep ▸ hfail
    case h_2 => exact Option.some.inj hstep ▸ hfail
    case h_3 => cases hstep
  case h_5 =>
    obtain ⟨-, hnext⟩ := Option.ite_none_right_eq_some.1 hstep
    cases hnext
    exact h.move nofun
  case h_6 id =>
    obtain ⟨run, hrun, rfl⟩ := Option.map_eq_some_iff.1 hstep
    exact h.finish (List.mem_of_find?_eq_some hrun)
  case h_7 =>
    obtain rfl := Option.some.inj hstep
    exact { h with }

end Steps

theorem slots_of_reachable {options : AgentWorkerOptions} {worker : AgentWorker}
    (h : (workerSystem options).Reachable worker) : Slots options worker := by
  refine TransitionSystem.Reachable.invariant (fun hstart => ?_) (fun hslots => hslots.step) h
  obtain rfl : _ = ({} : AgentWorker) := hstart
  exact ⟨List.nodup_nil, rfl, Nat.zero_le _, Nat.zero_le _, nofun, rfl, nofun, nofun⟩

/-- In every run of the loop the slots hold and background runs leave the reserved ones free. Of
    the items that were claimed those are passed on whose id is not active: an item is dropped
    only while an earlier one of its id, which was passed on, is still active. -/
theorem poll_slots (options : AgentWorkerOptions) {worker : AgentWorker}
    (h : (workerSystem options).Reachable worker) :
    worker.active.length ≤ options.maxConcurrentRuns
      ∧ worker.backgroundRuns = backgrounds worker.active
      ∧ worker.backgroundRuns ≤ options.maxConcurrentRuns - options.reservedInteractiveRuns
      ∧ worker.runs = (worker.claims.filter (!·.active)).map Claim.work
      ∧ ∀ claim ∈ worker.claims, claim.active = true → ∃ work ∈ worker.runs,
        work.id = claim.work.id := by
  have hslots := slots_of_reachable h
  refine ⟨hslots.active, hslots.counted, ?_, hslots.runs, hslots.repeated⟩
  have hlimit := hslots.background
  have hreserved := options.reserved_lt
  rw [AgentWorkerOptions.backgroundLimit] at hlimit
  rw [hslots.counted]
  omega

/-- Two slots, one of them reserved. -/
private def twoSlots : AgentWorkerOptions where
  maxConcurrentRuns := 2
  reservedInteractiveRuns := 1
  reserveInteractiveByLane := false
  reserved_lt := Nat.one_lt_two

private def claimedAgain : AgentWorker where
  active := [⟨"w", false⟩]
  claims := [⟨⟨"w", 1, .interactive, none⟩, false⟩, ⟨⟨"w", 2, .interactive, none⟩, true⟩]
  runs := [⟨"w", 1, .interactive, none⟩]

private def claimedOnce : AgentWorker where
  active := [⟨"w", false⟩]
  claims := [⟨⟨"w", 1, .interactive, none⟩, false⟩]
  runs := [⟨"w", 1, .interactive, none⟩]

private theorem claimedAgain_reachable : (workerSystem twoSlots).Reachable claimedAgain := by
  have hpoll : ({} : AgentWorker).step twoSlots .poll = some { phase := .claiming {} } := by decide
  have hfirst : ({ phase := .claiming {} } : AgentWorker).step twoSlots
      (.answered (some ⟨"w", 1, .interactive, none⟩)) = some claimedOnce := by decide
  have hagain : claimedOnce.step twoSlots .poll = some { claimedOnce with phase := .claiming {} } := by
    decide
  have hsecond : ({ claimedOnce with phase := .claiming {} } : AgentWorker).step twoSlots
      (.answered (some ⟨"w", 2, .interactive, none⟩)) = some claimedAgain := by decide
  have hstart : (workerSystem twoSlots).Reachable {} := .of_start rfl
  exact (((hstart.next hpoll).next hfirst).next hagain).next hsecond

theorem poll_slots_claimedAgain : claimedAgain.active.length ≤ 2 ∧ claimedAgain.backgroundRuns ≤ 1 := by
  obtain ⟨hactive, -, hbackground, -⟩ := poll_slots twoSlots claimedAgain_reachable
  exact ⟨hactive, hbackground⟩

/-- A work is claimed again while its earlier attempt is active: the worker was not stopping, and
    the later attempt is not passed on. -/
theorem claimed_again_dropped : (workerSystem twoSlots).Reachable claimedAgain
    ∧ claimedAgain.stopping = false
    ∧ ∃ claim ∈ claimedAgain.claims, claim.work ∉ claimedAgain.runs :=
  ⟨claimedAgain_reachable, rfl, ⟨⟨"w", 2, .interactive, none⟩, true⟩, by decide, by decide⟩

end LingxiOS.Worker
