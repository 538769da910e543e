-- SUMMARY: Background jobs that coalesce.
import LingxiOS.Base.JsMap
import LingxiOS.Base.Transition

/-! # Background Jobs

A translation of `background` in `app/index.ts`. A job runs its operation until the loop
test finds that nothing was asked for meanwhile. The reaction that removes the job comes
later, so a call may still find the job after its last loop test. An operation is an async
function, and the logger does not throw. -/

namespace LingxiOS

namespace Background

inductive Phase where
  /-- The job waits for its operation. -/
  | running
  /-- The loop has ended, and the reaction that removes the job is still to come. -/
  | ended
  deriving DecidableEq

inductive Entry where
  | called (name : String)
  | began (name : String)
  deriving DecidableEq

structure Jobs where
  stopped : Bool := false
  jobs : JsMap String Phase := .empty
  dirtyJobs : List String := []
  /-- The calls made while the application was not stopped, and the starts of operations. -/
  log : List Entry := []

namespace Jobs

def delete (dirtyJobs : List String) (name : String) : List String :=
  dirtyJobs.filter fun other => other ≠ name

/-- The body of the loop, up to the `await`. -/
def begin (jobs : Jobs) (name : String) : Jobs :=
  { jobs with
    dirtyJobs := delete jobs.dirtyJobs name
    log := jobs.log ++ [.began name] }

/-- `background`. -/
def background (jobs : Jobs) (name : String) : Jobs :=
  if jobs.stopped then jobs
  else
    let asked : Jobs := { jobs with log := jobs.log ++ [.called name] }
    if asked.jobs.has name then { asked with dirtyJobs := asked.dirtyJobs.insert name }
    else { asked.begin name with jobs := asked.jobs.set name .running }

/-- The operation has settled: the loop test, and what follows it. -/
def resume (jobs : Jobs) (name : String) : Jobs :=
  if !jobs.stopped && jobs.dirtyJobs.contains name then jobs.begin name
  else { jobs with jobs := jobs.jobs.set name .ended }

/-- The reaction to the end of the loop. -/
def finish (jobs : Jobs) (name : String) : Jobs :=
  { jobs with
    jobs := jobs.jobs.delete name
    dirtyJobs := delete jobs.dirtyJobs name }

end Jobs

/-! ## The system -/

inductive Event where
  | call (name : String)
  | resume (name : String)
  | finish (name : String)
  | stop

inductive Step (jobs : Jobs) : Event → Jobs → Prop
  | call (name : String) : Step jobs (.call name) (jobs.background name)
  | resume {name : String} (h : jobs.jobs.get? name = some .running) :
      Step jobs (.resume name) (jobs.resume name)
  | finish {name : String} (h : jobs.jobs.get? name = some .ended) :
      Step jobs (.finish name) (jobs.finish name)
  | stop : Step jobs .stop { jobs with stopped := true }

def transitions : TransitionSystem Jobs Event where
  start jobs := jobs = {}
  step := Step

/-! ## Requests -/

/-- The job of the name will run its operation once more. -/
structure Asked (jobs : Jobs) (name : String) : Prop where
  running : jobs.jobs.get? name = some .running
  dirty : name ∈ jobs.dirtyJobs
  going : jobs.stopped = false

/-- Every call of the name is followed by a start, or its job will start the operation
    again. -/
def Taken (jobs : Jobs) (name : String) : Prop :=
  ∀ before after, jobs.log = before ++ .called name :: after →
    .began name ∈ after ∨ Asked jobs name

/-- No call comes between the last loop test of a job and its removal, and the application is
    not stopped before a request is taken up. -/
def Timely (jobs : Jobs) : Event → Prop
  | .call name => jobs.stopped = false → jobs.jobs.get? name ≠ some .ended
  | .stop => ∀ name, ¬ Asked jobs name
  | _ => True

section

variable {jobs jobs' : Jobs} {name other : String} {event : Event}

theorem mem_delete {dirtyJobs : List String} :
    other ∈ Jobs.delete dirtyJobs name ↔ other ∈ dirtyJobs ∧ other ≠ name := by
  simp [Jobs.delete]

theorem split_concat {α : Type*} {entries before after : List α} {last entry : α}
    (h : entries ++ [last] = before ++ entry :: after) :
    (after = [] ∧ last = entry)
    ∨ ∃ between, after = between ++ [last] ∧ entries = before ++ entry :: between := by
  rcases List.eq_nil_or_concat after with rfl | ⟨between, final, rfl⟩
  case inl => exact .inl ⟨rfl, (List.append_inj' h rfl).2 |> List.singleton_inj.1⟩
  case inr =>
    rw [List.concat_eq_append, ← List.cons_append, ← List.append_assoc] at h
    obtain ⟨hentries, hlast⟩ := List.append_inj' h rfl
    obtain rfl := List.singleton_inj.1 hlast
    exact .inr ⟨between, List.concat_eq_append, hentries⟩

/-- The next loop test of a job that was asked starts its operation. -/
theorem Asked.resume (h : Asked jobs name) :
    (jobs.resume name).log = jobs.log ++ [.began name] := by
  simp [Jobs.resume, h.going, h.dirty, Jobs.begin]

/-- A start takes up every call of its name. -/
theorem taken_of_began (hlog : jobs'.log = jobs.log ++ [.began name]) : Taken jobs' name := by
  intro before after hsplit
  rcases split_concat (hlog ▸ hsplit) with ⟨-, hlast⟩ | ⟨between, rfl, -⟩
  case inl => cases hlast
  case inr => exact .inl (List.mem_append_right _ (List.mem_singleton.2 rfl))

/-- An entry that is no call of the name leaves its calls as they are. -/
theorem Taken.push {entry : Entry} (h : Taken jobs name) (hlog : jobs'.log = jobs.log ++ [entry])
    (hentry : entry ≠ .called name) (hasked : Asked jobs name → Asked jobs' name) :
    Taken jobs' name := by
  intro before after hsplit
  rcases split_concat (hlog ▸ hsplit) with ⟨-, hlast⟩ | ⟨between, rfl, hbefore⟩
  case inl => exact absurd hlast hentry
  case inr =>
    rcases h _ _ hbefore with hbegan | hbefore
    · exact .inl (List.mem_append_left _ hbegan)
    · exact .inr (hasked hbefore)

theorem taken_of_asked (h : Asked jobs name) : Taken jobs name :=
  fun _ _ _ => .inr h

theorem Taken.of_log_eq (h : Taken jobs name) (hlog : jobs'.log = jobs.log)
    (hasked : Asked jobs name → Asked jobs' name) : Taken jobs' name :=
  fun before after hsplit => (h before after (hlog ▸ hsplit)).imp_right hasked

theorem Asked.of_set {phase : Phase} (h : Asked jobs other) (hname : other ≠ name)
    (hjobs : jobs'.jobs = jobs.jobs.set name phase) (hdirty : other ∈ jobs'.dirtyJobs)
    (hstopped : jobs'.stopped = jobs.stopped) : Asked jobs' other := by
  refine ⟨?_, hdirty, hstopped ▸ h.going⟩
  rw [hjobs, JsMap.get?_set_of_ne phase hname]
  exact h.running

theorem Taken.background (h : Taken jobs other) (htimely : Timely jobs (.call name)) :
    Taken (jobs.background name) other := by
  unfold Jobs.background
  split
  case isTrue => exact h
  case isFalse hgoing =>
    rw [Bool.not_eq_true] at hgoing
    dsimp only
    split
    case isTrue hhas =>
      by_cases hname : other = name
      case pos =>
        obtain ⟨phase, hphase⟩ := Option.isSome_iff_exists.1 hhas
        cases phase with
        | running => exact taken_of_asked ⟨hname ▸ hphase, hname ▸ List.mem_insert_self, hgoing⟩
        | ended => exact absurd hphase (htimely hgoing)
      case neg =>
        refine h.push rfl (fun hsame => hname (Entry.called.inj hsame).symm) fun hasked => ?_
        exact ⟨hasked.running, List.mem_insert_of_mem hasked.dirty, hasked.going⟩
    case isFalse =>
      by_cases hname : other = name
      case pos => exact hname ▸ taken_of_began rfl
      case neg =>
        have hcalled : Taken { jobs with log := jobs.log ++ [.called name] } other :=
          h.push rfl (fun hsame => hname (Entry.called.inj hsame).symm) fun hasked =>
            ⟨hasked.running, hasked.dirty, hasked.going⟩
        exact hcalled.push rfl nofun fun hasked =>
          hasked.of_set hname rfl (mem_delete.2 ⟨hasked.dirty, hname⟩) rfl

theorem Taken.resume (h : Taken jobs other) : Taken (jobs.resume name) other := by
  unfold Jobs.resume
  split
  case isTrue =>
    by_cases hname : other = name
    case pos => exact hname ▸ taken_of_began rfl
    case neg =>
      exact h.push rfl nofun fun hasked =>
        ⟨hasked.running, mem_delete.2 ⟨hasked.dirty, hname⟩, hasked.going⟩
  case isFalse hdone =>
    refine h.of_log_eq rfl fun hasked => ?_
    have hname : other ≠ name := by
      rintro rfl
      simp [hasked.going, hasked.dirty] at hdone
    exact hasked.of_set hname rfl hasked.dirty rfl

theorem Taken.finish (h : Taken jobs other) (hended : jobs.jobs.get? name = some .ended) :
    Taken (jobs.finish name) other := by
  refine h.of_log_eq rfl fun hasked => ?_
  have hname : other ≠ name := by
    rintro rfl
    cases hended.symm.trans hasked.running
  refine ⟨?_, mem_delete.2 ⟨hasked.dirty, hname⟩, hasked.going⟩
  simpa [Jobs.finish, JsMap.get?_delete, hname] using hasked.running

/-- What every step keeps, as long as the steps are timely. -/
theorem Taken.step (h : Taken jobs name) (htimely : Timely jobs event)
    (hstep : Step jobs event jobs') : Taken jobs' name := by
  cases hstep with
  | call => exact h.background htimely
  | resume => exact h.resume
  | finish hended => exact h.finish hended
  | stop => exact h.of_log_eq rfl fun hasked => absurd hasked (htimely name)

/-- In every interleaving of timely steps, every call that was made while the application was
    not stopped is followed by a start, or its job is still running and starts the operation
    again at its next loop test. -/
theorem no_request_missed (h : (transitions.restrict Timely).Reachable jobs)
    (before after : List Entry) (hcall : jobs.log = before ++ .called name :: after) :
    .began name ∈ after
    ∨ (jobs.jobs.get? name = some .running ∧ (jobs.resume name).log = jobs.log ++ [.began name]) := by
  have htaken : Taken jobs name := by
    refine h.invariant (I := fun jobs => Taken jobs name) ?_ ?_
    · rintro _ rfl before after hsplit
      simp at hsplit
    · rintro earlier event later hearlier ⟨htimely, hstep⟩
      exact hearlier.step htimely hstep
  exact (htaken before after hcall).imp_right fun hasked => ⟨hasked.running, hasked.resume⟩

end

/-- A call that finds the job running. -/
theorem no_request_missed_running :
    .began "events" ∈ ([] : List Entry)
    ∨ (((({} : Jobs).background "events").background "events").jobs.get? "events" = some .running
      ∧ (((({} : Jobs).background "events").background "events").resume "events").log
        = [.called "events", .began "events", .called "events", .began "events"]) := by
  have hfirst : (transitions.restrict Timely).Reachable (({} : Jobs).background "events") :=
    (TransitionSystem.Reachable.of_start rfl).next (e := .call "events")
      ⟨fun _ => nofun, .call "events"⟩
  exact no_request_missed (hfirst.next (e := .call "events") ⟨fun _ => nofun, .call "events"⟩)
    [.called "events", .began "events"] [] rfl

/-- A call that comes between the last loop test of its job and the removal of the job is
    forgotten with it. -/
theorem late_request_missed : ∃ jobs, transitions.Reachable jobs ∧ jobs.stopped = false
    ∧ jobs.log = [.called "events", .began "events", .called "events"]
    ∧ jobs.jobs.get? "events" = none ∧ jobs.dirtyJobs = [] := by
  have hfirst : transitions.Reachable (({} : Jobs).background "events") :=
    (TransitionSystem.Reachable.of_start rfl).next (Step.call "events")
  have hended := hfirst.next (@Step.resume _ "events" rfl)
  have hmissed := hended.next (Step.call "events")
  exact ⟨_, hmissed.next (@Step.finish _ "events" rfl), rfl, rfl, rfl, rfl⟩

end Background

end LingxiOS
