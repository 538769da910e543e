-- SUMMARY: The life of one kernel and its runner process.
import LingxiOS.Base.Transition
import Mathlib.Data.List.Infix

/-! # The Life of a Kernel

A translation of `PersistentKernel` in `manager.ts`. One event is what runs
without an await: `start` up to `mkdir`, its continuation, a line of the runner,
an execution once its start has settled, and every way to `terminate`: an abort,
a timeout, an observer's error, an eviction, an error of a stream, an exit.
Lines reach the kernel while its reader is open; nothing that handles a line
terminates the kernel before the next line of the same chunk. -/

namespace LingxiOS

inductive KernelState where
  | created | starting | ready | dead
  deriving DecidableEq

inductive Signal where
  | sigterm | sigkill
  deriving DecidableEq

inductive ProcessState where
  /-- A cell may have set a handler for SIGTERM, or have it ignored. -/
  | running (handlesTerm : Bool)
  /-- A signal that ends the process was sent to it. -/
  | killed
  | exited
  deriving DecidableEq

def ProcessState.isRunning : ProcessState → Bool
  | .running _ => true
  | _ => false

/-- A `PersistentKernel`. Processes are numbered in the order they were spawned in. -/
structure PersistentKernel where
  state : KernelState := .created
  child : Option Nat := none
  /-- The process whose lines are read. -/
  lines : Option Nat := none
  /-- `this.ready` has been set. -/
  ready : Bool := false
  /-- `this.readyResolve` and `this.readyReject` are set. -/
  settlers : Bool := false
  pending : Option String := none
  /-- How many calls of `start` wait for the home directory. -/
  waiting : Nat := 0
  processes : List ProcessState := []
  deriving DecidableEq

/-- What a line of the runner says. -/
inductive RunnerLine where
  | ready
  | hostCall
  | protocolError
  | executionResult (id : String)
  | nonJson
  deriving DecidableEq

inductive KernelEvent where
  /-- A call of `start`, up to `mkdir`. -/
  | start
  /-- `mkdir` fails. -/
  | mkdirFailed
  /-- `mkdir` is done; the launch or the spawn throws. -/
  | launchFailed
  /-- `mkdir` is done, and the runner is spawned. -/
  | spawned
  | line (line : RunnerLine)
  /-- A cell handles SIGTERM, or no longer does. -/
  | handleTerm (process : Nat) (handled : Bool)
  /-- `execute`, after its start: the message may not be writable. -/
  | begin (executionId : String) (writable : Bool)
  /-- The timeout or the abort of an execution. -/
  | expire
  /-- SIGKILL for an abort or a timeout of the start and for a restore, SIGTERM otherwise. -/
  | terminate (signal : Signal)
  /-- An error of the child or of one of its streams. -/
  | error (process : Nat)
  | exit (process : Nat)
  deriving DecidableEq

/-- The signal that the event has the child of a live kernel sent. -/
def KernelEvent.sends : KernelEvent → Option Signal
  | .expire => some .sigkill
  | .terminate signal => some signal
  | .error _ => some .sigterm
  | _ => none

namespace PersistentKernel

def start (kernel : PersistentKernel) : PersistentKernel :=
  match kernel.state with
  | .created => { kernel with state := .starting, waiting := kernel.waiting + 1 }
  -- ready: done; starting: the promise of the first call; dead: an error
  | _ => kernel

/-- `start`, from `mkdir` on. -/
def launch (kernel : PersistentKernel) : PersistentKernel :=
  { kernel with
    ready := true
    settlers := true
    waiting := kernel.waiting - 1
    child := some kernel.processes.length
    lines := some kernel.processes.length
    processes := kernel.processes ++ [.running false] }

/-- `child.kill(signal)`. Nobody repeats a SIGTERM that is handled. -/
def kill (signal : Signal) (processes : List ProcessState) (process : Nat) : List ProcessState :=
  match processes[process]? with
  | some (.running handlesTerm) =>
      if signal = .sigterm ∧ handlesTerm then processes else processes.set process .killed
  | _ => processes

def terminate (kernel : PersistentKernel) (signal : Signal := .sigterm) : PersistentKernel :=
  if kernel.state = .dead then kernel
  else
    { kernel with
      state := .dead
      child := none
      lines := none
      settlers := false
      pending := none
      processes := kernel.child.elim kernel.processes (kill signal kernel.processes) }

def onLine (kernel : PersistentKernel) : RunnerLine → PersistentKernel
  | .ready => { kernel with state := .ready, settlers := false }
  | .executionResult id =>
      if kernel.pending = some id then { kernel with pending := none } else kernel
  | _ => kernel

def begin (kernel : PersistentKernel) (executionId : String) (writable : Bool) :
    PersistentKernel :=
  { kernel with pending := if kernel.child.isSome && writable then some executionId else none }

/-- One event, where it can happen. -/
def step (kernel : PersistentKernel) : KernelEvent → Option PersistentKernel
  | .start => some kernel.start
  | .mkdirFailed =>
      if 0 < kernel.waiting then some { kernel with waiting := kernel.waiting - 1 } else none
  | .launchFailed =>
      if 0 < kernel.waiting then
        some { kernel with ready := true, settlers := true, waiting := kernel.waiting - 1 }
      else none
  | .spawned => if 0 < kernel.waiting then some kernel.launch else none
  | .line line => if kernel.lines.isSome then some (kernel.onLine line) else none
  | .handleTerm process handled =>
      if kernel.processes[process]?.any ProcessState.isRunning then
        some { kernel with processes := kernel.processes.set process (.running handled) }
      else none
  | .begin executionId writable => some (kernel.begin executionId writable)
  | .expire => some ({ kernel with pending := none }.terminate .sigkill)
  | .terminate signal => some (kernel.terminate signal)
  | .error process => if process < kernel.processes.length then some kernel.terminate else none
  | .exit process =>
      if process < kernel.processes.length then
        some { kernel with processes := kernel.processes.set process .exited }.terminate
      else none

/-- Every order of events on a new kernel. -/
def system : TransitionSystem PersistentKernel KernelEvent where
  start kernel := kernel = {}
  step kernel event kernel' := kernel.step event = some kernel'

/-! ## What the claims of a death say -/

/-- No process runs for the kernel. One that was sent SIGKILL, or a SIGTERM it does not
    handle, counts as gone. -/
def Quiet (kernel : PersistentKernel) : Prop :=
  ∀ process ∈ kernel.processes, process.isRunning = false

instance (kernel : PersistentKernel) : Decidable kernel.Quiet :=
  inferInstanceAs (Decidable (∀ process ∈ _, _))

/-- Along a run, a dead kernel stays dead, and once no start is pending no process
    runs for it. -/
def StaysDead (events : List KernelEvent) : Prop :=
  ∀ before kernel, before <+: events → system.Run {} before kernel → kernel.state = .dead →
    (kernel.waiting = 0 → kernel.Quiet) ∧
    ∀ later kernel', before ++ later <+: events → system.Run kernel later kernel' →
      kernel'.state = .dead

/-- Along a run, no start that was waiting for the home directory spawns a runner
    after the kernel has died. -/
def OnTime (events : List KernelEvent) : Prop :=
  ∀ before kernel, before ++ [.spawned] <+: events → system.Run {} before kernel →
    0 < kernel.waiting → kernel.state ≠ .dead

/-- A process that a live kernel sends SIGTERM ends: it does not handle it. -/
def Ends (kernel : PersistentKernel) (event : KernelEvent) : Prop :=
  event.sends = some .sigterm → kernel.state ≠ .dead → ∀ child, kernel.child = some child →
    kernel.processes[child]? ≠ some (.running true)

/-- Along a run, every process that is sent SIGTERM ends. -/
def TermEnds (events : List KernelEvent) : Prop :=
  ∀ before event kernel, before ++ [event] <+: events → system.Run {} before kernel →
    (kernel.step event).isSome → kernel.Ends event

/-! ## Invariants -/

/-- Only a new kernel starts, and only once: it never has a second process. -/
structure Once (kernel : PersistentKernel) : Prop where
  waiting : kernel.waiting + kernel.processes.length ≤ 1
  created : kernel.state = .created → kernel.waiting = 0 ∧ kernel.processes = []

/-- The kernel knows its process: the child is all that may run, and after the death
    nothing runs and nothing is read. -/
structure Owned (kernel : PersistentKernel) : Prop where
  dead : kernel.state = .dead → kernel.lines = none ∧ kernel.Quiet
  alive : kernel.state ≠ .dead → ∀ process : Nat,
    kernel.processes[process]?.any ProcessState.isRunning = true → kernel.child = some process

@[simp] theorem terminate_state (kernel : PersistentKernel) (signal : Signal) :
    (kernel.terminate signal).state = .dead := by
  unfold terminate
  split
  · assumption
  · rfl

@[simp] theorem terminate_waiting (kernel : PersistentKernel) (signal : Signal) :
    (kernel.terminate signal).waiting = kernel.waiting := by
  unfold terminate
  split <;> rfl

theorem length_kill (signal : Signal) (processes : List ProcessState) (process : Nat) :
    (kill signal processes process).length = processes.length := by
  unfold kill
  split
  · split <;> simp
  · rfl

@[simp] theorem length_terminate (kernel : PersistentKernel) (signal : Signal) :
    (kernel.terminate signal).processes.length = kernel.processes.length := by
  unfold terminate
  split
  · rfl
  · cases kernel.child with
    | none => rfl
    | some child => exact length_kill _ _ _

/-- The signal leaves no process but the others running, if it is not handled. -/
theorem kill_running {signal : Signal} {processes : List ProcessState} {child i : Nat}
    (hends : signal = .sigterm → processes[child]? ≠ some (.running true))
    (hi : (kill signal processes child)[i]?.any ProcessState.isRunning = true) :
    processes[i]?.any ProcessState.isRunning = true ∧ i ≠ child := by
  unfold kill at hi
  split at hi
  · rename_i handlesTerm hchild
    split at hi
    · rename_i hhandled
      exact absurd (hhandled.2 ▸ hchild) (hends hhandled.1)
    · by_cases hsame : child = i
      · subst hsame
        rw [List.getElem?_set] at hi
        split at hi
        · split at hi <;> simp [ProcessState.isRunning] at hi
        · contradiction
      · rw [List.getElem?_set_ne hsame] at hi
        exact ⟨hi, Ne.symm hsame⟩
  · rename_i hstopped
    refine ⟨hi, ?_⟩
    rintro rfl
    cases hprocess : processes[i]? with
    | none => simp [hprocess] at hi
    | some process =>
        cases process with
        | running handlesTerm => exact hstopped _ hprocess
        | killed => simp [hprocess, ProcessState.isRunning] at hi
        | exited => simp [hprocess, ProcessState.isRunning] at hi

theorem quiet_iff {kernel : PersistentKernel} :
    kernel.Quiet ↔ ∀ i : Nat, kernel.processes[i]?.any ProcessState.isRunning = false := by
  simp only [Quiet, List.forall_mem_iff_getElem, Option.any_eq_false]
  constructor
  · intro h i process hi
    obtain ⟨hlt, rfl⟩ := List.getElem?_eq_some_iff.1 hi
    simpa using h i hlt
  · intro h i hlt
    simpa using h i _ (List.getElem?_eq_getElem hlt)

theorem start_cases (kernel : PersistentKernel) :
    (kernel.state = .created ∧ kernel.start
      = { kernel with state := .starting, waiting := kernel.waiting + 1 }) ∨
    (kernel.state ≠ .created ∧ kernel.start = kernel) := by
  unfold start
  cases kernel.state with
  | created => exact .inl ⟨rfl, rfl⟩
  | starting => exact .inr ⟨by decide, rfl⟩
  | ready => exact .inr ⟨by decide, rfl⟩
  | dead => exact .inr ⟨by decide, rfl⟩

theorem onLine_cases (kernel : PersistentKernel) (line : RunnerLine) :
    (line = .ready ∧ kernel.onLine line = { kernel with state := .ready, settlers := false }) ∨
    ∃ pending, kernel.onLine line = { kernel with pending := pending } := by
  cases line with
  | ready => exact .inl ⟨rfl, rfl⟩
  | hostCall => exact .inr ⟨kernel.pending, rfl⟩
  | protocolError => exact .inr ⟨kernel.pending, rfl⟩
  | nonJson => exact .inr ⟨kernel.pending, rfl⟩
  | executionResult id =>
      refine .inr ⟨if kernel.pending = some id then none else kernel.pending, ?_⟩
      simp only [onLine]
      split <;> rfl

/-- A death ends the one process the kernel knew, if that ends of the signal. -/
theorem Owned.terminate {kernel : PersistentKernel} {signal : Signal} (h : kernel.Owned)
    (hends : signal = .sigterm → kernel.state ≠ .dead → ∀ child, kernel.child = some child →
      kernel.processes[child]? ≠ some (.running true)) : (kernel.terminate signal).Owned := by
  by_cases hdead : kernel.state = .dead
  · rwa [PersistentKernel.terminate, if_pos hdead]
  · refine ⟨fun _ => ⟨?_, ?_⟩, fun hne => absurd (kernel.terminate_state signal) hne⟩
    · simp [PersistentKernel.terminate, hdead]
    · rw [quiet_iff]
      intro i
      by_contra hrunning
      rw [Bool.not_eq_false] at hrunning
      have hprocesses : (kernel.terminate signal).processes
          = kernel.child.elim kernel.processes (kill signal kernel.processes) := by
        simp [PersistentKernel.terminate, hdead]
      rw [hprocesses] at hrunning
      have halive := h.alive hdead
      cases hchild : kernel.child with
      | none =>
          rw [hchild] at hrunning halive
          exact absurd (halive i hrunning) (by simp)
      | some child =>
          rw [hchild, Option.elim_some] at hrunning
          rw [hchild] at halive
          obtain ⟨hbefore, hne⟩ :=
            kill_running (fun hterm => hends hterm hdead child hchild) hrunning
          exact hne (Option.some.inj (halive i hbefore)).symm

theorem Owned.launch {kernel : PersistentKernel} (hwaiting : 0 < kernel.waiting)
    (hdead : kernel.state ≠ .dead) (honce : kernel.Once) : kernel.launch.Owned := by
  have hone := honce.waiting
  have hprocesses : kernel.processes = [] := List.length_eq_zero_iff.1 (by omega)
  refine ⟨fun hd => absurd hd hdead, fun _ process hprocess => ?_⟩
  simp only [PersistentKernel.launch, hprocesses, List.nil_append, List.length_nil] at hprocess ⊢
  cases process with
  | zero => rfl
  | succ process => simp at hprocess

/-- A change to what is neither the state nor the processes. -/
theorem Owned.of_eq {kernel kernel' : PersistentKernel} (h : kernel.Owned)
    (hstate : kernel'.state = kernel.state) (hchild : kernel'.child = kernel.child)
    (hlines : kernel'.lines = kernel.lines)
    (hprocesses : kernel'.processes = kernel.processes) : kernel'.Owned := by
  refine ⟨?_, ?_⟩
  · rw [hstate, hlines, Quiet, hprocesses]
    exact h.dead
  · rw [hstate, hprocesses, hchild]
    exact h.alive

/-- Whatever becomes of one process, the others are as they were. -/
theorem Owned.set {kernel : PersistentKernel} (h : kernel.Owned) {process : Nat} {new : ProcessState}
    (hnew : new.isRunning = true → kernel.processes[process]?.any ProcessState.isRunning = true) :
    Owned { kernel with processes := kernel.processes.set process new } := by
  have hsub : ∀ i : Nat,
      (kernel.processes.set process new)[i]?.any ProcessState.isRunning = true →
        kernel.processes[i]?.any ProcessState.isRunning = true := by
    intro i hi
    by_cases hsame : process = i
    · subst hsame
      rw [List.getElem?_set] at hi
      split at hi
      · split at hi
        · exact hnew (by simpa using hi)
        · cases hi
      · contradiction
    · rwa [List.getElem?_set_ne hsame] at hi
  refine ⟨fun hdead => ⟨(h.dead hdead).1, ?_⟩, fun hne i hi => h.alive hne i (hsub i hi)⟩
  have hquiet := quiet_iff.1 (h.dead hdead).2
  rw [quiet_iff]
  intro i
  by_contra hi
  rw [Bool.not_eq_false] at hi
  exact absurd (hsub i hi) (by simp [hquiet i])

theorem Once.step {kernel kernel' : PersistentKernel} {event : KernelEvent} (h : kernel.Once)
    (hstep : kernel.step event = some kernel') : kernel'.Once := by
  have hterminate : ∀ (k : PersistentKernel) (signal : Signal), k.Once → (k.terminate signal).Once :=
    fun k signal hk => ⟨by simpa using hk.waiting, fun hc => by simp at hc⟩
  have hwaiting := h.waiting
  cases event with
  | start =>
      cases hstep
      rcases kernel.start_cases with ⟨hcreated, heq⟩ | ⟨-, heq⟩
      · obtain ⟨hzero, hnone⟩ := h.created hcreated
        rw [heq]
        exact ⟨by simp [hzero, hnone], fun hc => by simp at hc⟩
      · rwa [heq]
  | mkdirFailed | launchFailed =>
      obtain ⟨-, ⟨⟩⟩ := Option.ite_none_right_eq_some.1 hstep
      refine ⟨?_, fun hc => ⟨by simp [(h.created hc).1], (h.created hc).2⟩⟩
      show kernel.waiting - 1 + kernel.processes.length ≤ 1
      omega
  | spawned =>
      obtain ⟨hpos, ⟨⟩⟩ := Option.ite_none_right_eq_some.1 hstep
      refine ⟨?_, fun hc => absurd (h.created hc).1 hpos.ne'⟩
      show kernel.waiting - 1 + (kernel.processes ++ [ProcessState.running false]).length ≤ 1
      rw [List.length_append, List.length_singleton]
      omega
  | handleTerm process handled =>
      obtain ⟨-, ⟨⟩⟩ := Option.ite_none_right_eq_some.1 hstep
      refine ⟨by simpa using h.waiting, fun hc => ⟨(h.created hc).1, ?_⟩⟩
      simp [(h.created hc).2]
  | line line =>
      obtain ⟨-, ⟨⟩⟩ := Option.ite_none_right_eq_some.1 hstep
      rcases kernel.onLine_cases line with ⟨-, heq⟩ | ⟨pending, heq⟩
      · rw [heq]
        exact ⟨h.waiting, fun hc => by simp at hc⟩
      · rw [heq]
        exact ⟨h.waiting, h.created⟩
  | begin executionId writable =>
      cases hstep
      exact ⟨h.waiting, h.created⟩
  | expire =>
      cases hstep
      exact hterminate _ _ ⟨h.waiting, h.created⟩
  | terminate signal =>
      cases hstep
      exact hterminate _ _ h
  | error process =>
      obtain ⟨-, ⟨⟩⟩ := Option.ite_none_right_eq_some.1 hstep
      exact hterminate _ _ h
  | exit process =>
      obtain ⟨-, ⟨⟩⟩ := Option.ite_none_right_eq_some.1 hstep
      refine hterminate _ _ ⟨by simpa using h.waiting, fun hc => ⟨(h.created hc).1, ?_⟩⟩
      simp [(h.created hc).2]

/-- One event keeps a kernel in charge of its process and a dead one dead, unless the
    event is a spawn for a dead one, or a SIGTERM that is handled. -/
theorem Owned.step {kernel kernel' : PersistentKernel} {event : KernelEvent} (h : kernel.Owned)
    (honce : kernel.Once) (hlate : event = .spawned → kernel.state ≠ .dead)
    (hends : kernel.Ends event) (hstep : kernel.step event = some kernel') :
    kernel'.Owned ∧ (kernel.state = .dead → kernel'.state = .dead) := by
  cases event with
  | start =>
      cases hstep
      rcases kernel.start_cases with ⟨hcreated, heq⟩ | ⟨-, heq⟩
      · rw [heq]
        refine ⟨⟨fun hd => by simp at hd, fun _ => ?_⟩, fun hd => ?_⟩
        · exact h.alive (by simp [hcreated])
        · simp [hcreated] at hd
      · rw [heq]
        exact ⟨h, id⟩
  | mkdirFailed =>
      obtain ⟨-, ⟨⟩⟩ := Option.ite_none_right_eq_some.1 hstep
      exact ⟨h.of_eq rfl rfl rfl rfl, id⟩
  | launchFailed =>
      obtain ⟨-, ⟨⟩⟩ := Option.ite_none_right_eq_some.1 hstep
      exact ⟨h.of_eq rfl rfl rfl rfl, id⟩
  | spawned =>
      obtain ⟨hwaiting, ⟨⟩⟩ := Option.ite_none_right_eq_some.1 hstep
      exact ⟨.launch hwaiting (hlate rfl) honce, id⟩
  | line line =>
      obtain ⟨hopen, ⟨⟩⟩ := Option.ite_none_right_eq_some.1 hstep
      have hne : kernel.state ≠ .dead := by
        intro hdead
        rw [(h.dead hdead).1] at hopen
        cases hopen
      rcases kernel.onLine_cases line with ⟨-, heq⟩ | ⟨pending, heq⟩
      · rw [heq]
        exact ⟨⟨fun hd => by simp at hd, fun _ => h.alive hne⟩, fun hd => absurd hd hne⟩
      · rw [heq]
        exact ⟨h.of_eq rfl rfl rfl rfl, id⟩
  | begin executionId writable =>
      cases hstep
      exact ⟨h.of_eq rfl rfl rfl rfl, id⟩
  | handleTerm process handled =>
      obtain ⟨hguard, ⟨⟩⟩ := Option.ite_none_right_eq_some.1 hstep
      exact ⟨h.set fun _ => hguard, id⟩
  | expire =>
      cases hstep
      have hdropped : PersistentKernel.Owned { kernel with pending := none } :=
        h.of_eq rfl rfl rfl rfl
      exact ⟨hdropped.terminate (by simp), fun _ => terminate_state _ _⟩
  | terminate signal =>
      cases hstep
      refine ⟨h.terminate fun hterm => hends ?_, fun _ => terminate_state _ _⟩
      rw [KernelEvent.sends, hterm]
  | error process =>
      obtain ⟨-, ⟨⟩⟩ := Option.ite_none_right_eq_some.1 hstep
      exact ⟨h.terminate fun _ => hends rfl, fun _ => terminate_state _ _⟩
  | exit process =>
      obtain ⟨hlt, ⟨⟩⟩ := Option.ite_none_right_eq_some.1 hstep
      have hexited : PersistentKernel.Owned
          { kernel with processes := kernel.processes.set process .exited } :=
        h.set (by simp [ProcessState.isRunning])
      refine ⟨hexited.terminate fun _ _ child _ hchild => ?_, fun _ => terminate_state _ _⟩
      -- the process that exits is the only one
      have hone := honce.waiting
      obtain ⟨hchildlt, -⟩ := List.getElem?_eq_some_iff.1 hchild
      rw [List.length_set] at hchildlt
      obtain rfl : process = child := by omega
      simp [hlt] at hchild

/-! ## Runs -/

theorem once_of_run {kernel kernel' : PersistentKernel} {events : List KernelEvent}
    (h : kernel.Once) (hrun : system.Run kernel events kernel') : kernel'.Once :=
  hrun.preserves (I := Once) (fun hk hstep => hk.step hstep) h

/-- Runs whose spawns all come in time, and whose SIGTERMs end the process, keep the
    invariant, and the dead dead. -/
theorem owned_of_run {kernel kernel' : PersistentKernel} {events : List KernelEvent}
    (hrun : system.Run kernel events kernel')
    (htime : ∀ before k, before ++ [.spawned] <+: events → system.Run kernel before k →
      0 < k.waiting → k.state ≠ .dead)
    (hends : ∀ before event k, before ++ [event] <+: events → system.Run kernel before k →
      (k.step event).isSome → k.Ends event)
    (honce : kernel.Once) (h : kernel.Owned) :
    kernel'.Owned ∧ (kernel.state = .dead → kernel'.state = .dead) := by
  induction hrun with
  | refl => exact ⟨h, id⟩
  | @snoc k k' es event hpart hstep ih =>
      obtain ⟨howned, hdead⟩ := ih
        (fun before k hb hr => htime before k (hb.trans (List.prefix_append _ _)) hr)
        (fun before event k hb hr => hends before event k (hb.trans (List.prefix_append _ _)) hr)
      have hlate : event = .spawned → k.state ≠ .dead := by
        rintro rfl
        have hwaiting : 0 < k.waiting := by
          have hstep : k.step .spawned = some k' := hstep
          exact (Option.ite_none_right_eq_some.1 hstep).1
        exact htime es k (List.prefix_refl _) hpart hwaiting
      have hpossible : (k.step event).isSome := Option.isSome_iff_exists.2 ⟨k', hstep⟩
      obtain ⟨howned', hdead'⟩ := howned.step (once_of_run honce hpart) hlate
        (hends es event k (List.prefix_refl _) hpart hpossible) hstep
      exact ⟨howned', hdead' ∘ hdead⟩

theorem once_init : Once {} := ⟨by decide, fun _ => ⟨rfl, rfl⟩⟩

theorem owned_init : Owned {} :=
  ⟨fun h => by simp at h, fun _ _ hp => by simp at hp⟩

/-- A SIGTERM that is handled leaves the process of a dead kernel running. -/
theorem handled_term_runs {kernel : PersistentKernel} {event : KernelEvent} {child : Nat}
    (hterm : event.sends = some .sigterm) (hdead : kernel.state ≠ .dead)
    (hchild : kernel.child = some child)
    (hhandles : kernel.processes[child]? = some (.running true)) {kernel' : PersistentKernel}
    (hstep : kernel.step event = some kernel') :
    kernel' = kernel.terminate ∧ ¬kernel'.Quiet := by
  have heq : kernel' = kernel.terminate := by
    cases event with
    | terminate signal =>
        cases hterm
        exact (Option.some.inj hstep).symm
    | error process =>
        exact (Option.some.inj (Option.ite_none_right_eq_some.1 hstep).2).symm
    | _ => cases hterm
  subst heq
  refine ⟨rfl, fun hquiet => ?_⟩
  have hprocesses : kernel.terminate.processes = kernel.processes := by
    simp [terminate, hdead, hchild, kill, hhandles]
  have := hquiet (.running true) (by rw [hprocesses]; exact List.mem_of_getElem? hhandles)
  cases this

/-- A dead kernel stays dead, with no process left once no start is pending, exactly if
    no start that waited for the home directory goes on to spawn the runner after the
    death, and every process that is sent SIGTERM ends. -/
theorem stays_dead_iff (events : List KernelEvent) :
    StaysDead events ↔ OnTime events ∧ TermEnds events := by
  constructor
  · intro h
    refine ⟨fun before kernel hpart hrun hwaiting hdead => ?_,
      fun before event kernel hpart hrun hpossible hterm hdead child hchild hhandles => ?_⟩
    · -- a spawn for a dead kernel leaves a process running and the kernel dead
      have hstep : system.step kernel .spawned kernel.launch := by
        simp [system, PersistentKernel.step, hwaiting]
      have hone := (once_of_run once_init hrun).waiting
      obtain ⟨hquiet, -⟩ := h (before ++ [.spawned]) kernel.launch hpart (hrun.snoc hstep) hdead
      have hzero : kernel.launch.waiting = 0 := by
        simp only [PersistentKernel.launch]
        omega
      have hrunning := hquiet hzero (.running false) (by simp [PersistentKernel.launch])
      cases hrunning
    · obtain ⟨kernel', hstep⟩ := Option.isSome_iff_exists.1 hpossible
      obtain ⟨rfl, hruns⟩ := handled_term_runs hterm hdead hchild hhandles hstep
      obtain ⟨hquiet, -⟩ := h (before ++ [event]) _ hpart (hrun.snoc hstep) (terminate_state _ _)
      have hone := (once_of_run once_init hrun).waiting
      have hlt := (List.getElem?_eq_some_iff.1 hhandles).1
      refine hruns (hquiet ?_)
      rw [terminate_waiting]
      omega
  · rintro ⟨htime, hends⟩ before kernel hpart hrun hdead
    have howned : kernel.Owned := (owned_of_run hrun
      (fun earlier k he => htime earlier k (he.trans hpart))
      (fun earlier event k he => hends earlier event k (he.trans hpart)) once_init owned_init).1
    refine ⟨fun _ => (howned.dead hdead).2, fun later kernel' hlater hrun' => ?_⟩
    have hmiddle : ∀ {middle}, middle <+: later → before ++ middle <+: events := fun hm =>
      ((List.prefix_append_right_inj before).2 hm).trans hlater
    refine (owned_of_run hrun' (fun middle k hm hk => ?_) (fun middle event k hm hk => ?_)
      (once_of_run once_init hrun) howned).2 hdead
    · exact htime (before ++ middle) k (List.append_assoc before _ _ ▸ hmiddle hm) (hrun.trans hk)
    · exact hends (before ++ middle) event k (List.append_assoc before _ _ ▸ hmiddle hm)
        (hrun.trans hk)

/-- An abort while the home directory is made, and a start that goes on all the same. -/
private def abortedStart : List KernelEvent := [.start, .terminate .sigkill, .spawned, .line .ready]

/-- The kernel is aborted before its runner exists; then the runner is spawned, and its
    first line makes the dead kernel ready. -/
theorem aborted_start_revives :
    (∃ kernel, system.Run {} [.start, .terminate .sigkill] kernel ∧ kernel.state = .dead ∧
      ∃ spawned revived, system.Run kernel [.spawned] spawned ∧ ¬ spawned.Quiet ∧
        spawned.waiting = 0 ∧ system.Run spawned [.line .ready] revived ∧
        revived.state = .ready) ∧
    ¬ ∀ events, StaysDead events := by
  have hstep : ∀ {k event l}, step k event = some l → system.Run k [event] l := fun h =>
    .single h
  have hdead : system.Run {} [.start, .terminate .sigkill] { state := .dead, waiting := 1 } :=
    (hstep (l := { state := .starting, waiting := 1 }) rfl).trans (hstep rfl)
  have hspawned : system.Run { state := .dead, waiting := 1 } [.spawned]
      { state := .dead, child := some 0, lines := some 0, ready := true, settlers := true,
        processes := [.running false] } := hstep rfl
  refine ⟨⟨_, hdead, rfl, _, _, hspawned, by decide, rfl, hstep rfl, rfl⟩, fun h => ?_⟩
  have hstays := h abortedStart [.start, .terminate .sigkill] _ ⟨[.spawned, .line .ready], rfl⟩ hdead rfl
  have hstate := hstays.2 [.spawned, .line .ready] _ (List.prefix_refl _)
    (hspawned.trans (hstep rfl))
  exact absurd hstate (by decide)

end PersistentKernel

end LingxiOS
