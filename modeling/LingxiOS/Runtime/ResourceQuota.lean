-- SUMMARY: Resource quotas: slots, the queue and refusals.
import LingxiOS.Base.Transition
import Mathlib.Algebra.BigOperators.Group.List.Basic
import Mathlib.Algebra.Ring.Int.Defs
import Mathlib.Data.List.Nodup

/-! # Resource Quotas

A translation of `ResourceQuota`. An operation is code of the caller: while its synchronous
part runs it may call the quota again, abort signals, throw, or return a promise. So the
calls that are under way form a stack, and a turn of the loop of `drain` is a step of its
own. Metrics are left out. -/

namespace LingxiOS

inductive ResourcePriority where
  | foreground
  | background
  deriving DecidableEq

/-- What a quota is constructed with. -/
structure ResourceLimits where
  capacity : Nat
  maxQueued : Nat := 1024
  reservedForeground : Nat := 0
  capacity_range : 1 ≤ capacity ∧ capacity ≤ 1024 := by decide
  maxQueued_le : maxQueued ≤ 1024 := by decide
  reserved_lt : reservedForeground < capacity := by decide

namespace ResourceQuota

/-- A call of `run` that was not rejected at once. -/
structure Call where
  id : Nat
  priority : ResourcePriority
  signal : Option Nat
  deriving DecidableEq

inductive Frame where
  /-- The synchronous part of an operation. -/
  | operation (call : Call)
  /-- The loop of `drain`. -/
  | drain
  deriving DecidableEq

def Frame.call? : Frame → Option Call
  | .operation call => some call
  | .drain => none

end ResourceQuota

open ResourceQuota in
structure ResourceQuota where
  active : Int := 0
  background : Int := 0
  waiters : List Call := []
  /-- The signals that have been aborted. -/
  aborted : List Nat := []
  /-- What is under way, innermost first. -/
  stack : List Frame := []
  /-- The operations whose promise has not settled. -/
  pending : List Call := []
  /-- The calls that took a slot, in order. -/
  started : List Call := []
  /-- The calls that gave their slot back. -/
  released : List Call := []
  /-- How many calls there have been. -/
  calls : Nat := 0
  deriving DecidableEq

namespace ResourceQuota

/-! ## Slots -/

/-- What a call of a priority adds to `background`. -/
def share : ResourcePriority → Int
  | .foreground => 0
  | .background => 1

/-- `available`, of the two counts. -/
def room (limits : ResourceLimits) (active background : Int) (priority : ResourcePriority) : Bool :=
  active < limits.capacity
    && (priority == .foreground || background < limits.capacity - limits.reservedForeground)

def available (limits : ResourceLimits) (quota : ResourceQuota) (priority : ResourcePriority) :
    Bool :=
  room limits quota.active quota.background priority

/-- `signal?.aborted`. -/
def isAborted (quota : ResourceQuota) (signal : Option Nat) : Bool :=
  signal.any quota.aborted.contains

/-- Whether the loop of `drain` goes on next, and not code of a caller. -/
def draining (quota : ResourceQuota) : Bool := quota.stack.head? == some .drain

/-! ## Calls -/

/-- `release`, which goes on with `drain`. -/
def release (quota : ResourceQuota) (call : Call) : ResourceQuota :=
  { quota with
    active := quota.active - 1
    background := quota.background - share call.priority
    released := quota.released ++ [call]
    stack := .drain :: quota.stack }

/-- `start`, up to the call of the operation. -/
def start (quota : ResourceQuota) (call : Call) : ResourceQuota :=
  let taken := { quota with
    active := quota.active + 1
    background := quota.background + share call.priority
    started := quota.started ++ [call] }
  if taken.isAborted call.signal then taken.release call
  else { taken with stack := .operation call :: taken.stack }

/-- A turn of the loop of `drain`. -/
def drain (limits : ResourceLimits) (quota : ResourceQuota) : ResourceQuota :=
  match quota.waiters.find? fun item => quota.available limits item.priority with
  | some item =>
      { quota with
        waiters := quota.waiters.eraseP fun item => quota.available limits item.priority }.start item
  | none => { quota with stack := quota.stack.tail }

/-- `run`, with the call it makes or what it rejects with. -/
def run (limits : ResourceLimits) (quota : ResourceQuota) (priority : ResourcePriority)
    (signal : Option Nat) : Except String Call × ResourceQuota :=
  let call : Call := ⟨quota.calls, priority, signal⟩
  if quota.isAborted signal then (.error "aborted", quota)
  else if quota.available limits priority && quota.waiters.isEmpty then
    (.ok call, { quota with calls := quota.calls + 1 }.start call)
  else if limits.maxQueued ≤ quota.waiters.length then (.error "resource queue is full", quota)
  else
    (.ok call, { quota with
      calls := quota.calls + 1
      waiters := quota.waiters ++ [call]
      stack := .drain :: quota.stack })

/-! ## The system -/

inductive Event where
  | drain
  | run (priority : ResourcePriority) (signal : Option Nat)
  | abort (signal : Nat)
  /-- The listener of a waiter whose signal has been aborted. -/
  | cancel (call : Call)
  | returned (call : Call)
  | threw (call : Call)
  /-- The reaction to the promise of an operation. -/
  | settle (call : Call)

inductive Step (limits : ResourceLimits) (quota : ResourceQuota) : Event → ResourceQuota → Prop
  | drain (h : quota.draining = true) : Step limits quota .drain (quota.drain limits)
  | run (h : quota.draining = false) (priority : ResourcePriority) (signal : Option Nat) :
      Step limits quota (.run priority signal) (quota.run limits priority signal).2
  | abort (h : quota.draining = false) (signal : Nat) :
      Step limits quota (.abort signal) { quota with aborted := quota.aborted ++ [signal] }
  | cancel (h : quota.draining = false) {call : Call} (hcall : call ∈ quota.waiters)
      (haborted : quota.isAborted call.signal = true) :
      Step limits quota (.cancel call) { quota with waiters := quota.waiters.erase call }
  | returned {call : Call} {below : List Frame} (h : quota.stack = .operation call :: below) :
      Step limits quota (.returned call)
        { quota with stack := below, pending := quota.pending ++ [call] }
  | threw {call : Call} {below : List Frame} (h : quota.stack = .operation call :: below) :
      Step limits quota (.threw call) ({ quota with stack := below }.release call)
  /-- Reactions run when nothing else does. -/
  | settle (h : quota.stack = []) {call : Call} (hcall : call ∈ quota.pending) :
      Step limits quota (.settle call)
        ({ quota with pending := quota.pending.erase call }.release call)

/-- Every order of calls, operations and aborts on a new quota. -/
def transitions (limits : ResourceLimits) : TransitionSystem ResourceQuota Event where
  start quota := quota = {}
  step := Step limits

/-! ## What is kept -/

/-- The operations that have started and not settled. -/
def unsettled (quota : ResourceQuota) : List Call :=
  quota.stack.filterMap Frame.call? ++ quota.pending

/-- The slots are those of the operations that have started and not settled, and each is
    released once. -/
structure Counted (quota : ResourceQuota) : Prop where
  active : quota.active = quota.unsettled.length
  background : quota.background = (quota.unsettled.map fun call => share call.priority).sum
  accounted : quota.started.Perm (quota.unsettled ++ quota.released)

/-- No more slots are taken than there are, and background work leaves the reserved ones. -/
structure Bounded (limits : ResourceLimits) (active background : Int) : Prop where
  active : active ≤ limits.capacity
  background : background ≤ limits.capacity - limits.reservedForeground

/-- The calls that started and those that wait, in this order: every call is there once, and
    calls of one priority stand in the order they came. -/
structure Ordered (arrived : List Call) (calls : Nat) : Prop where
  once : (arrived.map Call.id).Nodup
  lt : ∀ call ∈ arrived, call.id < calls
  fifo : ∀ priority, (arrived.filter fun call => call.priority = priority).Pairwise
    fun first second => first.id < second.id

/-- No waiter may start. -/
def Full (limits : ResourceLimits) (active background : Int) (waiters : List Call) : Prop :=
  ∀ call ∈ waiters, room limits active background call.priority = false

/-- Once one waiter has started, no other may. -/
def Refill (limits : ResourceLimits) (active background : Int) (waiters : List Call) : Prop :=
  ∀ call ∈ waiters, ∀ other ∈ waiters, call ≠ other →
    room limits active background call.priority = true →
    room limits (active + 1) (background + share call.priority) other.priority = false

structure Kept (limits : ResourceLimits) (quota : ResourceQuota) : Prop where
  counted : Counted quota
  bounded : Bounded limits quota.active quota.background
  ordered : Ordered (quota.started ++ quota.waiters) quota.calls
  /-- While code of a caller runs, no queued entry may start. -/
  full : quota.draining = false → Full limits quota.active quota.background quota.waiters
  refill : Refill limits quota.active quota.background quota.waiters

/-! ## Laws of the parts -/

section

variable {limits : ResourceLimits} {quota quota' : ResourceQuota} {call : Call}
  {active background : Int} {priority : ResourcePriority} {waiters : List Call}

theorem share_nonneg (priority : ResourcePriority) : 0 ≤ share priority := by
  cases priority <;> decide

theorem share_le (priority : ResourcePriority) : share priority ≤ 1 := by
  cases priority <;> decide

theorem room_foreground : room limits active background .foreground = true
    ↔ active < limits.capacity := by
  simp [room]

theorem room_background : room limits active background .background = true
    ↔ active < limits.capacity
      ∧ background < limits.capacity - limits.reservedForeground := by
  simp [room]

/-- Where one more call has started there is no more room than before. -/
theorem room_taken (other : ResourcePriority) (h : room limits active background priority = false) :
    room limits (active + 1) (background + share other) priority = false := by
  have hshare := share_nonneg other
  rw [Bool.eq_false_iff] at h ⊢
  cases priority with
  | foreground =>
      rw [ne_eq, room_foreground] at h ⊢
      omega
  | background =>
      rw [ne_eq, room_background] at h ⊢
      omega

theorem Bounded.take (h : Bounded limits active background)
    (hroom : room limits active background priority = true) :
    Bounded limits (active + 1) (background + share priority) := by
  obtain ⟨hactive, hbackground⟩ := h
  cases priority with
  | foreground =>
      rw [room_foreground] at hroom
      exact ⟨by omega, by simpa [share] using hbackground⟩
  | background =>
      rw [room_background] at hroom
      exact ⟨by omega, by simp only [share]; omega⟩

theorem Bounded.release (h : Bounded limits active background) (priority : ResourcePriority) :
    Bounded limits (active - 1) (background - share priority) := by
  obtain ⟨hactive, hbackground⟩ := h
  have hshare := share_nonneg priority
  exact ⟨by omega, by omega⟩

theorem Full.refill (h : Full limits active background waiters) :
    Refill limits active background waiters := by
  intro call hcall other _ _ hroom
  simp [h call hcall] at hroom

theorem Full.of_subset {fewer : List Call} (h : Full limits active background waiters)
    (hsub : fewer ⊆ waiters) : Full limits active background fewer :=
  fun call hcall => h call (hsub hcall)

theorem Refill.of_subset {fewer : List Call} (h : Refill limits active background waiters)
    (hsub : fewer ⊆ waiters) : Refill limits active background fewer :=
  fun call hcall other hother => h call (hsub hcall) other (hsub hother)

/-- A slot that is given back is enough for one waiter only. -/
theorem Full.release (h : Full limits active background waiters) (priority : ResourcePriority) :
    Refill limits (active - 1) (background - share priority) waiters := by
  intro call hcall other hother _ hroom
  have hcallFull := h call hcall
  have hotherFull := h other hother
  rw [Bool.eq_false_iff] at hcallFull hotherFull ⊢
  have hshare := share_nonneg call.priority
  have hshare' := share_le priority
  cases hother : other.priority with
  | foreground =>
      rw [hother, ne_eq, room_foreground] at hotherFull
      rw [ne_eq, room_foreground]
      omega
  | background =>
      rw [hother, ne_eq, room_background] at hotherFull
      rw [ne_eq, room_background]
      cases hcall : call.priority with
      | foreground =>
          rw [hcall, ne_eq, room_foreground] at hcallFull
          rw [hcall, room_foreground] at hroom
          omega
      | background =>
          have hone : share .background = 1 := rfl
          omega

/-- A call that comes while no other may start is the only one that may. -/
theorem Full.push (h : Full limits active background waiters) (call : Call) :
    Refill limits active background (waiters ++ [call]) := by
  intro first hfirst other hother hne hroom
  rcases List.mem_append.1 hfirst with hbefore | hnew
  · simp [h first hbefore] at hroom
  · obtain rfl := List.mem_singleton.1 hnew
    rcases List.mem_append.1 hother with hbefore | hsame
    · exact room_taken _ (h other hbefore)
    · exact absurd (List.mem_singleton.1 hsame).symm hne

theorem Ordered.push {arrived : List Call} {calls : Nat} (h : Ordered arrived calls)
    (hid : call.id = calls) : Ordered (arrived ++ [call]) (calls + 1) where
  once := by
    rw [List.map_append, List.map_cons, List.map_nil]
    refine List.nodup_append.2 ⟨h.once, List.nodup_singleton _, ?_⟩
    intro id hmem other hother
    obtain rfl := List.mem_singleton.1 hother
    obtain ⟨earlier, hearlier, rfl⟩ := List.mem_map.1 hmem
    exact Nat.ne_of_lt (hid ▸ h.lt earlier hearlier)
  lt other hother := by
    rcases List.mem_append.1 hother with hbefore | hnew
    · exact Nat.lt_succ_of_lt (h.lt other hbefore)
    · obtain rfl := List.mem_singleton.1 hnew
      omega
  fifo priority := by
    rw [List.filter_append, List.pairwise_append]
    refine ⟨h.fifo priority, (List.pairwise_singleton _ call).filter _, ?_⟩
    intro first hfirst second hsecond
    obtain rfl := List.mem_singleton.1 (List.mem_of_mem_filter hsecond)
    exact hid ▸ h.lt first (List.mem_of_mem_filter hfirst)

theorem Ordered.sublist {arrived fewer : List Call} {calls : Nat} (h : Ordered arrived calls)
    (hsub : fewer.Sublist arrived) : Ordered fewer calls where
  once := h.once.sublist (hsub.map _)
  lt call hcall := h.lt call (hsub.subset hcall)
  fifo priority := (h.fifo priority).sublist (hsub.filter _)

/-- A waiter may start before those of the other priority that came before it. -/
theorem Ordered.overtake {started skipped rest : List Call} {calls : Nat}
    (h : Ordered (started ++ (skipped ++ call :: rest)) calls)
    (hskipped : ∀ other ∈ skipped, other.priority ≠ call.priority) :
    Ordered (started ++ [call] ++ (skipped ++ rest)) calls := by
  have hperm : (started ++ [call] ++ (skipped ++ rest)).Perm
      (started ++ (skipped ++ call :: rest)) := by
    rw [List.append_assoc, List.singleton_append]
    exact List.Perm.append_left _ List.perm_middle.symm
  constructor
  case once => exact (hperm.map _).nodup_iff.2 h.once
  case lt => exact fun other hother => h.lt other (hperm.subset hother)
  case fifo =>
    intro priority
    have hfifo := h.fifo priority
    by_cases hsame : call.priority = priority
    case pos =>
      have hnone : skipped.filter (fun other => decide (other.priority = priority)) = [] :=
        List.filter_eq_nil_iff.2 fun other hother => by
          simpa [hsame] using hskipped other hother
      simpa only [List.filter_append, List.filter_cons, List.filter_nil, List.append_assoc, hnone,
        hsame, decide_true, if_true, List.nil_append, List.singleton_append] using hfifo
    case neg => simpa [List.filter_append, hsame] using hfifo

/-! ## Laws of the calls -/

theorem start_cases (quota : ResourceQuota) (call : Call) :
    (quota.isAborted call.signal = true ∧ quota.start call =
      { quota with
        started := quota.started ++ [call]
        released := quota.released ++ [call]
        stack := .drain :: quota.stack })
    ∨ (quota.isAborted call.signal = false ∧ quota.start call =
      { quota with
        active := quota.active + 1
        background := quota.background + share call.priority
        started := quota.started ++ [call]
        stack := .operation call :: quota.stack }) := by
  cases haborted : quota.isAborted call.signal with
  | true =>
      refine .inl ⟨rfl, ?_⟩
      simp only [isAborted] at haborted
      simp [start, isAborted, haborted, release]
  | false =>
      refine .inr ⟨rfl, ?_⟩
      simp only [isAborted] at haborted
      simp [start, isAborted, haborted]

theorem drain_cases (limits : ResourceLimits) (quota : ResourceQuota) :
    (Full limits quota.active quota.background quota.waiters
      ∧ quota.drain limits = { quota with stack := quota.stack.tail })
    ∨ ∃ skipped item rest, quota.waiters = skipped ++ item :: rest
      ∧ quota.available limits item.priority = true
      ∧ (∀ other ∈ skipped, quota.available limits other.priority = false)
      ∧ quota.drain limits = { quota with waiters := skipped ++ rest }.start item := by
  cases hfind : quota.waiters.find? fun item => quota.available limits item.priority with
  | none =>
      refine .inl ⟨fun call hcall => ?_, by simp [drain, hfind]⟩
      simpa [available] using List.find?_eq_none.1 hfind call hcall
  | some item =>
      obtain ⟨havailable, skipped, rest, hwaiters, hskipped⟩ := List.find?_eq_some_iff_append.1 hfind
      have hothers : ∀ other ∈ skipped, quota.available limits other.priority = false :=
        fun other hother => by simpa using hskipped other hother
      refine .inr ⟨skipped, item, rest, hwaiters, havailable, hothers, ?_⟩
      have herased : quota.waiters.eraseP (fun item => quota.available limits item.priority)
          = skipped ++ rest := by
        rw [hwaiters, List.eraseP_append_right _ fun other hother => by simp [hothers other hother],
          List.eraseP_cons_of_pos (p := fun item : Call => quota.available limits item.priority)
            havailable]
      simp only [drain, hfind, herased]

/-- A slot is given back by one of those that hold one. -/
theorem Counted.release (h : Counted quota) (hactive : quota'.active = quota.active)
    (hbackground : quota'.background = quota.background) (hstarted : quota'.started = quota.started)
    (hreleased : quota'.released = quota.released)
    (hunsettled : quota.unsettled.Perm (call :: quota'.unsettled)) :
    Counted (quota'.release call) := by
  have hleft : (quota'.release call).unsettled = quota'.unsettled := rfl
  constructor
  case active =>
    have hlength := hunsettled.length_eq
    rw [List.length_cons] at hlength
    rw [hleft]
    simp only [ResourceQuota.release, hactive, h.active]
    omega
  case background =>
    have hsum := (hunsettled.map fun call => share call.priority).sum_eq
    rw [List.map_cons, List.sum_cons] at hsum
    rw [hleft]
    simp only [ResourceQuota.release, hbackground, h.background]
    omega
  case accounted =>
    rw [hleft]
    simp only [ResourceQuota.release, hstarted, hreleased]
    refine h.accounted.trans ((hunsettled.append_right _).trans ?_)
    rw [← List.append_assoc]
    exact (List.perm_append_singleton _ _).symm

theorem Counted.start (h : Counted quota) (call : Call) : Counted (quota.start call) := by
  have htaken : Counted { quota with
      active := quota.active + 1
      background := quota.background + share call.priority
      started := quota.started ++ [call]
      stack := .operation call :: quota.stack } := by
    constructor
    case active => simp [unsettled, Frame.call?, h.active]
    case background =>
      have hsum := h.background
      simp only [unsettled, Frame.call?, List.filterMap_cons, List.map_cons, List.cons_append,
        List.sum_cons] at hsum ⊢
      omega
    case accounted =>
      refine (List.perm_append_singleton _ _).trans (h.accounted.cons call)
  simp only [ResourceQuota.start]
  split
  · exact htaken.release rfl rfl rfl rfl (.refl _)
  · exact htaken

/-- What counts the slots does not depend on who waits. -/
theorem Counted.of_eq (h : Counted quota) (hactive : quota'.active = quota.active)
    (hbackground : quota'.background = quota.background) (hstarted : quota'.started = quota.started)
    (hreleased : quota'.released = quota.released)
    (hunsettled : quota'.unsettled.Perm quota.unsettled) : Counted quota' where
  active := by rw [hactive, h.active, hunsettled.length_eq]
  background := by
    rw [hbackground, h.background, (hunsettled.map fun call => share call.priority).sum_eq]
  accounted := by
    rw [hstarted, hreleased]
    exact h.accounted.trans (hunsettled.symm.append_right _)

/-- A waiter or a new call that may start. -/
theorem Kept.start (hcounted : Counted quota)
    (hbounded : Bounded limits quota.active quota.background)
    (hroom : quota.available limits call.priority = true)
    (hordered : Ordered (quota.started ++ [call] ++ quota.waiters) quota.calls)
    (hrefill : Refill limits quota.active quota.background quota.waiters)
    (hfull : Full limits (quota.active + 1) (quota.background + share call.priority) quota.waiters) :
    Kept limits (quota.start call) := by
  have hcount := hcounted.start call
  rcases start_cases quota call with ⟨-, heq⟩ | ⟨-, heq⟩
  case inl =>
    rw [heq] at hcount ⊢
    exact ⟨hcount, hbounded, hordered, nofun, hrefill⟩
  case inr =>
    rw [heq] at hcount ⊢
    exact ⟨hcount, hbounded.take hroom, hordered, fun _ => hfull, hfull.refill⟩

/-- An operation that settles or throws, while no other may start. -/
theorem Kept.release (h : Kept limits quota) (hfull : quota.draining = false)
    (hactive : quota'.active = quota.active) (hbackground : quota'.background = quota.background)
    (hstarted : quota'.started = quota.started) (hreleased : quota'.released = quota.released)
    (hwaiters : quota'.waiters = quota.waiters) (hcalls : quota'.calls = quota.calls)
    (hunsettled : quota.unsettled.Perm (call :: quota'.unsettled)) :
    Kept limits (quota'.release call) where
  counted := h.counted.release hactive hbackground hstarted hreleased hunsettled
  bounded := by
    simp only [ResourceQuota.release, hactive, hbackground]
    exact h.bounded.release call.priority
  ordered := by
    simp only [ResourceQuota.release, hstarted, hwaiters, hcalls]
    exact h.ordered
  full := nofun
  refill := by
    simp only [ResourceQuota.release, hactive, hbackground, hwaiters]
    exact (h.full hfull).release call.priority

theorem Kept.drain (h : Kept limits quota) (hdraining : quota.draining = true) :
    Kept limits (quota.drain limits) := by
  rcases drain_cases limits quota with ⟨hfull, heq⟩ | ⟨skipped, item, rest, hwaiters, hroom, hskipped, heq⟩
  case inl =>
    rw [heq]
    refine ⟨?_, h.bounded, h.ordered, fun _ => hfull, hfull.refill⟩
    refine h.counted.of_eq rfl rfl rfl rfl ?_
    obtain ⟨below, hstack⟩ := List.head?_eq_some_iff.1 (beq_iff_eq.1 hdraining)
    simp [unsettled, hstack, List.filterMap_cons_none (f := Frame.call?) (a := .drain) rfl]
  case inr =>
    rw [heq]
    have hordered := hwaiters ▸ h.ordered
    have hsub : skipped ++ rest ⊆ quota.waiters := by
      rw [hwaiters]
      exact ((List.sublist_cons_self item rest).append_left skipped).subset
    have hitem : item ∉ skipped ++ rest := by
      have hnodup := (List.nodup_append.1 hordered.once.of_map).2.1
      rw [List.nodup_middle, List.nodup_cons] at hnodup
      exact hnodup.1
    have hmem : item ∈ quota.waiters := hwaiters ▸ List.mem_append_right _ List.mem_cons_self
    refine Kept.start (h.counted.of_eq rfl rfl rfl rfl (.refl _)) h.bounded hroom ?_ ?_ ?_
    · refine hordered.overtake fun other hother hsame => ?_
      have hnone := hskipped other hother
      rw [hsame, hroom] at hnone
      cases hnone
    · exact h.refill.of_subset hsub
    · intro other hother
      exact h.refill item hmem other (hsub hother) (fun hsame => hitem (hsame ▸ hother)) hroom

/-- The cases of a call. -/
theorem run_cases (limits : ResourceLimits) (quota : ResourceQuota) (priority : ResourcePriority)
    {signal : Option Nat} (hopen : quota.isAborted signal = false) :
    (quota.available limits priority = true ∧ quota.waiters = []
      ∧ quota.run limits priority signal = (.ok ⟨quota.calls, priority, signal⟩,
        { quota with calls := quota.calls + 1 }.start ⟨quota.calls, priority, signal⟩))
    ∨ ((quota.available limits priority = false ∨ quota.waiters ≠ [])
      ∧ limits.maxQueued ≤ quota.waiters.length
      ∧ quota.run limits priority signal = (.error "resource queue is full", quota))
    ∨ ((quota.available limits priority = false ∨ quota.waiters ≠ [])
      ∧ quota.waiters.length < limits.maxQueued
      ∧ quota.run limits priority signal = (.ok ⟨quota.calls, priority, signal⟩,
        { quota with
          calls := quota.calls + 1
          waiters := quota.waiters ++ [⟨quota.calls, priority, signal⟩]
          stack := .drain :: quota.stack })) := by
  by_cases hdirect : quota.available limits priority = true ∧ quota.waiters = []
  case pos => exact .inl ⟨hdirect.1, hdirect.2, by simp [run, hopen, hdirect]⟩
  case neg =>
    have hqueued : quota.available limits priority = false ∨ quota.waiters ≠ [] := by
      rcases Bool.eq_false_or_eq_true (quota.available limits priority) with hroom | hnone
      · exact .inr fun hnil => hdirect ⟨hroom, hnil⟩
      · exact .inl hnone
    refine .inr ?_
    by_cases hfull : limits.maxQueued ≤ quota.waiters.length
    case pos => exact .inl ⟨hqueued, hfull, by simp [run, hopen, hdirect, hfull]⟩
    case neg =>
      exact .inr ⟨hqueued, Nat.lt_of_not_le hfull, by simp [run, hopen, hdirect, hfull]⟩

theorem Kept.run (h : Kept limits quota) (hdraining : quota.draining = false)
    (priority : ResourcePriority) (signal : Option Nat) :
    Kept limits (quota.run limits priority signal).2 := by
  cases hopen : quota.isAborted signal with
  | true =>
      rw [show quota.run limits priority signal = (.error "aborted", quota) by
        simp [ResourceQuota.run, hopen]]
      exact h
  | false =>
      have hfull := h.full hdraining
      rcases run_cases limits quota priority hopen with ⟨hroom, hnil, heq⟩ | ⟨-, -, heq⟩ | ⟨-, -, heq⟩
      case inl =>
        rw [heq]
        refine Kept.start (h.counted.of_eq rfl rfl rfl rfl (.refl _)) h.bounded hroom ?_ ?_ ?_
        · have hordered := h.ordered
          rw [hnil, List.append_nil] at hordered
          simp only [hnil, List.append_nil]
          exact hordered.push rfl
        · exact h.refill
        · simp only [hnil]
          exact nofun
      case inr.inl =>
        rw [heq]
        exact h
      case inr.inr =>
        rw [heq]
        refine ⟨h.counted.of_eq rfl rfl rfl rfl (.refl _), h.bounded, ?_, nofun, hfull.push _⟩
        rw [← List.append_assoc]
        exact h.ordered.push rfl

/-- What every step keeps. -/
theorem Kept.step {event : Event} (h : Kept limits quota) (hstep : Step limits quota event quota') :
    Kept limits quota' := by
  cases hstep with
  | drain hdraining => exact h.drain hdraining
  | run hdraining priority signal => exact h.run hdraining priority signal
  | abort hdraining signal => exact ⟨h.counted.of_eq rfl rfl rfl rfl (.refl _), h.bounded, h.ordered, h.full, h.refill⟩
  | @cancel hdraining call hcall haborted =>
      have hsub : (quota.waiters.erase call).Sublist quota.waiters := List.erase_sublist
      refine ⟨h.counted.of_eq rfl rfl rfl rfl (.refl _), h.bounded, ?_, ?_, ?_⟩
      · exact h.ordered.sublist (hsub.append_left _)
      · exact fun hdraining => (h.full hdraining).of_subset hsub.subset
      · exact h.refill.of_subset hsub.subset
  | @returned call below hstack =>
      have hdraining : quota.draining = false := by simp [draining, hstack]
      have hfull := h.full hdraining
      refine ⟨h.counted.of_eq rfl rfl rfl rfl ?_, h.bounded, h.ordered, fun _ => hfull, h.refill⟩
      simp only [unsettled, hstack, List.filterMap_cons, Frame.call?, List.cons_append,
        ← List.append_assoc]
      exact List.perm_append_singleton _ _
  | @threw call below hstack =>
      have hdraining : quota.draining = false := by simp [draining, hstack]
      refine h.release hdraining rfl rfl rfl rfl rfl rfl ?_
      simp [unsettled, hstack, Frame.call?]
  | @settle hstack call hcall =>
      have hdraining : quota.draining = false := by simp [draining, hstack]
      refine h.release hdraining rfl rfl rfl rfl rfl rfl ?_
      simp only [unsettled, hstack, List.filterMap_nil, List.nil_append]
      exact List.perm_cons_erase hcall

/-! ## The guarantees -/

/-- In every order of calls, of the ends of operations and of aborts, no more slots are taken
    than there are, the slots are those of the operations that have started and not settled,
    no queued entry may start while code of a caller runs, and calls of one priority start in
    the order they came. -/
theorem quota_kept (h : (transitions limits).Reachable quota) : Kept limits quota := by
  refine h.invariant ?_ fun hkept hstep => hkept.step hstep
  rintro _ rfl
  exact ⟨⟨rfl, rfl, .refl _⟩, ⟨by simp, by have := limits.reserved_lt; simp; omega⟩,
    ⟨List.nodup_nil, nofun, fun _ => .nil⟩, nofun, nofun⟩

/-- A call that has a slot, or takes one in the turn of `drain` that comes next. -/
def StartsNow (limits : ResourceLimits) (quota : ResourceQuota) (call : Call) : Prop :=
  call ∈ quota.started ∨ call ∈ (quota.drain limits).started

theorem mem_start_started : call ∈ (quota.start call).started := by
  rcases start_cases quota call with ⟨-, heq⟩ | ⟨-, heq⟩ <;>
    · rw [heq]
      exact List.mem_append_right _ (List.mem_singleton.2 rfl)

/-- The first waiter that may start does. -/
theorem startsNow_of_last {earlier : List Call} (hwaiters : quota.waiters = earlier ++ [call])
    (hfull : Full limits quota.active quota.background earlier)
    (hroom : quota.available limits call.priority = true) : StartsNow limits quota call := by
  refine .inr ?_
  rcases drain_cases limits quota with ⟨hnone, -⟩ | ⟨skipped, item, rest, hsplit, hitem, hskipped, heq⟩
  case inl =>
    have hlast := hnone call (hwaiters ▸ List.mem_append_right _ (List.mem_singleton.2 rfl))
    rw [available, hlast] at hroom
    cases hroom
  case inr =>
    have hsame : item = call := by
      have hmem : item ∈ earlier ++ [call] :=
        hwaiters ▸ hsplit ▸ List.mem_append_right _ List.mem_cons_self
      rcases List.mem_append.1 hmem with hearlier | hlast
      · rw [available, hfull item hearlier] at hitem
        cases hitem
      · exact List.mem_singleton.1 hlast
    rw [heq, hsame]
    exact mem_start_started

/-- A foreground call that comes while there is a slot for it starts exactly if nothing waits
    or the queue has a place left, although it needs none. -/
theorem foreground_starts_iff (h : (transitions limits).Reachable quota)
    (hcaller : quota.draining = false) (hslot : quota.available limits .foreground = true)
    {signal : Option Nat} (hopen : quota.isAborted signal = false) :
    (∃ call, (quota.run limits .foreground signal).1 = .ok call
      ∧ StartsNow limits (quota.run limits .foreground signal).2 call)
    ↔ quota.waiters = [] ∨ quota.waiters.length < limits.maxQueued := by
  have hfull := (quota_kept h).full hcaller
  rcases run_cases limits quota .foreground hopen with
    ⟨-, hnil, heq⟩ | ⟨hqueued, hlong, heq⟩ | ⟨-, hshort, heq⟩
  case inl =>
    rw [heq]
    exact iff_of_true ⟨_, rfl, .inl mem_start_started⟩ (.inl hnil)
  case inr.inl =>
    rw [heq]
    refine iff_of_false (fun ⟨call, hcall, _⟩ => by cases hcall) ?_
    rintro (hnil | hshort)
    · rw [hslot, hnil] at hqueued
      simp at hqueued
    · exact absurd hlong (Nat.not_le.2 hshort)
  case inr.inr =>
    rw [heq]
    exact iff_of_true ⟨_, rfl, startsNow_of_last rfl hfull hslot⟩ (.inr hshort)

end

/-- Two slots, one of them reserved, and a queue of one. -/
private def pairLimits : ResourceLimits := { capacity := 2, maxQueued := 1, reservedForeground := 1 }

/-- Background work that runs, and background work that waits for it. -/
private theorem reserved_reachable : (transitions pairLimits).Reachable
    { active := 1, background := 1, waiters := [⟨1, .background, none⟩],
      pending := [⟨0, .background, none⟩], started := [⟨0, .background, none⟩], calls := 2 } := by
  have hstart : (transitions pairLimits).Reachable {} := .of_start rfl
  have hrun := hstart.next (Step.run rfl .background none)
  have hpending := hrun.next (Step.returned rfl)
  have hqueued := hpending.next (Step.run rfl .background none)
  exact hqueued.next (Step.drain rfl)

theorem quota_kept_reserved : Kept pairLimits
    { active := 1, background := 1, waiters := [⟨1, .background, none⟩],
      pending := [⟨0, .background, none⟩], started := [⟨0, .background, none⟩], calls := 2 } :=
  quota_kept reserved_reachable

theorem foreground_starts_iff_empty :
    (∃ call, (({} : ResourceQuota).run pairLimits .foreground none).1 = .ok call
      ∧ StartsNow pairLimits (({} : ResourceQuota).run pairLimits .foreground none).2 call)
    ↔ ([] : List Call) = [] ∨ 0 < pairLimits.maxQueued :=
  foreground_starts_iff (.of_start rfl) rfl rfl rfl

/-- While background work fills the queue, foreground work is refused the slot that is
    reserved for it. -/
theorem reserved_slot_refused : ∃ quota, (transitions pairLimits).Reachable quota
    ∧ 0 < pairLimits.reservedForeground ∧ quota.draining = false
    ∧ quota.available pairLimits .foreground = true
    ∧ (quota.run pairLimits .foreground none).1 = .error "resource queue is full" :=
  ⟨_, reserved_reachable, by decide, rfl, rfl, rfl⟩

end ResourceQuota

end LingxiOS
