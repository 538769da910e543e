-- SUMMARY: Wakeups: a wait is settled by the next notification.
import LingxiOS.Base.Transition
import Mathlib.Data.List.Nodup

/-! # Wakeups

A translation of `Wakeup`. A caller reads the version, does other work, and then waits for
a later one. Every call and every callback runs to completion; a timer may fire while its
waiter is registered, and an aborted signal calls the listeners that are left one by one. -/

namespace LingxiOS

namespace Wakeup

/-! ## Waiters -/

/-- A call of `wait` that returned a promise, with its cursor and its signal. -/
structure Waiter where
  id : Nat
  after : Nat
  signal : Option Nat
  deriving DecidableEq

inductive Settlement where
  | resolved
  /-- Resolved by its timer. -/
  | timedOut
  | rejected
  deriving DecidableEq

/-- A promise that has settled, with the version there was then. -/
structure Settled where
  waiter : Waiter
  how : Settlement
  version : Nat
  deriving DecidableEq

end Wakeup

open Wakeup in
structure Wakeup where
  version : Nat := 0
  /-- The registered waiters, in the order they came. -/
  waiting : List Waiter := []
  settled : List Settled := []
  /-- The signals that have been aborted. -/
  aborted : List Nat := []
  /-- How many promises there are. -/
  promises : Nat := 0
  deriving DecidableEq

/-! ## Calls -/

namespace Wakeup

def maxWaiting : Nat := 4096

/-- `signal?.aborted`. -/
def isAborted (wakeup : Wakeup) (signal : Option Nat) : Bool :=
  signal.any wakeup.aborted.contains

/-- `cleanup`, and the promise is settled. -/
def settle (wakeup : Wakeup) (waiter : Waiter) (how : Settlement) : Wakeup :=
  { wakeup with
    waiting := wakeup.waiting.filter fun other => other.id ≠ waiter.id
    settled := wakeup.settled ++ [⟨waiter, how, wakeup.version⟩] }

def notify (wakeup : Wakeup) : Wakeup :=
  wakeup.waiting.foldl (fun wakeup waiter => wakeup.settle waiter .resolved)
    { wakeup with version := wakeup.version + 1 }

/-- A promise that is settled at once. -/
def settleNew (wakeup : Wakeup) (after : Nat) (signal : Option Nat) : Wakeup :=
  { wakeup with
    settled := wakeup.settled ++ [⟨⟨wakeup.promises, after, signal⟩, .resolved, wakeup.version⟩]
    promises := wakeup.promises + 1 }

/-- The body of the promise: register, and look again. -/
def register (wakeup : Wakeup) (waiter : Waiter) : Wakeup :=
  let added := { wakeup with
    waiting := wakeup.waiting ++ [waiter]
    promises := wakeup.promises + 1 }
  if waiter.after ≠ added.version then added.settle waiter .resolved
  else if added.isAborted waiter.signal then added.settle waiter .rejected
  else added

/-- `wait`, with the promise it returns or what it throws. -/
def wait (wakeup : Wakeup) (after : Nat) (signal : Option Nat) : Except String Waiter × Wakeup :=
  let waiter : Waiter := ⟨wakeup.promises, after, signal⟩
  if wakeup.isAborted signal then (.error "aborted", wakeup)
  else if after ≠ wakeup.version then (.ok waiter, wakeup.settleNew after signal)
  else if maxWaiting ≤ wakeup.waiting.length then (.error "too many wakeup subscribers", wakeup)
  else (.ok waiter, wakeup.register waiter)

/-! ## The system -/

inductive Event where
  | notify
  | wait (after : Nat) (signal : Option Nat) (answer : Except String Waiter)
  | timeout (waiter : Waiter)
  | abort (signal : Nat)
  /-- The listener of a waiter whose signal has been aborted. -/
  | cancel (waiter : Waiter)

inductive Step (wakeup : Wakeup) : Event → Wakeup → Prop
  | notify : Step wakeup .notify wakeup.notify
  /-- The cursor was read from the version at some earlier time. -/
  | wait {after : Nat} (signal : Option Nat) (h : after ≤ wakeup.version) :
      Step wakeup (.wait after signal (wakeup.wait after signal).1) (wakeup.wait after signal).2
  | timeout {waiter : Waiter} (h : waiter ∈ wakeup.waiting) :
      Step wakeup (.timeout waiter) (wakeup.settle waiter .timedOut)
  | abort (signal : Nat) :
      Step wakeup (.abort signal) { wakeup with aborted := wakeup.aborted ++ [signal] }
  | cancel {waiter : Waiter} (h : waiter ∈ wakeup.waiting)
      (haborted : wakeup.isAborted waiter.signal = true) :
      Step wakeup (.cancel waiter) (wakeup.settle waiter .rejected)

/-- Every interleaving of calls, timers and aborts on a new wakeup. -/
def transitions : TransitionSystem Wakeup Event where
  start wakeup := wakeup = {}
  step := Step

/-! ## What is kept -/

/-- How a promise settled fits what happened while it waited: its cursor is older than the
    version then exactly if it was resolved by it. -/
structure Settled.Fits (aborted : List Nat) (settled : Settled) : Prop where
  cursor : settled.waiter.after ≤ settled.version
  resolved : settled.how = .resolved ↔ settled.waiter.after < settled.version
  rejected : settled.how = .rejected → settled.waiter.signal.any aborted.contains = true

/-- Every promise waits for a version later than the current one, or has settled as it
    should. -/
structure Kept (wakeup : Wakeup) : Prop where
  current : ∀ waiter ∈ wakeup.waiting, waiter.after = wakeup.version
  fits : ∀ settled ∈ wakeup.settled, settled.Fits wakeup.aborted
  /-- Every promise is waiting or settled, and only once. -/
  once : (wakeup.waiting.map Waiter.id ++ wakeup.settled.map fun settled => settled.waiter.id).Perm
    (List.range wakeup.promises)

/-- What a step does to a waiter. -/
inductive Later (waiter : Waiter) (after : Wakeup) : Event → Prop
  | notified (h : waiter ∉ after.waiting)
      (hsettled : ⟨waiter, .resolved, after.version⟩ ∈ after.settled) : Later waiter after .notify
  | timedOut (h : waiter ∉ after.waiting)
      (hsettled : ⟨waiter, .timedOut, after.version⟩ ∈ after.settled) :
      Later waiter after (.timeout waiter)
  | cancelled (h : waiter ∉ after.waiting)
      (hsettled : ⟨waiter, .rejected, after.version⟩ ∈ after.settled) :
      Later waiter after (.cancel waiter)
  | pending {event : Event} (hevent : event ≠ .notify) (h : waiter ∈ after.waiting) :
      Later waiter after event

section

variable {wakeup wakeup' : Wakeup} {waiter : Waiter} {after : Nat} {signal : Option Nat}
  {how : Settlement} {event : Event}

theorem Kept.ids (h : Kept wakeup) : (wakeup.waiting.map Waiter.id).Nodup :=
  (h.once.nodup_iff.2 List.nodup_range).of_append_left

theorem Kept.unregistered (h : Kept wakeup) {settled : Settled} (hsettled : settled ∈ wakeup.settled) :
    settled.waiter ∉ wakeup.waiting := by
  intro hwaiter
  refine (h.once.nodup_iff.2 List.nodup_range).disjoint (List.mem_map_of_mem hwaiter) ?_
  exact List.mem_map.2 ⟨settled, hsettled, rfl⟩

theorem Kept.eq_of_id (h : Kept wakeup) {other : Waiter} (hwaiter : waiter ∈ wakeup.waiting)
    (hother : other ∈ wakeup.waiting) (hid : other.id = waiter.id) : other = waiter :=
  List.inj_on_of_nodup_map h.ids hother hwaiter hid

theorem mem_settle {other : Waiter} : other ∈ (wakeup.settle waiter how).waiting
    ↔ other ∈ wakeup.waiting ∧ other.id ≠ waiter.id := by
  simp [settle]

/-- A waiter that settles is the only one to leave. -/
theorem Kept.settle (h : Kept wakeup) (hwaiter : waiter ∈ wakeup.waiting)
    (hfits : (⟨waiter, how, wakeup.version⟩ : Settled).Fits wakeup.aborted) :
    Kept (wakeup.settle waiter how) where
  current other hother := h.current other (mem_settle.1 hother).1
  fits settled hsettled := by
    rcases List.mem_append.1 hsettled with hbefore | hnew
    · exact h.fits settled hbefore
    · obtain rfl := List.mem_singleton.1 hnew
      exact hfits
  once := by
    have hleft : (wakeup.settle waiter how).waiting.map Waiter.id
        = (wakeup.waiting.map Waiter.id).erase waiter.id := by
      rw [h.ids.erase_eq_filter, List.filter_map]
      refine congrArg _ (List.filter_congr fun other _ => ?_)
      simp [bne, Bool.beq_eq_decide_eq]
    have hadded : ((wakeup.settle waiter how).settled.map fun settled => settled.waiter.id)
        = (wakeup.settled.map fun settled => settled.waiter.id) ++ [waiter.id] := by
      simp [Wakeup.settle]
    rw [hleft, hadded, ← List.append_assoc]
    refine (List.perm_append_singleton _ _).trans (List.Perm.trans ?_ h.once)
    rw [← List.cons_append]
    refine List.Perm.append_right _ ?_
    exact (List.perm_cons_erase (List.mem_map_of_mem hwaiter)).symm

theorem settled_all (waiters : List Waiter) (wakeup : Wakeup) :
    waiters.foldl (fun wakeup waiter => wakeup.settle waiter .resolved) wakeup =
      { wakeup with
        waiting := wakeup.waiting.filter fun other => other.id ∉ waiters.map Waiter.id
        settled := wakeup.settled ++ waiters.map fun waiter => ⟨waiter, .resolved, wakeup.version⟩ } := by
  induction waiters generalizing wakeup with
  | nil => simp
  | cons waiter waiters ih =>
      rw [List.foldl_cons, ih]
      simp [Wakeup.settle, List.filter_filter, Bool.and_comm]

/-- A notification settles every waiter with the new version. -/
theorem notify_eq (wakeup : Wakeup) : wakeup.notify =
    { wakeup with
      version := wakeup.version + 1
      waiting := []
      settled := wakeup.settled
        ++ wakeup.waiting.map fun waiter => ⟨waiter, .resolved, wakeup.version + 1⟩ } := by
  have hnone : wakeup.waiting.filter
      (fun other => decide (other.id ∉ wakeup.waiting.map Waiter.id)) = [] :=
    List.filter_eq_nil_iff.2 fun other hother => by
      simpa using ⟨other, hother, rfl⟩
  rw [notify, settled_all]
  simp only [hnone]

theorem Kept.notify (h : Kept wakeup) : Kept wakeup.notify := by
  rw [notify_eq]
  constructor
  case current =>
    intro waiter hwaiter
    cases hwaiter
  case fits =>
    intro settled hsettled
    rcases List.mem_append.1 hsettled with hbefore | hnew
    · exact h.fits settled hbefore
    · obtain ⟨waiter, hwaiter, rfl⟩ := List.mem_map.1 hnew
      have hcursor := h.current waiter hwaiter
      exact ⟨by simp [hcursor], by simp [hcursor], nofun⟩
  case once =>
    simp only [List.map_nil, List.nil_append, List.map_append, List.map_map]
    exact List.perm_append_comm.trans h.once

/-- The cases of a call. -/
theorem wait_cases (h : after ≤ wakeup.version) (hopen : wakeup.isAborted signal = false) :
    (after < wakeup.version
      ∧ wakeup.wait after signal = (.ok ⟨wakeup.promises, after, signal⟩, wakeup.settleNew after signal))
    ∨ (after = wakeup.version ∧ maxWaiting ≤ wakeup.waiting.length
      ∧ wakeup.wait after signal = (.error "too many wakeup subscribers", wakeup))
    ∨ (after = wakeup.version ∧ wakeup.waiting.length < maxWaiting
      ∧ wakeup.wait after signal = (.ok ⟨wakeup.promises, after, signal⟩,
        { wakeup with
          waiting := wakeup.waiting ++ [⟨wakeup.promises, after, signal⟩]
          promises := wakeup.promises + 1 })) := by
  rcases Nat.lt_or_eq_of_le h with hold | rfl
  case inl =>
    refine .inl ⟨hold, ?_⟩
    simp [wait, hopen, Nat.ne_of_lt hold]
  case inr =>
    refine .inr ?_
    by_cases hfull : maxWaiting ≤ wakeup.waiting.length
    case pos =>
      refine .inl ⟨rfl, hfull, ?_⟩
      simp [wait, hopen, hfull]
    case neg =>
      refine .inr ⟨rfl, Nat.lt_of_not_le hfull, ?_⟩
      have hadded : ({ wakeup with
          waiting := wakeup.waiting ++ [⟨wakeup.promises, wakeup.version, signal⟩]
          promises := wakeup.promises + 1 } : Wakeup).isAborted signal = false := hopen
      simp [wait, hopen, hfull, register, hadded]

theorem Kept.settleNew (h : Kept wakeup) (hold : after < wakeup.version) :
    Kept (wakeup.settleNew after signal) where
  current := h.current
  fits settled hsettled := by
    rcases List.mem_append.1 hsettled with hbefore | hnew
    · exact h.fits settled hbefore
    · obtain rfl := List.mem_singleton.1 hnew
      exact ⟨Nat.le_of_lt hold, by simpa using hold, nofun⟩
  once := by
    simp only [Wakeup.settleNew, List.map_append, List.map_cons, List.map_nil, List.range_succ,
      ← List.append_assoc]
    exact h.once.append_right _

theorem Kept.registered (h : Kept wakeup) (hwaiter : waiter.after = wakeup.version)
    (hid : waiter.id = wakeup.promises) : Kept { wakeup with
      waiting := wakeup.waiting ++ [waiter]
      promises := wakeup.promises + 1 } where
  current other hother := by
    rcases List.mem_append.1 hother with hbefore | hnew
    · exact h.current other hbefore
    · obtain rfl := List.mem_singleton.1 hnew
      exact hwaiter
  fits := h.fits
  once := by
    simp only [List.map_append, List.map_cons, List.map_nil, List.range_succ, hid,
      List.append_assoc]
    refine (List.Perm.append_left _ List.perm_append_comm).trans ?_
    rw [← List.append_assoc]
    exact h.once.append_right _

theorem wait_aborted (h : wakeup.isAborted signal = true) :
    wakeup.wait after signal = (.error "aborted", wakeup) := by
  simp [wait, h]

theorem Kept.wait (h : Kept wakeup) (hafter : after ≤ wakeup.version) :
    Kept (wakeup.wait after signal).2 := by
  cases hopen : wakeup.isAborted signal with
  | true =>
      rw [wait_aborted hopen]
      exact h
  | false =>
      rcases wait_cases hafter hopen with ⟨hold, heq⟩ | ⟨-, -, heq⟩ | ⟨hcurrent, -, heq⟩
      · exact heq ▸ h.settleNew hold
      · exact heq ▸ h
      · exact heq ▸ h.registered hcurrent rfl

theorem Settled.Fits.abort {aborted : List Nat} {settled : Settled} (h : settled.Fits aborted)
    (signal : Nat) : settled.Fits (aborted ++ [signal]) where
  cursor := h.cursor
  resolved := h.resolved
  rejected hhow := by
    have hbefore := h.rejected hhow
    cases hsignal : settled.waiter.signal with
    | none => simp [hsignal] at hbefore
    | some own =>
        simp only [hsignal, Option.any_some, List.contains_iff_mem] at hbefore ⊢
        exact List.mem_append_left _ hbefore

theorem Kept.step (h : Kept wakeup) (hstep : Step wakeup event wakeup') : Kept wakeup' := by
  cases hstep with
  | notify => exact h.notify
  | wait signal hafter => exact h.wait hafter
  | timeout hwaiter =>
      refine h.settle hwaiter ⟨Nat.le_of_eq (h.current _ hwaiter), ?_, nofun⟩
      simp [h.current _ hwaiter]
  | abort signal => exact ⟨h.current, fun settled hsettled => (h.fits settled hsettled).abort signal, h.once⟩
  | cancel hwaiter haborted =>
      refine h.settle hwaiter ⟨Nat.le_of_eq (h.current _ hwaiter), ?_, fun _ => haborted⟩
      simp [h.current _ hwaiter]

theorem kept (h : transitions.Reachable wakeup) : Kept wakeup := by
  refine h.invariant ?_ fun hkept hstep => hkept.step hstep
  rintro _ rfl
  exact ⟨nofun, nofun, .refl _⟩

/-- Of the waiters there are, only the one that settles leaves. -/
theorem Kept.leaves (h : Kept wakeup) {other : Waiter} (hother : other ∈ wakeup.waiting)
    (hwaiter : waiter ∈ wakeup.waiting) :
    (waiter = other ∧ waiter ∉ (wakeup.settle other how).waiting
      ∧ ⟨waiter, how, wakeup.version⟩ ∈ (wakeup.settle other how).settled)
    ∨ waiter ∈ (wakeup.settle other how).waiting := by
  by_cases hid : waiter.id = other.id
  case pos =>
    obtain rfl := h.eq_of_id hother hwaiter hid
    refine .inl ⟨rfl, fun hmem => (mem_settle.1 hmem).2 rfl, ?_⟩
    exact List.mem_append_right _ (List.mem_singleton.2 rfl)
  case neg => exact .inr (mem_settle.2 ⟨hwaiter, hid⟩)

/-- A waiter leaves by a notification, by its own timer or by its own abort. -/
theorem Kept.later (h : Kept wakeup) (hstep : Step wakeup event wakeup')
    (hwaiter : waiter ∈ wakeup.waiting) : Later waiter wakeup' event := by
  cases hstep with
  | notify =>
      rw [notify_eq]
      exact .notified nofun (List.mem_append_right _ (List.mem_map_of_mem hwaiter))
  | @wait after signal hafter =>
      refine .pending nofun ?_
      cases hopen : wakeup.isAborted signal with
      | true =>
          rw [wait_aborted hopen]
          exact hwaiter
      | false =>
          rcases wait_cases hafter hopen with ⟨-, heq⟩ | ⟨-, -, heq⟩ | ⟨-, -, heq⟩
          · exact heq ▸ hwaiter
          · exact heq ▸ hwaiter
          · exact heq ▸ List.mem_append_left _ hwaiter
  | timeout hother =>
      rcases h.leaves hother hwaiter with ⟨rfl, hleft, hsettled⟩ | hkept
      · exact .timedOut hleft hsettled
      · exact .pending nofun hkept
  | abort signal => exact .pending nofun hwaiter
  | cancel hother haborted =>
      rcases h.leaves hother hwaiter with ⟨rfl, hleft, hsettled⟩ | hkept
      · exact .cancelled hleft hsettled
      · exact .pending nofun hkept

/-- A call with an older cursor settles at once. -/
theorem wait_older (hold : after < wakeup.version) (hopen : wakeup.isAborted signal = false) :
    (wakeup.wait after signal).1 = .ok ⟨wakeup.promises, after, signal⟩
    ∧ ⟨⟨wakeup.promises, after, signal⟩, .resolved, wakeup.version⟩
      ∈ (wakeup.wait after signal).2.settled := by
  rcases wait_cases (Nat.le_of_lt hold) hopen with ⟨-, heq⟩ | ⟨rfl, -⟩ | ⟨rfl, -⟩
  · rw [heq]
    exact ⟨rfl, List.mem_append_right _ (List.mem_singleton.2 rfl)⟩
  · exact absurd hold (Nat.lt_irrefl _)
  · exact absurd hold (Nat.lt_irrefl _)

/-- A call with the current cursor is registered, where there is room. -/
theorem wait_current (hroom : wakeup.waiting.length < maxWaiting)
    (hopen : wakeup.isAborted signal = false) :
    (wakeup.wait wakeup.version signal).1 = .ok ⟨wakeup.promises, wakeup.version, signal⟩
    ∧ ⟨wakeup.promises, wakeup.version, signal⟩
      ∈ (wakeup.wait wakeup.version signal).2.waiting := by
  rcases wait_cases Nat.le.refl hopen with ⟨hold, -⟩ | ⟨-, hfull, -⟩ | ⟨-, -, heq⟩
  · exact absurd hold (Nat.lt_irrefl _)
  · exact absurd hroom (Nat.not_lt.2 hfull)
  · rw [heq]
    exact ⟨rfl, List.mem_append_right _ (List.mem_singleton.2 rfl)⟩

/-! ## No notification is lost -/

/-- In every interleaving a promise whose cursor grows old is resolved by that and not by its
    timer, one whose cursor is current stays until the next notification, its timer or its
    abort, and no promise that has settled is still registered. -/
theorem no_lost_wakeup (h : transitions.Reachable wakeup) :
    Kept wakeup
    ∧ (∀ settled ∈ wakeup.settled, settled.waiter ∉ wakeup.waiting)
    ∧ (∀ {event wakeup'}, Step wakeup event wakeup' →
      ∀ waiter ∈ wakeup.waiting, Later waiter wakeup' event)
    ∧ (∀ after signal, after < wakeup.version → wakeup.isAborted signal = false →
      (wakeup.wait after signal).1 = .ok ⟨wakeup.promises, after, signal⟩
      ∧ ⟨⟨wakeup.promises, after, signal⟩, .resolved, wakeup.version⟩
        ∈ (wakeup.wait after signal).2.settled)
    ∧ (∀ signal, wakeup.waiting.length < maxWaiting → wakeup.isAborted signal = false →
      (wakeup.wait wakeup.version signal).1 = .ok ⟨wakeup.promises, wakeup.version, signal⟩
      ∧ ⟨wakeup.promises, wakeup.version, signal⟩
        ∈ (wakeup.wait wakeup.version signal).2.waiting) := by
  have hkept := kept h
  refine ⟨hkept, ?_, ?_, ?_, ?_⟩
  · exact fun settled hsettled => hkept.unregistered hsettled
  · exact fun hstep waiter hwaiter => hkept.later hstep hwaiter
  · exact fun after signal hold hopen => wait_older hold hopen
  · exact fun signal hroom hopen => wait_current hroom hopen

end

/-- A waiter that registers, a notification, and one that comes with the old cursor. -/
theorem no_lost_wakeup_notified : Kept ((({} : Wakeup).wait 0 none).2.notify.wait 0 none).2 := by
  have hfirst : transitions.Reachable (({} : Wakeup).wait 0 none).2 :=
    (TransitionSystem.Reachable.of_start rfl).next (Step.wait none Nat.le.refl)
  exact (no_lost_wakeup ((hfirst.next .notify).next (Step.wait none (Nat.zero_le _)))).1

/-- As many waiters as are asked for, as long as there is room. -/
private theorem waiters_reachable (count : Nat) (h : count ≤ maxWaiting) :
    ∃ wakeup, transitions.Reachable wakeup ∧ wakeup.version = 0 ∧ wakeup.waiting.length = count := by
  induction count with
  | zero => exact ⟨{}, .of_start rfl, rfl, rfl⟩
  | succ count ih =>
      obtain ⟨wakeup, hreach, hversion, hcount⟩ := ih (Nat.le_of_succ_le h)
      rcases @wait_cases wakeup _ none (Nat.le_of_eq hversion.symm) rfl with
        ⟨hold, -⟩ | ⟨-, hfull, -⟩ | ⟨-, -, heq⟩
      · omega
      · omega
      · refine ⟨_, hreach.next (Step.wait none (Nat.le_of_eq hversion.symm)), ?_⟩
        rw [heq]
        exact ⟨hversion, by simp [hcount]⟩

/-- A call with the current cursor is refused while as many wait as may. -/
theorem crowded_wait_refused : ∃ wakeup, transitions.Reachable wakeup
    ∧ wakeup.wait wakeup.version none = (.error "too many wakeup subscribers", wakeup) := by
  obtain ⟨wakeup, hreach, -, hcount⟩ := waiters_reachable maxWaiting Nat.le.refl
  refine ⟨wakeup, hreach, ?_⟩
  rcases @wait_cases wakeup _ none Nat.le.refl rfl with
    ⟨hold, -⟩ | ⟨-, -, heq⟩ | ⟨-, hroom, -⟩
  · omega
  · exact heq
  · omega

end Wakeup

end LingxiOS
