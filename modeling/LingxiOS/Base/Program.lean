-- SUMMARY: Programs of awaited operations, their monitors, and pools of them.
import LingxiOS.Base.Transition
import Mathlib.Algebra.BigOperators.Group.List.Basic
import Mathlib.Algebra.GroupWithZero.Nat

/-! # Programs

An asynchronous function is a program: it awaits operations one after the other,
each answered with a value or an error, and ends with a value or an error. What
the operations mean is left to the system the program runs in. A monitor follows
a program's events; a program that obeys it may be relied on, whatever else runs
beside it. -/

universe u v w

variable {Op : Type u} {Ans : Op → Type u} {ε : Type u} {α β : Type u}

inductive Program (Op : Type u) (Ans : Op → Type u) (ε α : Type u) : Type u where
  | done (outcome : Except ε α)
  | await (op : Op) (next : Except ε (Ans op) → Program Op Ans ε α)

namespace Program

/-! ## Composition -/

def bind : Program Op Ans ε α → (α → Program Op Ans ε β) → Program Op Ans ε β
  | .done (.ok a), f => f a
  | .done (.error e), _ => .done (.error e)
  | .await op next, f => .await op (fun answer => (next answer).bind f)

/-- Run `handler` on the error the program ends with. -/
def tryCatch : Program Op Ans ε α → (ε → Program Op Ans ε α) → Program Op Ans ε α
  | .done (.ok a), _ => .done (.ok a)
  | .done (.error e), handler => handler e
  | .await op next, handler => .await op (fun answer => (next answer).tryCatch handler)

instance : Monad (Program Op Ans ε) where
  pure a := .done (.ok a)
  bind := bind

instance : MonadExcept ε (Program Op Ans ε) where
  throw e := .done (.error e)
  tryCatch := tryCatch

/-- Await one operation. -/
def perform (op : Op) : Program Op Ans ε (Ans op) := .await op .done

/-- The outcome of a computation that awaits nothing. -/
def ofExcept (outcome : Except ε α) : Program Op Ans ε α := .done outcome

/-- The program with its error, if it ends with one, as a value. -/
def attempt : Program Op Ans ε α → Program Op Ans ε (Except ε α)
  | .done outcome => .done (.ok outcome)
  | .await op next => .await op (fun answer => (next answer).attempt)

@[simp] theorem pure_eq (a : α) : (pure a : Program Op Ans ε α) = .done (.ok a) := rfl

@[simp] theorem throw_eq (e : ε) : (throw e : Program Op Ans ε α) = .done (.error e) := rfl

@[simp] theorem ok_bind (a : α) (f : α → Program Op Ans ε β) :
    (Program.done (.ok a) : Program Op Ans ε α) >>= f = f a := rfl

@[simp] theorem error_bind (e : ε) (f : α → Program Op Ans ε β) :
    (Program.done (.error e) : Program Op Ans ε α) >>= f = .done (.error e) := rfl

@[simp] theorem await_bind (op : Op) (next : Except ε (Ans op) → Program Op Ans ε α)
    (f : α → Program Op Ans ε β) :
    Program.await op next >>= f = .await op (fun answer => next answer >>= f) := rfl

theorem bind_assoc {γ : Type u} (p : Program Op Ans ε α) (f : α → Program Op Ans ε β)
    (g : β → Program Op Ans ε γ) : p >>= f >>= g = p >>= fun a => f a >>= g := by
  induction p with
  | done outcome => cases outcome <;> rfl
  | await op next ih =>
      simp only [await_bind]
      congr 1
      funext answer
      exact ih answer

/-! ## Monitors -/

/-- An operation together with its answer. -/
structure Event (Op : Type u) (Ans : Op → Type u) (ε : Type u) where
  op : Op
  answer : Except ε (Ans op)

/-- A monitor allows operations, trusts answers, and moves along the events. -/
structure Monitor (Op : Type u) (Ans : Op → Type u) (ε : Type u) (μ : Type w) where
  allows : μ → Op → Prop
  trusts : μ → Event Op Ans ε → Prop
  next : μ → Event Op Ans ε → μ

/-- The monitor's state after some events. -/
def Monitor.after {μ : Type w} (M : Monitor Op Ans ε μ) (m : μ) (events : List (Event Op Ans ε)) : μ :=
  events.foldl M.next m

@[simp] theorem Monitor.after_nil {μ : Type w} (M : Monitor Op Ans ε μ) (m : μ) :
    M.after m [] = m := rfl

@[simp] theorem Monitor.after_concat {μ : Type w} (M : Monitor Op Ans ε μ) (m : μ)
    (events : List (Event Op Ans ε)) (event : Event Op Ans ε) :
    M.after m (events ++ [event]) = M.next (M.after m events) event := by
  simp [Monitor.after]

/-- Every answer of the events is trusted, where it comes. -/
def Monitor.Trusts {μ : Type w} (M : Monitor Op Ans ε μ) : μ → List (Event Op Ans ε) → Prop
  | _, [] => True
  | m, event :: events => M.trusts m event ∧ M.Trusts (M.next m event) events

/-- As long as its answers are trusted, the program awaits only what the monitor
    allows, and ends as `post` says. -/
def Obeys {μ : Type w} (M : Monitor Op Ans ε μ) (post : μ → Except ε α → Prop) :
    μ → Program Op Ans ε α → Prop
  | m, .done outcome => post m outcome
  | m, .await op next => M.allows m op ∧
      ∀ answer, M.trusts m ⟨op, answer⟩ → Obeys M post (M.next m ⟨op, answer⟩) (next answer)

namespace Obeys

variable {μ : Type w} {M : Monitor Op Ans ε μ} {m : μ} {p : Program Op Ans ε α}
  {post : μ → Except ε α → Prop}

theorem mono {post' : μ → Except ε α → Prop} (h : p.Obeys M post m)
    (himp : ∀ {m outcome}, post m outcome → post' m outcome) : p.Obeys M post' m := by
  induction p generalizing m with
  | done outcome => exact himp h
  | await op next ih => exact ⟨h.1, fun answer htrust => ih answer (h.2 answer htrust)⟩

theorem and {post' : μ → Except ε α → Prop} (h : p.Obeys M post m) (h' : p.Obeys M post' m) :
    p.Obeys M (fun m outcome => post m outcome ∧ post' m outcome) m := by
  induction p generalizing m with
  | done outcome => exact ⟨h, h'⟩
  | await op next ih =>
      exact ⟨h.1, fun answer htrust => ih answer (h.2 answer htrust) (h'.2 answer htrust)⟩

theorem bind {f : α → Program Op Ans ε β} {post : μ → Except ε β → Prop}
    (h : p.Obeys M (fun m outcome => match outcome with
      | .ok a => (f a).Obeys M post m
      | .error e => post m (.error e)) m) :
    (p >>= f).Obeys M post m := by
  induction p generalizing m with
  | done outcome =>
      cases outcome with
      | ok a => exact h
      | error e => exact h
  | await op next ih => exact ⟨h.1, fun answer htrust => ih answer (h.2 answer htrust)⟩

theorem attempt {post : μ → Except ε (Except ε α) → Prop}
    (h : p.Obeys M (fun m outcome => post m (.ok outcome)) m) : p.attempt.Obeys M post m := by
  induction p generalizing m with
  | done outcome => exact h
  | await op next ih => exact ⟨h.1, fun answer htrust => ih answer (h.2 answer htrust)⟩

theorem tryCatch {handler : ε → Program Op Ans ε α}
    (h : p.Obeys M (fun m outcome => match outcome with
      | .ok a => post m (.ok a)
      | .error e => (handler e).Obeys M post m) m) :
    (p.tryCatch handler).Obeys M post m := by
  induction p generalizing m with
  | done outcome =>
      cases outcome with
      | ok a => exact h
      | error e => exact h
  | await op next ih => exact ⟨h.1, fun answer htrust => ih answer (h.2 answer htrust)⟩

theorem perform {op : Op} {post : μ → Except ε (Ans op) → Prop} (hallows : M.allows m op)
    (h : ∀ answer, M.trusts m ⟨op, answer⟩ → post (M.next m ⟨op, answer⟩) answer) :
    (Program.perform op).Obeys M post m :=
  ⟨hallows, h⟩

/-- One awaited operation, whose error ends the program. -/
theorem perform_bind {op : Op} {f : Ans op → Program Op Ans ε β} {post : μ → Except ε β → Prop}
    (hallows : M.allows m op)
    (herror : ∀ e, M.trusts m ⟨op, .error e⟩ → post (M.next m ⟨op, .error e⟩) (.error e))
    (hok : ∀ a, M.trusts m ⟨op, .ok a⟩ → (f a).Obeys M post (M.next m ⟨op, .ok a⟩)) :
    (Program.perform op >>= f).Obeys M post m := by
  apply Obeys.bind
  apply Obeys.perform hallows
  intro answer htrust
  cases answer with
  | ok a => exact hok a htrust
  | error e => exact herror e htrust

/-- One awaited operation, whose answer is known. -/
theorem told {op : Op} {a : Ans op} {f : Ans op → Program Op Ans ε β}
    {post : μ → Except ε β → Prop} (hallows : M.allows m op)
    (htold : ∀ answer, M.trusts m ⟨op, answer⟩ → answer = .ok a)
    (h : (f a).Obeys M post (M.next m ⟨op, .ok a⟩)) :
    (Program.perform op >>= f).Obeys M post m := by
  refine ⟨hallows, fun answer htrust => ?_⟩
  obtain rfl := htold answer htrust
  exact h

/-- One awaited operation, whose error the program goes on with. -/
theorem attempt_bind {op : Op} {f : Except ε (Ans op) → Program Op Ans ε β}
    {post : μ → Except ε β → Prop} (hallows : M.allows m op)
    (h : ∀ answer, M.trusts m ⟨op, answer⟩ → (f answer).Obeys M post (M.next m ⟨op, answer⟩)) :
    ((Program.perform op).attempt >>= f).Obeys M post m :=
  Obeys.bind (Obeys.attempt (Obeys.perform hallows h))

end Obeys

end Program

/-! ## Runs -/

namespace Program

/-- The program ends with an outcome after exactly these events. -/
inductive Runs : Program Op Ans ε α → List (Event Op Ans ε) → Except ε α → Prop
  | done (outcome : Except ε α) : Runs (.done outcome) [] outcome
  | await {op : Op} {next : Except ε (Ans op) → Program Op Ans ε α} {answer : Except ε (Ans op)}
      {events : List (Event Op Ans ε)} {outcome : Except ε α}
      (h : Runs (next answer) events outcome) :
      Runs (.await op next) (⟨op, answer⟩ :: events) outcome

theorem runs_done_iff {result outcome : Except ε α} {events : List (Event Op Ans ε)} :
    Runs (.done result) events outcome ↔ events = [] ∧ outcome = result := by
  constructor
  · intro h
    cases h
    exact ⟨rfl, rfl⟩
  · rintro ⟨rfl, rfl⟩
    exact .done _

theorem runs_await_iff {op : Op} {next : Except ε (Ans op) → Program Op Ans ε α}
    {events : List (Event Op Ans ε)} {outcome : Except ε α} :
    Runs (.await op next) events outcome ↔
      ∃ answer rest, events = ⟨op, answer⟩ :: rest ∧ Runs (next answer) rest outcome := by
  constructor
  · intro h
    cases h with
    | await h => exact ⟨_, _, rfl, h⟩
  · rintro ⟨answer, rest, rfl, h⟩
    exact .await h

/-- A run of a sequence is a run of its first part, and of the second where the
    first one succeeds. -/
theorem runs_bind_iff {p : Program Op Ans ε α} {f : α → Program Op Ans ε β}
    {events : List (Event Op Ans ε)} {outcome : Except ε β} :
    Runs (p >>= f) events outcome ↔
      (∃ e, Runs p events (.error e) ∧ outcome = .error e) ∨
        ∃ a first rest, events = first ++ rest ∧ Runs p first (.ok a) ∧ Runs (f a) rest outcome := by
  induction p generalizing events with
  | done result =>
      cases result with
      | ok a => simp [runs_done_iff]
      | error e => simp [runs_done_iff]
  | await op next ih =>
      rw [await_bind, runs_await_iff]
      constructor
      · rintro ⟨answer, rest, rfl, h⟩
        rcases (ih answer).1 h with ⟨e, hfirst, rfl⟩ | ⟨a, first, rest', rfl, hfirst, hrest⟩
        · exact .inl ⟨e, .await hfirst, rfl⟩
        · exact .inr ⟨a, _ :: first, rest', rfl, .await hfirst, hrest⟩
      · rintro (⟨e, hfirst, rfl⟩ | ⟨a, first, rest, rfl, hfirst, hrest⟩)
        · obtain ⟨answer, rest, rfl, h⟩ := runs_await_iff.1 hfirst
          exact ⟨answer, rest, rfl, (ih answer).2 (.inl ⟨e, h, rfl⟩)⟩
        · obtain ⟨answer, first', rfl, h⟩ := runs_await_iff.1 hfirst
          exact ⟨answer, _, rfl, (ih answer).2 (.inr ⟨a, first', rest, rfl, h, hrest⟩)⟩

theorem runs_perform_bind_iff {op : Op} {f : Ans op → Program Op Ans ε β}
    {events : List (Event Op Ans ε)} {outcome : Except ε β} :
    Runs (perform op >>= f) events outcome ↔
      (∃ e, events = [⟨op, .error e⟩] ∧ outcome = .error e) ∨
        ∃ a rest, events = ⟨op, .ok a⟩ :: rest ∧ Runs (f a) rest outcome := by
  rw [perform, await_bind, runs_await_iff]
  constructor
  · rintro ⟨answer, rest, rfl, h⟩
    cases answer with
    | error e =>
        obtain ⟨rfl, rfl⟩ := runs_done_iff.1 h
        exact .inl ⟨e, rfl, rfl⟩
    | ok a => exact .inr ⟨a, rest, rfl, h⟩
  · rintro (⟨e, rfl, rfl⟩ | ⟨a, rest, rfl, h⟩)
    · exact ⟨.error e, [], rfl, .done _⟩
    · exact ⟨.ok a, rest, rfl, h⟩

theorem runs_attempt_bind_iff {op : Op} {f : Except ε (Ans op) → Program Op Ans ε β}
    {events : List (Event Op Ans ε)} {outcome : Except ε β} :
    Runs ((perform op).attempt >>= f) events outcome ↔
      ∃ answer rest, events = ⟨op, answer⟩ :: rest ∧ Runs (f answer) rest outcome :=
  runs_await_iff

/-- Run a program against fixed answers. -/
def exec (handler : (op : Op) → Except ε (Ans op)) :
    Program Op Ans ε α → List (Event Op Ans ε) × Except ε α
  | .done outcome => ([], outcome)
  | .await op next =>
      (⟨op, handler op⟩ :: ((next (handler op)).exec handler).1,
        ((next (handler op)).exec handler).2)

theorem runs_exec (handler : (op : Op) → Except ε (Ans op)) (p : Program Op Ans ε α) :
    p.Runs (p.exec handler).1 (p.exec handler).2 := by
  induction p with
  | done outcome => exact .done outcome
  | await op next ih => exact .await (ih _)

theorem exec_forall {handler : (op : Op) → Except ε (Ans op)} {P : Event Op Ans ε → Prop}
    (h : ∀ op, P ⟨op, handler op⟩) (p : Program Op Ans ε α) : ∀ e ∈ (p.exec handler).1, P e := by
  induction p with
  | done outcome => exact fun e he => absurd he List.not_mem_nil
  | await op next ih =>
      intro e he
      rcases List.mem_cons.1 he with rfl | he
      · exact h op
      · exact ih _ e he

/-- Run a program against answers that depend on what the monitor has seen. -/
def Monitor.exec {μ : Type w} (M : Monitor Op Ans ε μ) (handler : μ → (op : Op) → Except ε (Ans op)) :
    μ → Program Op Ans ε α → List (Event Op Ans ε) × Except ε α
  | _, .done outcome => ([], outcome)
  | m, .await op next =>
      (⟨op, handler m op⟩ :: (M.exec handler (M.next m ⟨op, handler m op⟩) (next (handler m op))).1,
        (M.exec handler (M.next m ⟨op, handler m op⟩) (next (handler m op))).2)

theorem Monitor.runs_exec {μ : Type w} (M : Monitor Op Ans ε μ)
    (handler : μ → (op : Op) → Except ε (Ans op)) (m : μ) (p : Program Op Ans ε α) :
    p.Runs (M.exec handler m p).1 (M.exec handler m p).2 := by
  induction p generalizing m with
  | done outcome => exact .done outcome
  | await op next ih => exact .await (ih _ _)

theorem Monitor.trusts_exec {μ : Type w} {M : Monitor Op Ans ε μ}
    {handler : μ → (op : Op) → Except ε (Ans op)} (h : ∀ m op, M.trusts m ⟨op, handler m op⟩) (m : μ)
    (p : Program Op Ans ε α) : M.Trusts m (M.exec handler m p).1 := by
  induction p generalizing m with
  | done outcome => trivial
  | await op next ih => exact ⟨h m op, ih _ _⟩

end Program

/-! ## Interpretation -/

namespace Program

section Interpret

variable {Op' : Type u} {Ans' : Op' → Type u}

/-- Answer every operation of a program with a program of its own. -/
def interpret (impl : (op : Op) → Program Op' Ans' ε (Ans op)) :
    Program Op Ans ε α → Program Op' Ans' ε α
  | .done outcome => .done outcome
  | .await op next => (impl op).attempt >>= fun answer => (next answer).interpret impl

section Rules

variable {μ : Type w} {M : Monitor Op' Ans' ε μ} {m : μ}
  {impl : (op : Op) → Program Op' Ans' ε (Ans op)}

theorem interpret_bind (p : Program Op Ans ε α) (f : α → Program Op Ans ε β) :
    (p >>= f).interpret impl = p.interpret impl >>= fun a => (f a).interpret impl := by
  induction p with
  | done outcome => cases outcome <;> rfl
  | await op next ih =>
      simp only [await_bind, interpret, bind_assoc]
      congr 1
      funext answer
      exact ih answer

/-- The interpretation of a sequence: its first part, then the rest. -/
theorem Obeys.interpret_bind {p : Program Op Ans ε α} {f : α → Program Op Ans ε β}
    {post : μ → Except ε β → Prop}
    (h : (p.interpret impl).Obeys M (fun m outcome => match outcome with
      | .ok a => ((f a).interpret impl).Obeys M post m
      | .error e => post m (.error e)) m) :
    ((p >>= f).interpret impl).Obeys M post m := by
  rw [Program.interpret_bind]
  exact Obeys.bind h

/-- An operation that stands for a program, whose error the program goes on with. -/
theorem Obeys.interpret_attempt {op : Op} {f : Except ε (Ans op) → Program Op Ans ε β}
    {post : μ → Except ε β → Prop}
    (h : (impl op).Obeys M (fun m answer => ((f answer).interpret impl).Obeys M post m) m) :
    (((Program.perform op).attempt >>= f).interpret impl).Obeys M post m :=
  Obeys.bind (Obeys.attempt h)

end Rules

/-- An interpretation obeys a monitor if the program obeys one of its own, and the
    programs of the operations keep the two states related. -/
theorem Obeys.interpret {ν : Type v} {μ : Type w} {N : Monitor Op Ans ε ν} {M : Monitor Op' Ans' ε μ}
    {I : ν → μ → Prop} {impl : (op : Op) → Program Op' Ans' ε (Ans op)}
    (himpl : ∀ {n op m}, N.allows n op → I n m → (impl op).Obeys M (fun m' answer =>
      N.trusts n ⟨op, answer⟩ ∧ I (N.next n ⟨op, answer⟩) m') m)
    {p : Program Op Ans ε α} {post : ν → Except ε α → Prop} {n : ν} {m : μ}
    (h : p.Obeys N post n) (hI : I n m) :
    (p.interpret impl).Obeys M (fun m' outcome => ∃ n', I n' m' ∧ post n' outcome) m := by
  induction p generalizing n m with
  | done outcome => exact ⟨n, hI, h⟩
  | await op next ih =>
      apply Obeys.bind
      apply Obeys.attempt
      apply Obeys.mono (himpl h.1 hI)
      rintro m' answer ⟨htrust, hI'⟩
      exact ih answer (h.2 answer htrust) hI'

end Interpret

/-- A run whose answers are all trusted ends as the program obeys. -/
theorem Obeys.runs {μ : Type w} {M : Monitor Op Ans ε μ} {m : μ} {p : Program Op Ans ε α}
    {post : μ → Except ε α → Prop} {events : List (Event Op Ans ε)} {outcome : Except ε α}
    (h : p.Obeys M post m) (hrun : p.Runs events outcome) (htrust : M.Trusts m events) :
    post (M.after m events) outcome := by
  induction hrun generalizing m with
  | done outcome => exact h
  | await hrest ih => exact ih (h.2 _ htrust.1) htrust.2

/-- Where every answer is trusted, what a run awaits is allowed after the events before it. -/
theorem Obeys.allows_at {μ : Type w} {M : Monitor Op Ans ε μ} {m : μ} {p : Program Op Ans ε α}
    {post : μ → Except ε α → Prop} {before after : List (Event Op Ans ε)} {event : Event Op Ans ε}
    {outcome : Except ε α} (h : p.Obeys M post m) (htrusts : ∀ m event, M.trusts m event)
    (hrun : p.Runs (before ++ event :: after) outcome) : M.allows (M.after m before) event.op := by
  induction before generalizing m p with
  | nil =>
      cases hrun with
      | await => exact h.1
  | cons first before ih =>
      cases hrun with
      | await hrest => exact ih (h.2 _ (htrusts m _)) hrest

end Program

/-! ## Pools -/

/-- A call under way: what it has awaited, and what is left of it. -/
structure Call (Op : Type u) (Ans : Op → Type u) (ε α : Type u) where
  trace : List (Program.Event Op Ans ε)
  rest : Program Op Ans ε α

/-- What is left of the call obeys the monitor, from where its events have brought it. -/
def Call.Obeys {μ : Type w} (M : Program.Monitor Op Ans ε μ) (post : μ → Except ε α → Prop) (m : μ)
    (call : Call Op Ans ε α) : Prop :=
  call.rest.Obeys M post (M.after m call.trace)

theorem Call.Obeys.step {μ : Type w} {M : Program.Monitor Op Ans ε μ}
    {post : μ → Except ε α → Prop} {m : μ} {trace : List (Program.Event Op Ans ε)}
    {event : Program.Event Op Ans ε} {next : Except ε (Ans event.op) → Program Op Ans ε α}
    (h : Call.Obeys M post m ⟨trace, .await event.op next⟩)
    (htrust : M.trusts (M.after m trace) event) :
    Call.Obeys M post m ⟨trace ++ [event], next event.answer⟩ := by
  have hnext := h.2 event.answer htrust
  rw [← Program.Monitor.after_concat] at hnext
  exact hnext

/-- Calls over one shared state, in the order they began. A call that crashed is
    one that never steps again. -/
structure Pool (σ : Type v) (Op : Type u) (Ans : Op → Type u) (ε α : Type u) where
  shared : σ
  calls : List (Call Op Ans ε α)

inductive PoolStep (Op : Type u) (Ans : Op → Type u) (ε α : Type u) where
  | begin (entry : Program Op Ans ε α)
  | step (index : Nat) (event : Program.Event Op Ans ε)
  | other

/-- What operations do to the shared state, what else changes it, which calls
    begin, and from where. -/
structure PoolSpec (σ : Type v) (Op : Type u) (Ans : Op → Type u) (ε α : Type u) where
  world : σ → Program.Event Op Ans ε → σ → Prop
  env : σ → σ → Prop
  entry : Program Op Ans ε α → Prop
  start : σ → Prop

namespace PoolSpec

variable {σ : Type v}

/-- The calls of a pool, interleaved at the operations they await. -/
def system (spec : PoolSpec σ Op Ans ε α) :
    TransitionSystem (Pool σ Op Ans ε α) (PoolStep Op Ans ε α) where
  start s := s.calls = [] ∧ spec.start s.shared
  step s label s' := match label with
    | .begin entry => spec.entry entry ∧ s' = { s with calls := s.calls ++ [⟨[], entry⟩] }
    | .step index event => ∃ trace next, s.calls[index]? = some ⟨trace, .await event.op next⟩
        ∧ spec.world s.shared event s'.shared
        ∧ s'.calls = s.calls.set index ⟨trace ++ [event], next event.answer⟩
    | .other => spec.env s.shared s'.shared ∧ s'.calls = s.calls

end PoolSpec

/-- A property of every call of a pool, which may depend on when it began. -/
def Pool.Each {σ : Type v} (s : Pool σ Op Ans ε α) (Q : Nat → Call Op Ans ε α → Prop) : Prop :=
  ∀ index call, s.calls[index]? = some call → Q index call

/-- A quantity, summed over the calls of a pool. -/
def Pool.total {σ : Type v} (s : Pool σ Op Ans ε α) (f : Call Op Ans ε α → Nat) : Nat :=
  (s.calls.map f).sum

section Total

variable {σ : Type v} {s s' : Pool σ Op Ans ε α} {f : Call Op Ans ε α → Nat}

theorem Pool.total_begin {call : Call Op Ans ε α} (h : s'.calls = s.calls ++ [call]) :
    s'.total f = s.total f + f call := by
  simp [Pool.total, h]

theorem Pool.total_le {g : Call Op Ans ε α → Nat} (h : s.Each fun _ call => f call ≤ g call) :
    s.total f ≤ s.total g := by
  have hcalls : ∀ call ∈ s.calls, f call ≤ g call := by
    intro call hcall
    obtain ⟨index, hget⟩ := List.mem_iff_getElem?.1 hcall
    exact h index call hget
  unfold Pool.total
  generalize s.calls = calls at hcalls
  induction calls with
  | nil => exact Nat.le_refl _
  | cons call calls ih =>
      obtain ⟨hfirst, hrest⟩ := List.forall_mem_cons.1 hcalls
      simpa using Nat.add_le_add hfirst (ih hrest)

/-- The call that steps takes its old share out of the sum and puts its new one in. -/
theorem Pool.total_set {index : Nat} {before after : Call Op Ans ε α}
    (hget : s.calls[index]? = some before) (h : s'.calls = s.calls.set index after) :
    s'.total f + f before = s.total f + f after := by
  obtain ⟨hlt, hbefore⟩ := List.getElem?_eq_some_iff.1 hget
  have hsum : (s.calls.map f).sum = ((s.calls.map f).take index).sum + f before
      + ((s.calls.map f).drop (index + 1)).sum := by
    conv_lhs => rw [← List.take_append_drop index (s.calls.map f)]
    rw [List.drop_eq_getElem_cons (by simpa using hlt)]
    simp [hbefore, Nat.add_assoc]
  rw [Pool.total, Pool.total, h, List.map_set, List.sum_set, hsum]
  simp only [List.length_map, hlt, if_true]
  omega

end Total

section Each

variable {σ : Type v} {spec : PoolSpec σ Op Ans ε α} {s s' : Pool σ Op Ans ε α}
  {label : PoolStep Op Ans ε α} {Q : Nat → Call Op Ans ε α → Prop}

/-- A step preserves a property of every call when the entries have it and the
    stepping call keeps it. -/
theorem Pool.Each.step (hall : s.Each Q) (hstep : spec.system.step s label s')
    (hbegin : ∀ {entry}, spec.entry entry → Q s.calls.length ⟨[], entry⟩)
    (hcall : ∀ {index event trace next}, label = .step index event →
      Q index ⟨trace, .await event.op next⟩ → spec.world s.shared event s'.shared →
      Q index ⟨trace ++ [event], next event.answer⟩) : s'.Each Q := by
  intro index call hget
  cases label with
  | begin entry =>
      obtain ⟨hentry, rfl⟩ := hstep
      rw [List.getElem?_append] at hget
      split at hget
      · exact hall index call hget
      · rename_i hlength
        obtain ⟨hindex, rfl⟩ : index = s.calls.length ∧ call = ⟨[], entry⟩ := by
          rw [List.getElem?_singleton] at hget
          split at hget
          · rename_i hzero
            exact ⟨by omega, (Option.some.inj hget).symm⟩
          · cases hget
        rw [hindex]
        exact hbegin hentry
  | step stepped event =>
      obtain ⟨trace, next, hbefore, hworld, hcalls⟩ := hstep
      rw [hcalls, List.getElem?_set] at hget
      split at hget
      · rename_i hsame
        subst hsame
        split at hget
        · cases hget
          exact hcall rfl (hall _ _ hbefore) hworld
        · cases hget
      · exact hall index call hget
  | other =>
      rw [hstep.2] at hget
      exact hall index call hget

end Each

/-! ## Where an event happened -/

section Happened

variable {σ : Type v} {spec : PoolSpec σ Op Ans ε α} {s₀ s s' : Pool σ Op Ans ε α}
  {labels : List (PoolStep Op Ans ε α)} {index : Nat} {event : Program.Event Op Ans ε}

/-- The step a call made with an event, and the runs before and after it. -/
structure PoolSpec.Happened (spec : PoolSpec σ Op Ans ε α) (s₀ : Pool σ Op Ans ε α)
    (labels : List (PoolStep Op Ans ε α)) (s : Pool σ Op Ans ε α) (index : Nat)
    (event : Program.Event Op Ans ε) (before after : List (PoolStep Op Ans ε α))
    (t u : Pool σ Op Ans ε α) : Prop where
  labels_eq : labels = before ++ .step index event :: after
  earlier : spec.system.Run s₀ before t
  step : spec.system.step t (.step index event) u
  later : spec.system.Run u after s

theorem PoolSpec.Happened.snoc {before after : List (PoolStep Op Ans ε α)}
    {t u : Pool σ Op Ans ε α} {label : PoolStep Op Ans ε α}
    (h : spec.Happened s₀ labels s index event before after t u)
    (hstep : spec.system.step s label s') :
    spec.Happened s₀ (labels ++ [label]) s' index event before (after ++ [label]) t u :=
  ⟨by simp [h.labels_eq], h.earlier, h.step, h.later.snoc hstep⟩

/-- Every event in the trace of a call happened in the run. -/
theorem Pool.happened (hstart : s₀.calls = []) (hrun : spec.system.Run s₀ labels s)
    {call : Call Op Ans ε α} (hget : s.calls[index]? = some call) (hmem : event ∈ call.trace) :
    ∃ before after t u, spec.Happened s₀ labels s index event before after t u := by
  suffices hall : spec.system.Run s₀ labels s ∧ s.Each (fun index call => ∀ event ∈ call.trace,
      ∃ before after t u, spec.Happened s₀ labels s index event before after t u) from
    hall.2 index call hget event hmem
  apply hrun.traces (I := fun labels s => spec.system.Run s₀ labels s
    ∧ s.Each (fun index call => ∀ event ∈ call.trace,
      ∃ before after t u, spec.Happened s₀ labels s index event before after t u))
  · rintro labels s label s' ⟨hrun, hall⟩ hstep
    have hkept : s.Each (fun index call => ∀ event ∈ call.trace, ∃ before after t u,
        spec.Happened s₀ (labels ++ [label]) s' index event before after t u) := by
      intro index call hget event hmem
      obtain ⟨before, after, t, u, h⟩ := hall index call hget event hmem
      exact ⟨before, after ++ [label], t, u, h.snoc hstep⟩
    refine ⟨hrun.snoc hstep, hkept.step hstep ?_ ?_⟩
    · intro entry _ event hmem
      cases hmem
    · rintro index event trace next rfl hcall - other hmem
      rcases List.mem_append.1 hmem with hmem | hmem
      · exact hcall other hmem
      · rw [List.mem_singleton.1 hmem]
        exact ⟨labels, [], s, s', rfl, hrun, hstep, .refl _⟩
  · refine ⟨.refl _, ?_⟩
    intro index call hget
    rw [hstart] at hget
    cases hget

end Happened

/-! ## Counting and drawing -/

section Counted

variable {σ : Type v} {spec : PoolSpec σ Op Ans ε α} {s₀ s : Pool σ Op Ans ε α}
  {labels : List (PoolStep Op Ans ε α)}

/-- Whether a step is one of a call's, with an event of a kind. -/
def PoolStep.isEvent (p : Program.Event Op Ans ε → Bool) : PoolStep Op Ans ε α → Bool
  | .step _ event => p event
  | _ => false

/-- Every event of a run stands in the trace of one call. -/
theorem Pool.countP_labels (p : Program.Event Op Ans ε → Bool) (hstart : s₀.calls = [])
    (hrun : spec.system.Run s₀ labels s) :
    labels.countP (PoolStep.isEvent p) = s.total fun call => call.trace.countP p := by
  apply hrun.traces (I := fun labels s =>
    labels.countP (PoolStep.isEvent p) = s.total fun call => call.trace.countP p)
  · intro labels s label s' hcount hstep
    cases label with
    | begin entry =>
        obtain ⟨-, rfl⟩ := hstep
        simp [PoolStep.isEvent, hcount, Pool.total]
    | step index event =>
        obtain ⟨trace, next, hget, -, hcalls⟩ := hstep
        have hset := Pool.total_set (f := fun call => call.trace.countP p) hget hcalls
        have hlabel : PoolStep.isEvent p (.step index event : PoolStep Op Ans ε α) = p event := rfl
        simp only [List.countP_append, List.countP_singleton] at hset
        rw [List.countP_append, List.countP_singleton, hlabel, hcount]
        omega
    | other =>
        obtain ⟨-, hcalls⟩ := hstep
        simp [PoolStep.isEvent, hcount, Pool.total, hcalls]
  · simp [Pool.total, hstart]

/-- What the events of a call drew from a stock. -/
def Call.drawn {κ : Type*} (draws : Program.Event Op Ans ε → Option κ) (call : Call Op Ans ε α) :
    List κ :=
  call.trace.filterMap draws

/-- Where only what is new is drawn, no two calls have drawn the same. -/
theorem Pool.drawn_apart {κ : Type*} {draws : Program.Event Op Ans ε → Option κ}
    {U : σ → κ → Prop} (hstart : s₀.calls = [])
    (hworld : ∀ {shared event shared' k}, spec.world shared event shared' → U shared k →
      U shared' k)
    (henv : ∀ {shared shared' k}, spec.env shared shared' → U shared k → U shared' k)
    (hfresh : ∀ {shared event shared' k}, spec.world shared event shared' →
      draws event = some k → ¬U shared k ∧ U shared' k)
    (hrun : spec.system.Run s₀ labels s) :
    (s.Each fun _ call => ∀ k ∈ call.drawn draws, U s.shared k)
      ∧ s.Each fun i call => s.Each fun j other => i ≠ j → ∀ k ∈ call.drawn draws,
        k ∉ other.drawn draws := by
  apply hrun.preserves (I := fun s => (s.Each fun _ call => ∀ k ∈ call.drawn draws, U s.shared k)
    ∧ s.Each fun i call => s.Each fun j other => i ≠ j → ∀ k ∈ call.drawn draws,
      k ∉ other.drawn draws)
  · rintro s label s' ⟨hused, hapart⟩ hstep
    have hkept : ∀ k, U s.shared k → U s'.shared k := by
      intro k hk
      cases label with
      | begin entry =>
          obtain ⟨-, rfl⟩ := hstep
          exact hk
      | step index event =>
          obtain ⟨_, _, _, hworld', _⟩ := hstep
          exact hworld hworld' hk
      | other => exact henv hstep.1 hk
    have hused' : s'.Each fun _ call => ∀ k ∈ call.drawn draws, U s'.shared k := by
      refine Pool.Each.step (fun i call hget k hk => hkept k (hused i call hget k hk)) hstep ?_ ?_
      · intro entry _ k hk
        cases hk
      · rintro index event trace next rfl hbefore hworld' k hk
        simp only [Call.drawn, List.filterMap_append, List.mem_append] at hk hbefore
        rcases hk with hk | hk
        · exact hbefore k hk
        · obtain ⟨e, he, hdraws⟩ := List.mem_filterMap.1 hk
          obtain rfl := List.mem_singleton.1 he
          exact (hfresh hworld' hdraws).2
    refine ⟨hused', ?_⟩
    -- What one call has drawn was used before the step, so the stepping call draws none of it.
    have hold : ∀ {i call}, s.calls[i]? = some call → s'.Each fun j other => i ≠ j →
        ∀ k ∈ call.drawn draws, k ∉ other.drawn draws := by
      intro i call hget
      refine Pool.Each.step (hapart i call hget) hstep ?_ ?_
      · intro entry _ _ k _ hk
        cases hk
      · rintro j event trace next rfl hbefore hworld' hne k hk hother
        simp only [Call.drawn, List.filterMap_append, List.mem_append] at hother
        rcases hother with hother | hother
        · exact hbefore hne k hk hother
        · obtain ⟨e, he, hdraws⟩ := List.mem_filterMap.1 hother
          obtain rfl := List.mem_singleton.1 he
          exact (hfresh hworld' hdraws).1 (hused i call hget k hk)
    refine Pool.Each.step (fun i call hget => hold hget) hstep ?_ ?_
    · intro entry _ j other _ _ k hk
      cases hk
    · rintro i event trace next rfl hbefore hworld' j other hget hne k hk
      obtain ⟨_, _, _, _, hcalls⟩ := hstep
      have hother : s.calls[j]? = some other := by
        rw [hcalls, List.getElem?_set_ne hne] at hget
        exact hget
      simp only [Call.drawn, List.filterMap_append, List.mem_append] at hk
      rcases hk with hk | hk
      · exact hbefore j other hget hne k hk
      · obtain ⟨e, he, hdraws⟩ := List.mem_filterMap.1 hk
        obtain rfl := List.mem_singleton.1 he
        exact fun hmem => (hfresh hworld' hdraws).1 (hused j other hother k hmem)
  · constructor
    · intro i call hget
      rw [hstart] at hget
      cases hget
    · intro i call hget
      rw [hstart] at hget
      cases hget

end Counted

/-! ## Schedules -/

inductive Move (Op : Type u) (Ans : Op → Type u) (ε α : Type u) where
  | begin (entry : Program Op Ans ε α)
  | step (index : Nat)

/-- A handler answers an operation and changes the shared state. -/
abbrev Handler (σ : Type v) (Op : Type u) (Ans : Op → Type u) (ε : Type u) :=
  σ → (op : Op) → Except ε (Ans op) × σ

section Play

variable {σ : Type v}

/-- Make one move, if the call it is about is still awaiting something. -/
def Pool.move (handler : Handler σ Op Ans ε) (s : Pool σ Op Ans ε α) :
    Move Op Ans ε α → Option (PoolStep Op Ans ε α × Pool σ Op Ans ε α)
  | .begin entry => some (.begin entry, { s with calls := s.calls ++ [⟨[], entry⟩] })
  | .step index =>
      match s.calls[index]? with
      | some ⟨trace, .await op next⟩ =>
          some (.step index ⟨op, (handler s.shared op).1⟩,
            ⟨(handler s.shared op).2, s.calls.set index
              ⟨trace ++ [⟨op, (handler s.shared op).1⟩], next (handler s.shared op).1⟩⟩)
      | _ => none

/-- Make the moves of a schedule, as far as they can be made. -/
def Pool.play (handler : Handler σ Op Ans ε) (s : Pool σ Op Ans ε α) :
    List (Move Op Ans ε α) → List (PoolStep Op Ans ε α) × Pool σ Op Ans ε α
  | [] => ([], s)
  | m :: moves =>
      match s.move handler m with
      | none => s.play handler moves
      | some (label, s') => (label :: (s'.play handler moves).1, (s'.play handler moves).2)

variable {spec : PoolSpec σ Op Ans ε α} {handler : Handler σ Op Ans ε} {s s' : Pool σ Op Ans ε α}

theorem Pool.step_of_move {J : σ → Prop} {m : Move Op Ans ε α} {label : PoolStep Op Ans ε α}
    (hworld : ∀ shared op, J shared → J (handler shared op).2
      ∧ spec.world shared ⟨op, (handler shared op).1⟩ (handler shared op).2)
    (hentry : ∀ entry, m = .begin entry → spec.entry entry) (hJ : J s.shared)
    (h : s.move handler m = some (label, s')) : J s'.shared ∧ spec.system.step s label s' := by
  cases m with
  | begin entry =>
      cases h
      exact ⟨hJ, hentry entry rfl, rfl⟩
  | step index =>
      simp only [Pool.move] at h
      split at h
      · rename_i hget
        cases h
        obtain ⟨hJ', hstep⟩ := hworld _ _ hJ
        exact ⟨hJ', _, _, hget, hstep, rfl⟩
      · cases h

/-- A schedule played against a handler that keeps to the world, as long as the shared
    state is one it meets, is a run. -/
theorem Pool.run_of_play_of {J : σ → Prop} {moves : List (Move Op Ans ε α)}
    (hworld : ∀ shared op, J shared → J (handler shared op).2
      ∧ spec.world shared ⟨op, (handler shared op).1⟩ (handler shared op).2)
    (hentries : ∀ entry, Move.begin entry ∈ moves → spec.entry entry) (hJ : J s.shared) :
    J (s.play handler moves).2.shared
      ∧ spec.system.Run s (s.play handler moves).1 (s.play handler moves).2 := by
  induction moves generalizing s with
  | nil => exact ⟨hJ, .refl _⟩
  | cons m moves ih =>
      have hrest : ∀ entry, Move.begin entry ∈ moves → spec.entry entry := by
        intro entry hentry
        exact hentries entry (List.mem_cons_of_mem m hentry)
      unfold Pool.play
      split
      · exact ih hrest hJ
      · rename_i label s' hmove
        have hentry : ∀ entry, m = .begin entry → spec.entry entry := by
          intro entry hm
          subst hm
          exact hentries entry List.mem_cons_self
        obtain ⟨hJ', hstep⟩ := Pool.step_of_move hworld hentry hJ hmove
        obtain ⟨hJ_end, hrun⟩ := ih hrest hJ'
        exact ⟨hJ_end, TransitionSystem.Run.cons hstep hrun⟩

/-- A schedule played against a handler that keeps to the world is a run. -/
theorem Pool.run_of_play {moves : List (Move Op Ans ε α)}
    (hworld : ∀ shared op, spec.world shared ⟨op, (handler shared op).1⟩ (handler shared op).2)
    (hentries : ∀ entry, Move.begin entry ∈ moves → spec.entry entry) :
    spec.system.Run s (s.play handler moves).1 (s.play handler moves).2 :=
  (Pool.run_of_play_of (J := fun _ => True) (fun shared op _ => ⟨trivial, hworld shared op⟩) hentries
    trivial).2

/-- Where the moves of a schedule are made, and with which labels. -/
def Pool.visits (handler : Handler σ Op Ans ε) (s : Pool σ Op Ans ε α) :
    List (Move Op Ans ε α) → List (Pool σ Op Ans ε α × PoolStep Op Ans ε α)
  | [] => []
  | m :: moves =>
      match s.move handler m with
      | none => s.visits handler moves
      | some (label, s') => (s, label) :: s'.visits handler moves

/-- A schedule that only visits steps of a condition is a run of them. -/
theorem Pool.run_restrict_of_play {ok : Pool σ Op Ans ε α → PoolStep Op Ans ε α → Prop}
    {moves : List (Move Op Ans ε α)}
    (hworld : ∀ shared op, spec.world shared ⟨op, (handler shared op).1⟩ (handler shared op).2)
    (hentries : ∀ entry, Move.begin entry ∈ moves → spec.entry entry)
    (hok : ∀ visit ∈ s.visits handler moves, ok visit.1 visit.2) :
    (spec.system.restrict ok).Run s (s.play handler moves).1 (s.play handler moves).2 := by
  induction moves generalizing s with
  | nil => exact .refl _
  | cons m moves ih =>
      have hrest : ∀ entry, Move.begin entry ∈ moves → spec.entry entry := by
        intro entry hentry
        exact hentries entry (List.mem_cons_of_mem m hentry)
      unfold Pool.visits at hok
      unfold Pool.play
      cases hmove : s.move handler m with
      | none =>
          rw [hmove] at hok
          exact ih hrest hok
      | some made =>
          obtain ⟨label, s'⟩ := made
          rw [hmove] at hok
          have hentry : ∀ entry, m = .begin entry → spec.entry entry := by
            intro entry hm
            subst hm
            exact hentries entry List.mem_cons_self
          obtain ⟨-, hstep⟩ := Pool.step_of_move (J := fun _ => True)
            (fun shared op _ => ⟨trivial, hworld shared op⟩) hentry trivial hmove
          have hmade := ih hrest (fun visit hvisit => hok visit (List.mem_cons_of_mem _ hvisit))
          exact TransitionSystem.Run.cons ⟨hok _ List.mem_cons_self, hstep⟩ hmade

end Play
