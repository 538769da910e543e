-- SUMMARY: Transactions under a deadline, and their connections.
import LingxiOS.Base.Program

/-! # The Deadline Pool

`withTransaction` over a connection of `deadlinePool`. The deadline may pass while the
connection is being acquired, while a statement runs, or in between. -/

namespace LingxiOS.DeadlinePool

variable {ρ ε α : Type}

/-- A program that uses the client, one statement after the other. -/
abbrev Client (ρ ε α : Type) := Program String (fun _ => ρ) ε α

/-- `withTransaction`, once it has a client and until it releases it. -/
def withTransaction (body : Client ρ ε α) : Client ρ ε α :=
  (Program.perform "BEGIN" >>= fun _ => body >>= fun result =>
    Program.perform "COMMIT" >>= fun _ => pure result).tryCatch
      fun error => (Program.perform "ROLLBACK").attempt >>= fun _ => throw error

/-- What passes between the deadline pool and the connection of the pool below. -/
inductive Entry where
  | connected
  | sent (sql : String)
  | answered (ok : Bool)
  | released (error : Bool)

inductive Phase where
  | connecting
  /-- The caller has gone, and the connection has not come. -/
  | late
  | ready
  | waiting
  | gone

structure Session (ρ ε α : Type) where
  phase : Phase := .connecting
  aborted : Bool := false
  released : Bool := false
  log : List Entry := []
  program : Client ρ ε α

inductive Event (ρ ε : Type) where
  | connect
  | refuse
  | abort
  | query
  | answer (answer : Except ε ρ)
  /-- The statement throws what the bound was aborted with. -/
  | reject (error : ε)
  | finish

namespace Session

def release (s : Session ρ ε α) (error : Bool) : Session ρ ε α :=
  if s.released then s else { s with released := true, log := s.log ++ [.released error] }

def step (s : Session ρ ε α) : Event ρ ε → Option (Session ρ ε α)
  | .connect => match s.phase with
      | .connecting => some { s with phase := .ready, log := s.log ++ [Entry.connected] }
      | .late => some ({ s with phase := .gone, log := s.log ++ [Entry.connected] }.release true)
      | _ => none
  | .refuse => match s.phase with
      | .connecting | .late => some { s with phase := .gone }
      | _ => none
  | .abort => match s.phase with
      | .connecting => some { s with phase := .late, aborted := true }
      -- The listener is gone with the caller, or with the release.
      | .late | .gone => some { s with aborted := true }
      | .ready | .waiting => some ({ s with aborted := true }.release true)
  | .query => match s.phase, s.program with
      | .ready, .await sql _ =>
          if s.aborted || s.released then none
          else some { s with phase := .waiting, log := s.log ++ [.sent sql] }
      | _, _ => none
  | .answer answer => match s.phase, s.program with
      | .waiting, .await _ next =>
          if s.aborted then none
          else some { s with
            phase := .ready, log := s.log ++ [.answered answer.toBool], program := next answer }
      | _, _ => none
  | .reject error => match s.phase, s.program with
      | .ready, .await _ next | .waiting, .await _ next =>
          if s.aborted || s.released then
            some { s with phase := .ready, program := next (.error error) }
          else none
      | _, _ => none
  | .finish => match s.phase, s.program with
      | .ready, .done _ => some ({ s with phase := .gone }.release false)
      | _, _ => none

end Session

/-- The runs of one transaction, from the call of `connect`. -/
def transaction (body : Client ρ ε α) : TransitionSystem (Session ρ ε α) (Event ρ ε) where
  start s := s = { program := withTransaction body }
  step s event s' := s.step event = some s'

/-- The last of the talk is an acknowledged `COMMIT`, or a `ROLLBACK` that was answered. -/
def Ended (talk : List Entry) : Except ε α → Prop
  | .ok _ => ∃ before, talk = before ++ [.sent "COMMIT", .answered true]
  | .error _ => ∃ before ok, talk = before ++ [.sent "ROLLBACK", .answered ok]

/-- The monitor that records the talk. -/
def recorder : Program.Monitor String (fun _ => ρ) ε (List Entry) where
  allows _ _ := True
  trusts _ _ := True
  next talk event := talk ++ [.sent event.op, .answered event.answer.toBool]

/-- The connection is not released. -/
def Plain (talk : List Entry) : Prop := ∀ error, .released error ∉ talk

/-- The connection never came; or it is held, with the deadline and the end to come; or it was
    released once, with an error at the deadline, or clean once the transaction had ended. A
    result has been committed. -/
def Settled (s : Session ρ ε α) : Prop :=
  s.log = [] ∧ (∀ result, s.program ≠ .done (.ok result)) ∨ ∃ talk, Plain talk
    ∧ (∀ result, s.program = .done (.ok result) → Ended talk (Except.ok result : Except ε α))
    ∧ (s.log = talk ∧ s.aborted = false ∧ s.phase ≠ .gone
      ∨ s.log = talk ++ [.released true] ∧ s.aborted = true
      ∨ s.log = talk ++ [.released false] ∧ ∃ outcome, s.program = .done outcome ∧ Ended talk outcome)

/-- The invariant. A program that has lost its connection still ends as one that has it,
    but no more with a result. -/
inductive Kept : Session ρ ε α → Prop where
  | unconnected {phase aborted p}
      (hphase : phase = .connecting ∧ aborted = false ∨ phase = .late ∧ aborted = true
        ∨ phase = .gone)
      (h : p.Obeys recorder Ended [.connected]) : Kept ⟨phase, aborted, false, [], p⟩
  | ready {talk p} (hplain : Plain talk) (h : p.Obeys recorder Ended talk) :
      Kept ⟨.ready, false, false, talk, p⟩
  | waiting {talk sql next} (hplain : Plain talk)
      (h : (Program.await sql next).Obeys recorder Ended talk) :
      Kept ⟨.waiting, false, false, talk ++ [.sent sql], .await sql next⟩
  | lost {phase talk heard p} (hphase : phase = .ready ∨ phase = .waiting ∨ phase = .gone)
      (hplain : Plain talk) (h : p.Obeys recorder Ended heard)
      (hresult : ∀ a, p = .done (.ok a) → talk = heard) :
      Kept ⟨phase, true, true, talk ++ [.released true], p⟩
  | finished {aborted talk outcome} (hplain : Plain talk) (h : Ended talk outcome) :
      Kept ⟨.gone, aborted, true, talk ++ [.released false], .done outcome⟩

section

variable {body p : Client ρ ε α} {talk : List Entry} {s s' : Session ρ ε α} {event : Event ρ ε}

theorem obeys_recorder {post : List Entry → Except ε α → Prop}
    (h : ∀ talk outcome, post talk outcome) : p.Obeys recorder post talk := by
  induction p generalizing talk with
  | done outcome => exact h _ _
  | await sql next ih => exact ⟨trivial, fun answer _ => ih answer⟩

theorem withTransaction_ends : (withTransaction body).Obeys recorder Ended talk := by
  have hrollback : ∀ talk error, ((Program.perform "ROLLBACK").attempt >>= fun _ =>
      throw error : Client ρ ε α).Obeys recorder Ended talk := fun talk error =>
    Program.Obeys.attempt_bind trivial fun answer _ => ⟨talk, _, rfl⟩
  apply Program.Obeys.tryCatch
  apply Program.Obeys.perform_bind trivial (fun error _ => hrollback _ error)
  intro _ _
  apply Program.Obeys.bind
  apply obeys_recorder
  intro talk outcome
  cases outcome with
  | error error => exact hrollback talk error
  | ok result =>
      exact Program.Obeys.perform_bind trivial (fun error _ => hrollback _ error)
        fun _ _ => ⟨talk, rfl⟩

theorem Kept.step (h : Kept s) (hstep : s.step event = some s') : Kept s' := by
  have hconnected : Plain [.connected] := by simp [Plain]
  cases h with
  | unconnected hphase h =>
      rcases hphase with ⟨rfl, rfl⟩ | ⟨rfl, rfl⟩ | rfl <;> cases event <;> cases hstep
      · exact .ready hconnected h
      · exact .unconnected (by simp) h
      · exact .unconnected (by simp) h
      · exact .lost (by simp) hconnected h fun _ _ => rfl
      all_goals exact .unconnected (by simp) h
  | @ready talk p hplain h =>
      cases p <;> cases event <;> cases hstep
      · exact .lost (by simp) hplain h fun _ _ => rfl
      · exact .finished hplain h
      · exact .lost (by simp) hplain h fun _ _ => rfl
      · exact .waiting hplain h
  | @waiting talk sql next hplain h =>
      cases event <;> cases hstep
      · exact .lost (by simp) (by simpa [Plain] using hplain) h fun _ hp => by cases hp
      · exact .ready (by simpa [Plain] using hplain) (by simpa [recorder] using h.2 _ trivial)
  | @lost phase talk heard p hphase hplain h hresult =>
      cases p with
      | done outcome =>
          rcases hphase with rfl | rfl | rfl <;> cases event <;> cases hstep
          all_goals exact .lost (by simp) hplain h hresult
      | await sql next =>
          have hthrown : ∀ error, Kept ⟨.ready, true, true, talk ++ [.released true],
              next (.error error)⟩ := fun error => by
            have hends := h.2 (.error error) trivial
            refine .lost (by simp) hplain hends fun a hp => ?_
            -- A statement that throws is no acknowledged `COMMIT`.
            rw [hp] at hends
            obtain ⟨before, htalk⟩ := hends
            exact absurd (congrArg List.getLast? htalk) (by simp [recorder, Except.toBool])
          rcases hphase with rfl | rfl | rfl <;> cases event <;> cases hstep
          · exact .lost (by simp) hplain h hresult
          · exact hthrown _
          · exact .lost (by simp) hplain h hresult
          · exact hthrown _
          · exact .lost (by simp) hplain h hresult
  | finished hplain h =>
      cases event <;> cases hstep
      exact .finished hplain h

theorem Kept.settled (h : Kept s) : Settled s := by
  cases h with
  | unconnected _ h =>
      refine .inl ⟨rfl, fun result hp => ?_⟩
      cases hp
      obtain ⟨before, htalk⟩ := h
      simpa using congrArg List.getLast? htalk
  | ready hplain h =>
      refine .inr ⟨_, hplain, fun result hp => ?_, .inl ⟨rfl, rfl, by simp⟩⟩
      cases hp
      exact h
  | waiting hplain h =>
      exact .inr ⟨_, by simpa [Plain] using hplain, fun _ hp => (by cases hp), .inl ⟨rfl, rfl, by simp⟩⟩
  | lost _ hplain h hresult =>
      refine .inr ⟨_, hplain, fun result hp => ?_, .inr (.inl ⟨rfl, rfl⟩)⟩
      rw [hresult result hp]
      cases hp
      exact h
  | finished hplain h =>
      refine .inr ⟨_, hplain, fun result hp => ?_, .inr (.inr ⟨rfl, _, rfl, h⟩)⟩
      cases hp
      exact h

/-- Whatever the body does, however the statements are answered and whenever the deadline
    passes, the connection of a transaction is settled. -/
theorem transaction_settled (h : (transaction body).Reachable s) : Settled s := by
  refine Kept.settled (h.invariant (fun hstart => ?_) Kept.step)
  cases hstart
  exact .unconnected (.inl ⟨rfl, rfl⟩) withTransaction_ends

end

/-- The deadline passes while `COMMIT` runs. -/
theorem transaction_settled_cut : ∃ s : Session Unit Unit Unit,
    s.log = [.connected, .sent "BEGIN", .answered true, .sent "COMMIT", .released true]
      ∧ Settled s := by
  have hnext : ∀ {s s'} event, (transaction (pure () : Client Unit Unit Unit)).Reachable s →
      s.step event = some s' → (transaction (pure ())).Reachable s' := fun _ h hstep => h.next hstep
  have hbegun := hnext (.answer (.ok ())) (hnext .query (hnext .connect (.of_start rfl) rfl) rfl) rfl
  exact ⟨_, rfl, transaction_settled (hnext .abort (hnext .query hbegun rfl) rfl)⟩

end LingxiOS.DeadlinePool
