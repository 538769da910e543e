-- SUMMARY: The delivery discipline of the run-event outbox.
import LingxiOS.Outbox.Delivery

/-! # The Delivery Discipline

A claim lasts a minute. While it does, its row stands as the claim left it, since no
other lane can claim it, sweep it or present its token. After the minute another lane
may, and a lane that comes late hands over a row that is delivered already. -/

namespace LingxiOS

namespace Outbox

open Program

section Lanes

variable {limit : OutboxLimit} {s₀ s s' : Pool State LaneOp LaneOp.Value String Unit}
  {labels : List (PoolStep LaneOp LaneOp.Value String Unit)}
  {label : PoolStep LaneOp LaneOp.Value String Unit} {key : EventKey}

/-! ## Claims that still run -/

/-- The token an event drew. -/
def drawnToken : LaneEvent → Option String
  | ⟨.randomUUID, .ok token⟩ => some token
  | _ => none

/-- No two lanes have drawn the same token. -/
theorem tokens_apart (hstart : s₀.calls = []) (hrun : (lanes limit).system.Run s₀ labels s) :
    s.Each fun i call => s.Each fun j other => i ≠ j →
      ∀ token ∈ call.drawn drawnToken, token ∉ other.drawn drawnToken := by
  refine (Pool.drawn_apart (U := fun s token => token ∈ s.tokens) hstart ?_ ?_ ?_ hrun).2
  · intro shared event shared' token hworld htoken
    exact (world_clock hworld).2 token htoken
  · rintro shared shared' token (⟨now, -, rfl⟩ | ⟨id, deliveryWork, availableAt, -, rfl⟩) htoken
    · exact htoken
    · exact htoken
  · rintro shared ⟨op, answer⟩ shared' token hworld hdraws
    cases op with
    | randomUUID =>
        obtain ⟨drawn, rfl, hnew, rfl⟩ := hworld
        cases hdraws
        exact ⟨hnew, List.mem_cons_self⟩
    | _ => cases hdraws

/-- Two lanes that claimed under one token are the same lane. -/
theorem holds_apart (hstart : s₀.calls = []) (hrun : (lanes limit).system.Run s₀ labels s)
    {i j : Nat} {call other : Call LaneOp LaneOp.Value String Unit} {id : EventKey} {token : String}
    (hi : s.calls[i]? = some call) (hj : s.calls[j]? = some other)
    (hcall : Holds call.trace key token) (hother : Holds other.trace id token) : i = j := by
  by_contra hne
  have hdraws : ∀ {trace : List LaneEvent}, ⟨.randomUUID, .ok token⟩ ∈ trace →
      token ∈ trace.filterMap drawnToken := by
    intro trace hmem
    exact List.mem_filterMap.2 ⟨_, hmem, rfl⟩
  have hmine := hdraws ((each_shaped hstart hrun i call hi).2.drawn hcall)
  have hyours := hdraws ((each_shaped hstart hrun j other hj).2.drawn hother)
  exact tokens_apart hstart hrun i call hi j other hj hne token hmine hyours

/-- The claim is the last statement of the lane. -/
def Claimed (limit : OutboxLimit) (trace : List LaneEvent) (key : EventKey) (row : OutboxRow)
    (token : String) : Prop :=
  ∃ earlier, trace = earlier ++ [⟨.claim token limit.maxAttempts, .ok (some (key, row))⟩]

/-- A row claimed and not handed over stands as it was claimed, while the claim runs. -/
def Current (limit : OutboxLimit) (shared : State) (trace : List LaneEvent) : Prop :=
  ∀ key row token, Claimed limit trace key row token ∨ Fresh limit trace key row token →
    row.claimToken = some token ∧ row.deliveredAt = none
      ∧ (shared.now < row.availableAt → shared.rows.get? key = some row)

theorem Claimed.holds {trace : List LaneEvent} {row : OutboxRow} {token : String}
    (h : Claimed limit trace key row token ∨ Fresh limit trace key row token) :
    Holds trace key token := by
  rcases h with ⟨earlier, rfl⟩ | ⟨earlier, rfl⟩
  · exact ⟨limit.maxAttempts, row, by simp⟩
  · exact ⟨limit.maxAttempts, row, by simp⟩

/-- The event of one lane leaves the running claims of the others alone. -/
theorem Current.other (hstart : s₀.calls = []) (hrun : (lanes limit).system.Run s₀ labels s)
    {index j : Nat} {event : LaneEvent} {call : Call LaneOp LaneOp.Value String Unit}
    (hstep : (lanes limit).system.step s (.step index event) s') (hne : index ≠ j)
    (hget : s.calls[j]? = some call) (h : Current limit s.shared call.trace) :
    Current limit s'.shared call.trace := by
  intro key row token hclaimed
  obtain ⟨htoken, hundelivered, hstands⟩ := h key row token hclaimed
  refine ⟨htoken, hundelivered, ?_⟩
  intro hruns
  obtain ⟨trace, next, hstepping, -, hallowed⟩ := allowed_of_step hstart hrun hstep
  have hstep' := hstep
  obtain ⟨_, _, _, hworld, _⟩ := hstep'
  rw [(world_clock hworld).1] at hruns
  obtain ⟨row', hget', rfl | hchanged⟩ := world_row hworld (hstands hruns)
  · exact hget'
  · -- Whoever changes the row has waited for its deadline or presents its token.
    have hmine : ∀ other, other = token → Holds trace key other → False := by
      rintro other rfl hother
      exact hne (holds_apart hstart hrun hstepping hget hother (Claimed.holds hclaimed))
    cases hchanged with
    | swept _ _ _ _ havailable _ => omega
    | claimed _ _ _ hclaimable =>
        have havailable := hclaimable.available
        omega
    | acknowledged other hop hother =>
        rw [hop] at hallowed
        exact (hmine other (Option.some.inj (hother.symm.trans htoken)) hallowed).elim
    | rescheduled other _ _ hop hother =>
        rw [hop] at hallowed
        exact (hmine other (Option.some.inj (hother.symm.trans htoken)) hallowed.2).elim

/-- A lane that claims finds its row as it set it, and looking for an abort changes nothing. -/
theorem Current.own {shared shared' : State} {trace : List LaneEvent} {event : LaneEvent}
    (hworld : world shared event shared') (h : Current limit shared trace) :
    Current limit shared' (trace ++ [event]) := by
  intro key row token hclaimed
  rcases hclaimed with ⟨earlier, heq⟩ | ⟨earlier, heq⟩
  · obtain ⟨-, hevent⟩ := List.append_inj' heq rfl
    obtain rfl := List.singleton_inj.1 hevent
    obtain ⟨before, -, hclaimable, rfl, hget⟩ := claim_ok hworld
    exact ⟨rfl, hclaimable.undelivered, fun _ => hget⟩
  · have hsplit : earlier ++ [⟨.claim token limit.maxAttempts, .ok (some (key, row))⟩,
        ⟨.throwIfAborted, .ok ()⟩] = (earlier ++ [⟨.claim token limit.maxAttempts,
          .ok (some (key, row))⟩]) ++ [⟨.throwIfAborted, .ok ()⟩] := by simp
    rw [hsplit] at heq
    obtain ⟨rfl, hevent⟩ := List.append_inj' heq rfl
    obtain rfl := List.singleton_inj.1 hevent
    obtain rfl : shared' = shared := hworld
    exact h key row token (.inl ⟨earlier, rfl⟩)

theorem Current.nil {shared : State} : Current limit shared [] := by
  intro key row token hclaimed
  rcases hclaimed with ⟨earlier, heq⟩ | ⟨earlier, heq⟩
  · simp at heq
  · simp at heq

theorem Current.env {shared shared' : State} {trace : List LaneEvent}
    (henv : Outbox.env shared shared') (h : Current limit shared trace) :
    Current limit shared' trace := by
  intro key row token hclaimed
  obtain ⟨htoken, hundelivered, hstands⟩ := h key row token hclaimed
  refine ⟨htoken, hundelivered, ?_⟩
  intro hruns
  rcases henv with ⟨now, hlater, rfl⟩ | ⟨id, deliveryWork, availableAt, habsent, rfl⟩
  · exact hstands (Int.lt_of_le_of_lt hlater hruns)
  · have hget := hstands hruns
    have hid : key ≠ id := by
      rintro rfl
      rw [habsent] at hget
      cases hget
    exact (JsMap.get?_set_of_ne _ hid).trans hget

theorem each_current (hstart : s₀.calls = []) (hrun : (lanes limit).system.Run s₀ labels s) :
    s.Each fun _ call => Current limit s.shared call.trace := by
  suffices hall : (lanes limit).system.Run s₀ labels s
      ∧ s.Each fun _ call => Current limit s.shared call.trace from hall.2
  apply hrun.traces (I := fun labels s => (lanes limit).system.Run s₀ labels s
    ∧ s.Each fun _ call => Current limit s.shared call.trace)
  · rintro labels s label s' ⟨hrun, hcurrent⟩ hstep
    refine ⟨hrun.snoc hstep, ?_⟩
    intro j call hget
    cases label with
    | begin entry =>
        obtain ⟨-, rfl⟩ := hstep
        rw [List.getElem?_append] at hget
        split at hget
        · exact hcurrent j call hget
        · rw [List.getElem?_singleton] at hget
          split at hget
          · cases hget
            exact Current.nil
          · cases hget
    | other =>
        obtain ⟨henv, hcalls⟩ := hstep
        rw [hcalls] at hget
        exact Current.env henv (hcurrent j call hget)
    | step index event =>
        have hstep' := hstep
        obtain ⟨trace, next, hstepping, hworld, hcalls⟩ := hstep'
        by_cases hne : index = j
        · subst hne
          rw [hcalls, List.getElem?_set_self (List.getElem?_eq_some_iff.1 hstepping).1] at hget
          cases hget
          exact Current.own hworld (hcurrent index _ hstepping)
        · rw [hcalls, List.getElem?_set_ne hne] at hget
          exact Current.other hstart hrun hstep hne hget (hcurrent j call hget)
  · refine ⟨.refl _, ?_⟩
    intro index call hget
    rw [hstart] at hget
    cases hget

/-! ## The discipline -/

/-- What holds after any run of any number of lanes, and of its next step. -/
structure Disciplined (limit : OutboxLimit) (s₀ : Pool State LaneOp LaneOp.Value String Unit)
    (labels : List (PoolStep LaneOp LaneOp.Value String Unit))
    (s : Pool State LaneOp LaneOp.Value String Unit) : Prop where
  /-- An event is handed over by a lane whose last statement claimed it. Every earlier
      deliverable event of the run that was stored then had been acknowledged, and still is. -/
  ordered : ∀ index key row answer s',
    (lanes limit).system.step s (.step index ⟨.deliver key row, answer⟩) s' →
      ∃ trace rest token before after t u, s.calls[index]? = some ⟨trace, rest⟩
        ∧ Fresh limit trace key row token
        ∧ (lanes limit).Happened s₀ labels s index
          ⟨.claim token limit.maxAttempts, .ok (some (key, row))⟩ before after t u
        ∧ ∀ prior other, t.shared.rows.get? prior = some other → prior.runId = key.runId →
          prior.seq < key.seq → other.deliveryWork.isSome = true → other.deliveredAt.isSome = true
            ∧ ∃ stored, s.shared.rows.get? prior = some stored ∧ stored.deliveredAt.isSome = true
  /-- A row is marked delivered under its current token, by a lane that claimed it under that
      token. It is marked failed or rescheduled in the same way, or failed by a sweep once it
      is due at the limit, or moved on by the claim that takes it. -/
  marked : ∀ label s' key row row', (lanes limit).system.step s label s' →
    s.shared.rows.get? key = some row → s'.shared.rows.get? key = some row' →
      let rescheduledByHolder := ∃ index token lastError answer call,
        label = .step index ⟨.reschedule key token lastError limit.maxAttempts, answer⟩
          ∧ row.claimToken = some token ∧ s.calls[index]? = some call ∧ Holds call.trace key token
      (row'.deliveredAt ≠ row.deliveredAt → ∃ index token answer call,
        label = .step index ⟨.acknowledge key token, answer⟩
          ∧ row.claimToken = some token ∧ s.calls[index]? = some call ∧ Holds call.trace key token)
      ∧ (row'.failedAt ≠ row.failedAt → rescheduledByHolder
        ∨ (∃ index answer, label = .step index ⟨.sweep limit.maxAttempts, answer⟩)
          ∧ row.availableAt ≤ s.shared.now ∧ limit.maxAttempts ≤ row.attempts)
      ∧ (row'.availableAt ≠ row.availableAt → rescheduledByHolder
        ∨ (∃ index token answer, label = .step index ⟨.claim token limit.maxAttempts, answer⟩)
          ∧ Claimable s.shared.rows s.shared.now limit.maxAttempts key row)
  /-- A row is handed over at most `maxAttempts` times. -/
  limited : ∀ key, labels.countP (PoolStep.isEvent (isDelivery key)) ≤ limit.maxAttempts
  /-- A delivered row is never claimed again. -/
  final : ∀ index token maxAttempts answer s' key row,
    (lanes limit).system.step s (.step index ⟨.claim token maxAttempts, answer⟩) s' →
      s.shared.rows.get? key = some row → row.deliveredAt.isSome = true →
        s'.shared.rows.get? key = some row ∧ ∀ claimed, answer ≠ .ok (some (key, claimed))
  /-- A lane that hands its row over while its claim runs hands over no delivered row. -/
  punctual : ∀ index key row answer s',
    (lanes limit).system.step s (.step index ⟨.deliver key row, answer⟩) s' →
      s.shared.now < row.availableAt →
        ∃ stored, s.shared.rows.get? key = some stored ∧ stored.deliveredAt = none

theorem outbox_disciplined (limit : OutboxLimit) (s₀ s : Pool State LaneOp LaneOp.Value String Unit)
    (labels : List (PoolStep LaneOp LaneOp.Value String Unit))
    (hstart : (lanes limit).system.start s₀) (hrun : (lanes limit).system.Run s₀ labels s) :
    Disciplined limit s₀ labels s where
  ordered := by
    intro index key row answer s' hstep
    obtain ⟨trace, next, hget, -, token, hfresh⟩ := allowed_of_step hstart.1 hrun hstep
    have hclaim : ⟨.claim token limit.maxAttempts, .ok (some (key, row))⟩ ∈ trace := by
      obtain ⟨earlier, rfl⟩ := hfresh
      simp
    obtain ⟨before, after, t, u, hhappened⟩ := Pool.happened hstart.1 hrun hget hclaim
    refine ⟨trace, _, token, before, after, t, u, hget, hfresh, hhappened, ?_⟩
    intro prior other hother hsame hseq hwork
    obtain ⟨_, _, _, hworld, _⟩ := hhappened.step
    obtain ⟨_, -, hclaimable, -, -⟩ := claim_ok hworld
    have hdelivered := hclaimable.acknowledged prior other hother hsame hseq hwork
    refine ⟨hdelivered, ?_⟩
    have hrest : (lanes limit).system.Run t (.step index
        ⟨.claim token limit.maxAttempts, .ok (some (key, row))⟩ :: after) s :=
      hhappened.later.cons hhappened.step
    exact delivered_kept hrest hother hdelivered
  marked := by
    intro label s' key row row' hstep hget hget' rescheduledByHolder
    obtain ⟨stored, hstored, hsame | ⟨index, event, rfl, hchanged⟩⟩ := step_row hstep hget
    · obtain rfl := Option.some.inj (hget'.symm.trans hstored)
      subst hsame
      exact ⟨fun h => absurd rfl h, fun h => absurd rfl h, fun h => absurd rfl h⟩
    · obtain rfl := Option.some.inj (hget'.symm.trans hstored)
      obtain ⟨trace, next, hcall, -, hallowed⟩ := allowed_of_step hstart.1 hrun hstep
      obtain ⟨op, answer⟩ := event
      cases hchanged with
      | swept maxAttempts hop hundelivered hunfailed havailable hattempts =>
          subst hop
          obtain rfl : maxAttempts = limit.maxAttempts := hallowed
          exact ⟨fun h => absurd rfl h, fun _ => .inr ⟨⟨index, answer, rfl⟩, havailable, hattempts⟩,
            fun h => absurd rfl h⟩
      | claimed token maxAttempts hop hclaimable =>
          subst hop
          obtain ⟨rfl, -⟩ := hallowed
          exact ⟨fun h => absurd rfl h, fun h => absurd rfl h,
            fun _ => .inr ⟨⟨index, token, answer, rfl⟩, hclaimable⟩⟩
      | acknowledged token hop htoken =>
          subst hop
          exact ⟨fun _ => ⟨index, token, answer, _, rfl, htoken, hcall, hallowed⟩,
            fun h => absurd rfl h, fun h => absurd rfl h⟩
      | rescheduled token lastError maxAttempts hop htoken =>
          subst hop
          obtain ⟨rfl, hholds⟩ := hallowed
          have hholder : rescheduledByHolder :=
            ⟨index, token, lastError, answer, _, rfl, htoken, hcall, hholds⟩
          exact ⟨fun h => absurd rfl h, fun _ => .inl hholder, fun _ => .inl hholder⟩
  limited := by
    intro key
    rw [Pool.countP_labels _ hstart.1 hrun]
    refine Nat.le_trans (Pool.total_le ?_) (counted hstart.1 hrun key).1
    intro index call hget
    exact (each_shaped hstart.1 hrun index call hget).2.deliveries_le
  final := by
    intro index token maxAttempts answer s' key row hstep hget hdelivered
    obtain ⟨_, _, _, hworld, _⟩ := hstep
    have hworld : world s.shared ⟨.claim token maxAttempts, answer⟩ s'.shared := hworld
    obtain ⟨row', hget', rfl | hchanged⟩ := world_row hworld hget
    · refine ⟨hget', ?_⟩
      rintro claimed rfl
      obtain ⟨row, hrow, hclaimable, -, -⟩ := claim_ok hworld
      rw [hget] at hrow
      cases hrow
      simp [hclaimable.undelivered] at hdelivered
    · cases hchanged with
      | swept _ hop => cases hop
      | claimed _ _ _ hclaimable => simp [hclaimable.undelivered] at hdelivered
      | acknowledged _ hop => cases hop
      | rescheduled _ _ _ hop => cases hop
  punctual := by
    intro index key row answer s' hstep hruns
    obtain ⟨trace, next, hget, -, token, hfresh⟩ := allowed_of_step hstart.1 hrun hstep
    obtain ⟨-, hundelivered, hstands⟩ :=
      each_current hstart.1 hrun index _ hget key row token (.inr hfresh)
    exact ⟨row, hstands hruns, hundelivered⟩

end Lanes

/-! ## Lanes that come late -/

/-- A token longer than every token drawn. -/
private def longerToken (tokens : List String) : String := tokens.foldr (· ++ ·) "x"

private theorem longerToken_new (tokens : List String) : longerToken tokens ∉ tokens := by
  have hlonger : ∀ token ∈ tokens, token.length < (longerToken tokens).length := by
    induction tokens with
    | nil => simp
    | cons first rest ih =>
        intro token hmem
        have hrest : (longerToken (first :: rest)).length
            = first.length + (longerToken rest).length := by
          simp [longerToken]
        rcases List.mem_cons.1 hmem with rfl | hmem
        · have hpositive : 0 < (longerToken rest).length := by
            cases rest with
            | nil => decide
            | cons second rest => exact Nat.lt_of_le_of_lt (Nat.zero_le _) (ih second (by simp))
          omega
        · have hlt := ih token hmem
          omega
  intro hmem
  exact Nat.lt_irrefl _ (hlonger _ hmem)

/-- Every statement succeeds. -/
private def succeeds : Handler State LaneOp LaneOp.Value String := fun s op =>
  match op with
  | .proceed => (.ok true, s)
  | .sweep maxAttempts => (.ok (), { s with rows := sweep s.rows s.now maxAttempts })
  | .randomUUID =>
      (.ok (longerToken s.tokens), { s with tokens := longerToken s.tokens :: s.tokens })
  | .claim token maxAttempts =>
      (.ok (claim s.rows [] s.now maxAttempts token).1,
        { s with rows := (claim s.rows [] s.now maxAttempts token).2 })
  | .throwIfAborted => (.ok (), s)
  | .deliver _ _ => (.ok (), s)
  | .acknowledge key token => (.ok (), { s with rows := acknowledge s.rows key token s.now })
  | .reschedule key token lastError maxAttempts =>
      (.ok (), { s with rows := reschedule s.rows key token lastError maxAttempts s.now })

private theorem succeeds_world (s : State) (op : LaneOp) :
    world s ⟨op, (succeeds s op).1⟩ (succeeds s op).2 := by
  cases op with
  | randomUUID => exact ⟨_, rfl, longerToken_new _, rfl⟩
  | claim token maxAttempts => exact ⟨[], rfl, rfl⟩
  | sweep _ => exact ⟨rfl, rfl⟩
  | acknowledge _ _ => exact ⟨rfl, rfl⟩
  | reschedule _ _ _ _ => exact ⟨rfl, rfl⟩
  | proceed => rfl
  | throwIfAborted => rfl
  | deliver _ _ => rfl

private def twelve : OutboxLimit := ⟨12, by omega, by omega⟩

private def once : OutboxLimit := ⟨1, by omega, by omega⟩

private def firstEvent : EventKey := ⟨"run", 1⟩

private def oneEvent : Pool State LaneOp LaneOp.Value String Unit :=
  ⟨⟨JsMap.empty.set firstEvent ⟨some "work", none, none, none, 0, none, 0⟩, 0, []⟩, []⟩

/-- A lane begins and makes some steps. -/
private def moves (limit : OutboxLimit) (index steps : Nat) :
    List (Move LaneOp LaneOp.Value String Unit) :=
  .begin (lane limit 1) :: List.replicate steps (.step index)

private def afterMinute (s : Pool State LaneOp LaneOp.Value String Unit) :
    Pool State LaneOp LaneOp.Value String Unit :=
  { s with shared := { s.shared with now := s.shared.now + 60000 } }

private theorem run_play (limit : OutboxLimit) (index steps late : Nat)
    (s : Pool State LaneOp LaneOp.Value String Unit) :
    (lanes limit).system.Run s
      (s.play succeeds (moves limit index steps ++ List.replicate late (.step 0))).1
      (s.play succeeds (moves limit index steps ++ List.replicate late (.step 0))).2 := by
  apply Pool.run_of_play succeeds_world
  intro entry hentry
  rcases List.mem_append.1 hentry with hentry | hentry
  · rcases List.mem_cons.1 hentry with hbegin | hstep
    · cases hbegin
      exact ⟨1, rfl⟩
    · cases List.eq_of_mem_replicate hstep
  · cases List.eq_of_mem_replicate hentry

private theorem run_afterMinute (limit : OutboxLimit)
    (s : Pool State LaneOp LaneOp.Value String Unit) :
    (lanes limit).system.Run s [.other] (afterMinute s) :=
  .single ⟨.inl ⟨s.shared.now + 60000, by omega, rfl⟩, rfl⟩

private theorem oneEvent_start (limit : OutboxLimit) : (lanes limit).system.start oneEvent := by
  refine ⟨rfl, ?_⟩
  intro key row token hget htoken
  have hrow : row.claimToken = none := by
    have hmem := JsMap.get?_eq_some_iff.1 hget
    obtain ⟨-, rfl⟩ := Prod.mk.inj (List.mem_singleton.1 hmem)
    rfl
  rw [hrow] at htoken
  cases htoken

theorem oneEvent_disciplined :
    Disciplined twelve oneEvent (oneEvent.play succeeds (moves twelve 0 7 ++ [])).1
      (oneEvent.play succeeds (moves twelve 0 7 ++ [])).2 :=
  outbox_disciplined twelve oneEvent _ _ (oneEvent_start twelve) (run_play twelve 0 7 0 oneEvent)

/-- The first lane claims. -/
private def claimedOnce (limit : OutboxLimit) : Pool State LaneOp LaneOp.Value String Unit :=
  (oneEvent.play succeeds (moves limit 0 4 ++ [])).2

private theorem run_late (limit : OutboxLimit) (steps late : Nat) : ∃ labels,
    (lanes limit).system.Run oneEvent labels ((afterMinute (claimedOnce limit)).play succeeds
      (moves limit 1 steps ++ List.replicate late (.step 0))).2 :=
  ⟨_, ((run_play limit 0 4 0 oneEvent).trans (run_afterMinute limit _)).trans
    (run_play limit 1 steps late _)⟩

/-- A minute later another lane goes on, and then the first one. -/
private def late (limit : OutboxLimit) (steps late : Nat) :
    Pool State LaneOp LaneOp.Value String Unit :=
  ((afterMinute (claimedOnce limit)).play succeeds
    (moves limit 1 steps ++ List.replicate late (.step 0))).2

private theorem step_of_move (limit : OutboxLimit) {s s' : Pool State LaneOp LaneOp.Value String Unit}
    {index : Nat} {label : PoolStep LaneOp LaneOp.Value String Unit}
    (h : s.move succeeds (.step index) = some (label, s')) :
    (lanes limit).system.step s label s' := by
  refine (Pool.step_of_move (J := fun _ => True) ?_ ?_ trivial h).2
  · exact fun shared op _ => ⟨trivial, succeeds_world shared op⟩
  · intro entry hentry
    cases hentry

/-- A lane that hands its row over after its claim ran out hands over a row that another
    lane has delivered, and a sweep fails a row under the token of a lane that delivers it. -/
theorem discipline_broken_late :
    (∃ labels s s' row, (lanes twelve).system.start oneEvent
      ∧ (lanes twelve).system.Run oneEvent labels s
      ∧ (lanes twelve).system.step s (.step 0 ⟨.deliver firstEvent row, .ok ()⟩) s'
      ∧ (s.shared.rows.get? firstEvent).map OutboxRow.deliveredAt = some (some 60000))
    ∧ ∃ labels s s', (lanes once).system.start oneEvent
      ∧ (lanes once).system.Run oneEvent labels s
      ∧ (lanes once).system.step s (.step 1 ⟨.sweep 1, .ok ()⟩) s'
      ∧ (s.shared.rows.get? firstEvent).map (fun row => (row.claimToken, row.failedAt))
        = some (some "x", none)
      ∧ (s'.shared.rows.get? firstEvent).map OutboxRow.failedAt = some (some 60000) := by
  constructor
  · obtain ⟨labels, hrun⟩ := run_late twelve 7 1
    have hmove : (late twelve 7 1).move succeeds (.step 0) = some
        (.step 0 ⟨.deliver firstEvent ⟨some "work", none, none, none, 60000, some "x", 1⟩, .ok ()⟩,
          ((late twelve 7 1).play succeeds [.step 0]).2) := rfl
    exact ⟨labels, _, _, _, oneEvent_start twelve, hrun, step_of_move twelve hmove, rfl⟩
  · obtain ⟨labels, hrun⟩ := run_late once 0 0
    have hmove : (late once 0 0).move succeeds (.step 1)
        = some (.step 1 ⟨.sweep 1, .ok ()⟩, ((late once 0 0).play succeeds [.step 1]).2) := rfl
    exact ⟨labels, _, _, oneEvent_start once, hrun, step_of_move once hmove, rfl, rfl⟩

end Outbox

end LingxiOS
