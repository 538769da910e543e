-- SUMMARY: What the lanes keep: order, marks and hand-overs.
import LingxiOS.Outbox.Lanes

/-! # Outbox Delivery

What one event of a lane does to one row is said once. The rest follows from it, from
the shape every lane's trace has, and from drawn tokens being new. -/

namespace LingxiOS

namespace Outbox

open Program

/-! ## The candidate -/

/-- What the claim asks of a row. -/
structure Claimable (rows : Rows) (now : Int) (maxAttempts : Nat) (key : EventKey)
    (row : OutboxRow) : Prop where
  undelivered : row.deliveredAt = none
  unfailed : row.failedAt = none
  available : row.availableAt ≤ now
  attempts : row.attempts < maxAttempts
  acknowledged : ∀ prior other, rows.get? prior = some other → prior.runId = key.runId →
    prior.seq < key.seq → other.deliveryWork.isSome = true → other.deliveredAt.isSome = true

theorem Claimable.of_holds {rows : Rows} {now : Int} {maxAttempts : Nat} {key : EventKey}
    {row : OutboxRow} (h : Sql.holds (whereClaimable rows now maxAttempts key row) = true) :
    Claimable rows now maxAttempts key row := by
  simp only [whereClaimable, Sql.holds_and, Bool.and_eq_true, Sql.holds_isNull,
    Sql.holds_compare_some, Sql.holds_isNotNull, Sql.holds_not_exists, Option.any_some,
    decide_eq_true_eq, Option.isNone_iff_eq_none] at h
  obtain ⟨hundelivered, hunfailed, havailable, hattempts, -, hprior⟩ := h
  refine ⟨hundelivered, hunfailed, havailable, hattempts, ?_⟩
  intro prior other hget hrun hseq hwork
  by_contra hopen
  have hmem : (prior, other) ∈ rows.entries := JsMap.get?_eq_some_iff.1 hget
  have hany : rows.entries.any (fun entry => Sql.holds (wherePrior key entry)) = true := by
    rw [List.any_eq_true]
    refine ⟨(prior, other), hmem, ?_⟩
    simp [wherePrior, Sql.eq, Sql.compare, hrun, hseq, hwork, Option.not_isSome_iff_eq_none.1 hopen]
  simp [hany] at hprior

theorem candidate_eq_some {rows : Rows} {locked : List EventKey} {now : Int} {maxAttempts : Nat}
    {key : EventKey} {row : OutboxRow}
    (h : candidate rows locked now maxAttempts = some (key, row)) :
    rows.get? key = some row ∧ Claimable rows now maxAttempts key row := by
  have hmem := (List.mem_insertionSort _).1 (List.mem_of_mem_head? h)
  obtain ⟨hentry, hkeep⟩ := List.mem_filter.1 hmem
  simp only [decide_eq_true_eq] at hkeep
  exact ⟨JsMap.get?_eq_some_iff.2 hentry, Claimable.of_holds hkeep.2⟩

/-! ## One event and one row -/

/-- What an event does to a row it does not leave alone. -/
inductive Changed (s : State) (event : LaneEvent) (key : EventKey) (row : OutboxRow) :
    OutboxRow → Prop where
  | swept (maxAttempts : Nat) (hop : event.op = .sweep maxAttempts)
      (hundelivered : row.deliveredAt = none) (hunfailed : row.failedAt = none)
      (havailable : row.availableAt ≤ s.now) (hattempts : maxAttempts ≤ row.attempts) :
      Changed s event key row
        { row with
          failedAt := some s.now
          claimToken := none
          lastError := row.lastError.or
            (some "delivery lease expired at the attempt limit") }
  | claimed (token : String) (maxAttempts : Nat) (hop : event.op = .claim token maxAttempts)
      (hclaimable : Claimable s.rows s.now maxAttempts key row) :
      Changed s event key row (Outbox.claimed row s.now token)
  | acknowledged (token : String) (hop : event.op = .acknowledge key token)
      (htoken : row.claimToken = some token) :
      Changed s event key row
        { row with deliveredAt := some s.now, claimToken := none, lastError := none }
  | rescheduled (token lastError : String) (maxAttempts : Nat)
      (hop : event.op = .reschedule key token lastError maxAttempts)
      (htoken : row.claimToken = some token) :
      Changed s event key row
        { row with
          claimToken := none
          lastError := some lastError
          failedAt := if maxAttempts ≤ row.attempts then some s.now else none
          availableAt := s.now + backoff row.attempts }

theorem holds_whereExhausted {now : Int} {maxAttempts : Nat} {row : OutboxRow} :
    Sql.holds (whereExhausted now maxAttempts row) = true ↔
      row.deliveredAt = none ∧ row.failedAt = none ∧ row.availableAt ≤ now
        ∧ maxAttempts ≤ row.attempts := by
  simp [whereExhausted]

/-- The state a statement leaves: as it was, or with the rows it computes. -/
theorem Executes.rows {α : Type} {s s' : State} {answer : Except String α} {value : α} {rows : Rows}
    (h : Executes s answer value rows s') :
    s'.now = s.now ∧ s'.tokens = s.tokens ∧ (s'.rows = s.rows ∨ s'.rows = rows) := by
  unfold Executes at h
  split at h
  · obtain ⟨-, rfl⟩ := h
    exact ⟨rfl, rfl, .inr rfl⟩
  · rcases h with rfl | rfl
    · exact ⟨rfl, rfl, .inl rfl⟩
    · exact ⟨rfl, rfl, .inr rfl⟩

theorem underToken_get? {rows : Rows} {id : EventKey} {row : OutboxRow} (key : EventKey)
    (token : String) (f : OutboxRow → OutboxRow) (hget : rows.get? id = some row) :
    (underToken rows key token f).get? id = some row
      ∨ id = key ∧ row.claimToken = some token
        ∧ (underToken rows key token f).get? id = some (f row) := by
  by_cases hid : id = key
  · subst hid
    by_cases htoken : row.claimToken = some token
    · right
      exact ⟨rfl, htoken, by simp [underToken, hget, htoken]⟩
    · left
      simp [underToken, hget, htoken]
  · left
    rw [underToken, JsMap.get?_modify_of_ne _ hid, hget]

/-- A row is left alone or changed in one of four ways. -/
theorem world_row {s s' : State} {event : LaneEvent} {key : EventKey} {row : OutboxRow}
    (h : world s event s') (hget : s.rows.get? key = some row) :
    ∃ row', s'.rows.get? key = some row' ∧ (row' = row ∨ Changed s event key row row') := by
  obtain ⟨op, answer⟩ := event
  cases op with
  | proceed =>
      obtain rfl : s' = s := h
      exact ⟨row, hget, .inl rfl⟩
  | throwIfAborted =>
      obtain rfl : s' = s := h
      exact ⟨row, hget, .inl rfl⟩
  | deliver id other =>
      obtain rfl : s' = s := h
      exact ⟨row, hget, .inl rfl⟩
  | randomUUID =>
      obtain ⟨token, -, -, rfl⟩ := h
      exact ⟨row, hget, .inl rfl⟩
  | sweep maxAttempts =>
      obtain ⟨-, -, hrows | hrows⟩ := Executes.rows h
      · exact ⟨row, by rw [hrows, hget], .inl rfl⟩
      · by_cases hexhausted : Sql.holds (whereExhausted s.now maxAttempts row) = true
        · obtain ⟨hundelivered, hunfailed, havailable, hattempts⟩ :=
            holds_whereExhausted.1 hexhausted
          refine ⟨_, ?_, .inr (.swept maxAttempts rfl hundelivered hunfailed havailable hattempts)⟩
          simp [hrows, sweep, JsMap.get?_mapValues, hget, hexhausted]
        · refine ⟨row, ?_, .inl rfl⟩
          simp [hrows, sweep, JsMap.get?_mapValues, hget, hexhausted]
  | claim token maxAttempts =>
      obtain ⟨locked, hexecutes⟩ := h
      obtain ⟨-, -, hrows | hrows⟩ := Executes.rows hexecutes
      · exact ⟨row, by rw [hrows, hget], .inl rfl⟩
      · cases hcandidate : candidate s.rows locked s.now maxAttempts with
        | none =>
            refine ⟨row, ?_, .inl rfl⟩
            simp [hrows, claim, hcandidate, hget]
        | some entry =>
            obtain ⟨id, other⟩ := entry
            obtain ⟨hother, hclaimable⟩ := candidate_eq_some hcandidate
            by_cases hid : key = id
            · subst hid
              rw [hget] at hother
              cases hother
              refine ⟨_, ?_, .inr (.claimed token maxAttempts rfl hclaimable)⟩
              simp [hrows, claim, hcandidate]
            · refine ⟨row, ?_, .inl rfl⟩
              simp [hrows, claim, hcandidate, JsMap.get?_set_of_ne _ hid, hget]
  | acknowledge id token =>
      obtain ⟨-, -, hrows | hrows⟩ := Executes.rows h
      · exact ⟨row, by rw [hrows, hget], .inl rfl⟩
      · rcases underToken_get? id token (fun row =>
          { row with deliveredAt := some s.now, claimToken := none, lastError := none }) hget with
          hsame | ⟨rfl, htoken, hset⟩
        · exact ⟨row, by rw [hrows]; exact hsame, .inl rfl⟩
        · exact ⟨_, by rw [hrows]; exact hset, .inr (.acknowledged token rfl htoken)⟩
  | reschedule id token lastError maxAttempts =>
      obtain ⟨-, -, hrows | hrows⟩ := Executes.rows h
      · exact ⟨row, by rw [hrows, hget], .inl rfl⟩
      · rcases underToken_get? id token (fun row =>
          { row with
            claimToken := none
            lastError := some lastError
            failedAt := if maxAttempts ≤ row.attempts then some s.now else none
            availableAt := s.now + backoff row.attempts }) hget with
          hsame | ⟨rfl, htoken, hset⟩
        · exact ⟨row, by rw [hrows]; exact hsame, .inl rfl⟩
        · exact ⟨_, by rw [hrows]; exact hset,
            .inr (.rescheduled token lastError maxAttempts rfl htoken)⟩

/-- No event of a lane stores a new row. -/
theorem world_absent {s s' : State} {event : LaneEvent} {key : EventKey} (h : world s event s')
    (hget : s.rows.get? key = none) : s'.rows.get? key = none := by
  obtain ⟨op, answer⟩ := event
  cases op with
  | proceed =>
      obtain rfl : s' = s := h
      exact hget
  | throwIfAborted =>
      obtain rfl : s' = s := h
      exact hget
  | deliver _ _ =>
      obtain rfl : s' = s := h
      exact hget
  | randomUUID =>
      obtain ⟨token, -, -, rfl⟩ := h
      exact hget
  | sweep maxAttempts =>
      obtain ⟨-, -, hrows | hrows⟩ := Executes.rows h
      · rw [hrows, hget]
      · simp [hrows, sweep, JsMap.get?_mapValues, hget]
  | claim token maxAttempts =>
      obtain ⟨locked, hexecutes⟩ := h
      obtain ⟨-, -, hrows | hrows⟩ := Executes.rows hexecutes
      · rw [hrows, hget]
      · cases hcandidate : candidate s.rows locked s.now maxAttempts with
        | none => simp [hrows, claim, hcandidate, hget]
        | some entry =>
            obtain ⟨id, other⟩ := entry
            have hid : key ≠ id := by
              rintro rfl
              rw [(candidate_eq_some hcandidate).1] at hget
              cases hget
            simp [hrows, claim, hcandidate, JsMap.get?_set_of_ne _ hid, hget]
  | acknowledge id token =>
      obtain ⟨-, -, hrows | hrows⟩ := Executes.rows h
      · rw [hrows, hget]
      · simp [hrows, acknowledge, underToken, JsMap.get?_modify, hget]
  | reschedule id token lastError maxAttempts =>
      obtain ⟨-, -, hrows | hrows⟩ := Executes.rows h
      · rw [hrows, hget]
      · simp [hrows, reschedule, underToken, JsMap.get?_modify, hget]

/-! ## The trace of a lane -/

/-- The lane has claimed the row under the token. -/
def Holds (trace : List LaneEvent) (key : EventKey) (token : String) : Prop :=
  ∃ maxAttempts row, ⟨.claim token maxAttempts, .ok (some (key, row))⟩ ∈ trace

theorem Holds.append {trace : List LaneEvent} {key : EventKey} {token : String}
    (h : Holds trace key token) (later : List LaneEvent) : Holds (trace ++ later) key token := by
  obtain ⟨maxAttempts, row, hmem⟩ := h
  exact ⟨maxAttempts, row, List.mem_append_left later hmem⟩

/-- The row was claimed by the last statement, and no abort was seen since. -/
def Fresh (limit : OutboxLimit) (trace : List LaneEvent) (key : EventKey) (row : OutboxRow)
    (token : String) : Prop :=
  ∃ earlier, trace = earlier ++ [⟨.claim token limit.maxAttempts, .ok (some (key, row))⟩,
    ⟨.throwIfAborted, .ok ()⟩]

/-- What a lane may await after its trace. -/
def Allowed (limit : OutboxLimit) (trace : List LaneEvent) : LaneOp → Prop
  | .sweep maxAttempts => maxAttempts = limit.maxAttempts
  | .claim token maxAttempts => maxAttempts = limit.maxAttempts
      ∧ ∃ earlier, trace = earlier ++ [⟨.randomUUID, .ok token⟩]
  | .deliver key row => ∃ token, Fresh limit trace key row token
  | .acknowledge key token => Holds trace key token
  | .reschedule key token _ maxAttempts => maxAttempts = limit.maxAttempts ∧ Holds trace key token
  | _ => True

def discipline (limit : OutboxLimit) : Monitor LaneOp LaneOp.Value String (List LaneEvent) where
  allows := Allowed limit
  trusts _ _ := True
  next trace event := trace ++ [event]

theorem discipline_after (limit : OutboxLimit) (seen trace : List LaneEvent) :
    (discipline limit).after seen trace = seen ++ trace := by
  induction trace generalizing seen with
  | nil => simp
  | cons event rest ih =>
      have hnext := ih (seen ++ [event])
      rw [List.append_assoc] at hnext
      exact hnext

section Lane

variable {limit : OutboxLimit} {trace : List LaneEvent} {key : EventKey} {row : OutboxRow}
  {token : String}

theorem reschedule_obeys (h : Holds trace key token) (error : String) :
    (Program.tryCatch (await (.reschedule key token (Text.slice 1000 error) limit.maxAttempts))
      fun _ => (throw "outbox failure could not be persisted" : Lane Unit)).Obeys (discipline limit)
      (fun _ _ => True) trace := by
  apply Obeys.tryCatch
  apply Obeys.perform
  · exact ⟨rfl, h⟩
  · intro answer _
    cases answer with
    | ok _ => trivial
    | error _ => trivial

theorem settle_obeys :
    (settle limit key row token).Obeys (discipline limit) (fun _ _ => True)
      (trace ++ [⟨.claim token limit.maxAttempts, .ok (some (key, row))⟩]) := by
  have hholds : Holds (trace ++ [⟨.claim token limit.maxAttempts, .ok (some (key, row))⟩]) key
      token := ⟨limit.maxAttempts, row, by simp⟩
  unfold settle
  apply Obeys.tryCatch
  apply Obeys.perform_bind trivial
  · intro error _
    exact reschedule_obeys (hholds.append _) error
  · intro _ _
    have hfresh : Fresh limit ((discipline limit).next
        (trace ++ [⟨.claim token limit.maxAttempts, .ok (some (key, row))⟩])
        ⟨.throwIfAborted, .ok ()⟩) key row token := ⟨trace, by simp [discipline]⟩
    apply Obeys.perform_bind
    · exact ⟨token, hfresh⟩
    · intro error _
      exact reschedule_obeys ((hholds.append _).append _) error
    · intro _ _
      apply Obeys.perform ((hholds.append _).append _)
      intro answer _
      cases answer with
      | ok _ => trivial
      | error error => exact reschedule_obeys (((hholds.append _).append _).append _) error

theorem deliverBatch_obeys :
    (deliverBatch limit).Obeys (discipline limit) (fun _ _ => True) trace := by
  unfold deliverBatch
  apply Obeys.perform_bind trivial
  · intro _ _
    trivial
  · intro token _
    apply Obeys.perform_bind
    · exact ⟨rfl, trace, rfl⟩
    · intro _ _
      trivial
    · intro found _
      cases found with
      | none => trivial
      | some entry =>
          apply Obeys.bind
          apply Obeys.mono settle_obeys
          intro _ outcome _
          cases outcome with
          | ok _ => trivial
          | error _ => trivial

theorem deliverRows_obeys (maxRows : Nat) :
    (deliverRows limit maxRows).Obeys (discipline limit) (fun _ _ => True) trace := by
  induction maxRows generalizing trace with
  | zero => trivial
  | succ maxRows ih =>
      unfold deliverRows
      apply Obeys.perform_bind trivial
      · intro _ _
        trivial
      · intro proceeds _
        split
        · apply Obeys.bind
          apply Obeys.mono deliverBatch_obeys
          intro trace outcome _
          cases outcome with
          | error _ => trivial
          | ok claimed =>
              dsimp only
              split
              · exact ih
              · trivial
        · trivial

theorem lane_obeys (maxRows : Nat) :
    (lane limit maxRows).Obeys (discipline limit) (fun _ _ => True) trace := by
  unfold lane
  apply Obeys.tryCatch
  apply Obeys.perform_bind rfl
  · intro _ _
    trivial
  · intro _ _
    apply Obeys.mono (deliverRows_obeys maxRows)
    intro _ outcome _
    cases outcome with
    | ok _ => trivial
    | error _ => trivial

end Lane

/-- Every event of the trace was allowed where it came. -/
def Shaped (limit : OutboxLimit) (trace : List LaneEvent) : Prop :=
  ∀ earlier event later, trace = earlier ++ event :: later → Allowed limit earlier event.op

section Shape

variable {limit : OutboxLimit} {trace : List LaneEvent} {key : EventKey} {row : OutboxRow}
  {token : String}

theorem Shaped.concat {event : LaneEvent} (h : Shaped limit trace)
    (hallowed : Allowed limit trace event.op) : Shaped limit (trace ++ [event]) := by
  intro earlier other later heq
  rcases List.append_eq_append_iff.1 heq with ⟨more, hearlier, hlater⟩ | ⟨more, htrace, hlater⟩
  · cases more with
    | nil =>
        obtain ⟨rfl, -⟩ := List.cons.inj hlater
        rw [List.append_nil] at hearlier
        rw [hearlier]
        exact hallowed
    | cons first more =>
        obtain ⟨-, hnil⟩ := List.cons.inj hlater
        simp at hnil
  · cases more with
    | nil =>
        obtain ⟨rfl, -⟩ := List.cons.inj hlater
        rw [List.append_nil] at htrace
        rw [← htrace]
        exact hallowed
    | cons first more =>
        obtain ⟨rfl, -⟩ := List.cons.inj hlater
        exact h earlier other more htrace

theorem Shaped.of_append {earlier later : List LaneEvent} (h : Shaped limit (earlier ++ later)) :
    Shaped limit earlier := by
  intro first event rest heq
  exact h first event (rest ++ later) (by simp [heq])

/-- A lane claims under tokens it has drawn. -/
theorem Shaped.drawn (h : Shaped limit trace) (hholds : Holds trace key token) :
    ⟨.randomUUID, .ok token⟩ ∈ trace := by
  obtain ⟨maxAttempts, row, hmem⟩ := hholds
  obtain ⟨earlier, later, rfl⟩ := List.mem_iff_append.1 hmem
  obtain ⟨-, before, rfl⟩ := h earlier _ later rfl
  simp

def isDelivery (key : EventKey) : LaneEvent → Bool
  | ⟨.deliver k _, _⟩ => k == key
  | _ => false

def isClaim (key : EventKey) : LaneEvent → Bool
  | ⟨.claim _ _, .ok (some (k, _))⟩ => k == key
  | _ => false

/-- Each hand-over has a claim of its own. -/
theorem Shaped.deliveries_le (h : Shaped limit trace) :
    trace.countP (isDelivery key) ≤ trace.countP (isClaim key) := by
  induction hlength : trace.length using Nat.strong_induction_on generalizing trace with
  | _ length ih =>
      rcases List.eq_nil_or_concat trace with rfl | ⟨earlier, event, rfl⟩
      · simp
      · rw [List.concat_eq_append] at h hlength ⊢
        rw [List.length_append, List.length_singleton] at hlength
        cases hdelivery : isDelivery key event with
        | false =>
            have hrest := ih earlier.length (by omega) h.of_append rfl
            rw [List.countP_append, List.countP_append, List.countP_singleton, hdelivery]
            simp only [Bool.false_eq_true, if_false]
            omega
        | true =>
            obtain ⟨op, answer⟩ := event
            cases op with
            | deliver k handed =>
                obtain ⟨token, first, rfl⟩ := h earlier _ [] rfl
                have hkey : (k == key) = true := hdelivery
                have hshorter : first.length < length := by
                  simp only [List.length_append, List.length_cons, List.length_nil] at hlength
                  omega
                have hrest := ih first.length hshorter h.of_append.of_append rfl
                rw [List.append_assoc, List.countP_append, List.countP_append]
                simpa [isDelivery, isClaim, hkey] using hrest
            | _ => cases hdelivery

end Shape

/-! ## The lanes -/

section Lanes

variable {limit : OutboxLimit} {s₀ s s' : Pool State LaneOp LaneOp.Value String Unit}
  {labels : List (PoolStep LaneOp LaneOp.Value String Unit)}
  {label : PoolStep LaneOp LaneOp.Value String Unit} {key : EventKey}

/-- What is left of every lane keeps to the discipline its trace has kept to. -/
theorem each_shaped (hstart : s₀.calls = []) (hrun : (lanes limit).system.Run s₀ labels s) :
    s.Each fun _ call => call.Obeys (discipline limit) (fun _ _ => True) []
      ∧ Shaped limit call.trace := by
  apply hrun.preserves (I := fun s => s.Each fun _ call =>
    call.Obeys (discipline limit) (fun _ _ => True) [] ∧ Shaped limit call.trace)
  · intro s label s' hall hstep
    refine Pool.Each.step hall hstep ?_ ?_
    · rintro entry ⟨maxRows, rfl⟩
      refine ⟨lane_obeys maxRows, ?_⟩
      intro earlier event later heq
      simp at heq
    · rintro index event trace next rfl ⟨hobeys, hshaped⟩ -
      refine ⟨hobeys.step trivial, hshaped.concat ?_⟩
      have hallowed := hobeys.1
      rwa [discipline_after, List.nil_append] at hallowed
  · intro index call hget
    rw [hstart] at hget
    cases hget

/-- What a stepping lane awaits, it may. -/
theorem allowed_of_step (hstart : s₀.calls = []) (hrun : (lanes limit).system.Run s₀ labels s)
    {index : Nat} {event : LaneEvent}
    (hstep : (lanes limit).system.step s (.step index event) s') :
    ∃ trace next, s.calls[index]? = some ⟨trace, .await event.op next⟩
      ∧ Shaped limit trace ∧ Allowed limit trace event.op := by
  obtain ⟨trace, next, hget, -, -⟩ := hstep
  obtain ⟨hobeys, hshaped⟩ := each_shaped hstart hrun index _ hget
  have hallowed := hobeys.1
  rw [discipline_after, List.nil_append] at hallowed
  exact ⟨trace, next, hget, hshaped, hallowed⟩

theorem world_clock {s s' : State} {event : LaneEvent} (h : world s event s') :
    s'.now = s.now ∧ ∀ token ∈ s.tokens, token ∈ s'.tokens := by
  obtain ⟨op, answer⟩ := event
  cases op with
  | randomUUID =>
      obtain ⟨token, -, -, rfl⟩ := h
      exact ⟨rfl, fun other hother => List.mem_cons_of_mem token hother⟩
  | sweep _ =>
      obtain ⟨hnow, htokens, -⟩ := Executes.rows h
      exact ⟨hnow, by simp [htokens]⟩
  | claim _ _ =>
      obtain ⟨locked, hexecutes⟩ := h
      obtain ⟨hnow, htokens, -⟩ := Executes.rows hexecutes
      exact ⟨hnow, by simp [htokens]⟩
  | acknowledge _ _ =>
      obtain ⟨hnow, htokens, -⟩ := Executes.rows h
      exact ⟨hnow, by simp [htokens]⟩
  | reschedule _ _ _ _ =>
      obtain ⟨hnow, htokens, -⟩ := Executes.rows h
      exact ⟨hnow, by simp [htokens]⟩
  | proceed =>
      obtain rfl : s' = s := h
      exact ⟨rfl, fun _ h => h⟩
  | throwIfAborted =>
      obtain rfl : s' = s := h
      exact ⟨rfl, fun _ h => h⟩
  | deliver _ _ =>
      obtain rfl : s' = s := h
      exact ⟨rfl, fun _ h => h⟩

/-- A stored row stays stored, and only an event of a lane changes it. -/
theorem step_row {row : OutboxRow} (hstep : (lanes limit).system.step s label s')
    (hget : s.shared.rows.get? key = some row) :
    ∃ row', s'.shared.rows.get? key = some row'
      ∧ (row' = row ∨ ∃ index event, label = .step index event
        ∧ Changed s.shared event key row row') := by
  cases label with
  | begin entry =>
      obtain ⟨-, rfl⟩ := hstep
      exact ⟨row, hget, .inl rfl⟩
  | other =>
      rcases hstep.1 with ⟨now, -, hshared⟩ | ⟨id, deliveryWork, availableAt, habsent, hshared⟩
      · exact ⟨row, by rw [hshared]; exact hget, .inl rfl⟩
      · have hid : key ≠ id := by
          rintro rfl
          rw [habsent] at hget
          cases hget
        exact ⟨row, by rw [hshared, JsMap.get?_set_of_ne _ hid, hget], .inl rfl⟩
  | step index event =>
      obtain ⟨_, _, _, hworld, _⟩ := hstep
      obtain ⟨row', hget', hrow'⟩ := world_row hworld hget
      exact ⟨row', hget', hrow'.imp id fun hchanged => ⟨index, event, rfl, hchanged⟩⟩

/-- A delivered row stays delivered. -/
theorem delivered_kept {row : OutboxRow} (hrun : (lanes limit).system.Run s labels s')
    (hget : s.shared.rows.get? key = some row) (hdelivered : row.deliveredAt.isSome = true) :
    ∃ row', s'.shared.rows.get? key = some row' ∧ row'.deliveredAt.isSome = true := by
  apply hrun.preserves (I := fun s => ∃ row', s.shared.rows.get? key = some row'
    ∧ row'.deliveredAt.isSome = true) ?_ ⟨row, hget, hdelivered⟩
  rintro s label s' ⟨row, hget, hdelivered⟩ hstep
  obtain ⟨row', hget', rfl | ⟨index, event, -, hchanged⟩⟩ := step_row hstep hget
  · exact ⟨row', hget', hdelivered⟩
  · refine ⟨row', hget', ?_⟩
    cases hchanged with
    | swept _ _ hundelivered => simp [hundelivered] at hdelivered
    | claimed _ _ _ hclaimable => simp [hclaimable.undelivered] at hdelivered
    | acknowledged => rfl
    | rescheduled => exact hdelivered

/-- An answered claim has set the row it returns. -/
theorem claim_ok {s s' : State} {token : String} {maxAttempts : Nat} {row' : OutboxRow}
    (h : world s ⟨.claim token maxAttempts, .ok (some (key, row'))⟩ s') :
    ∃ row, s.rows.get? key = some row ∧ Claimable s.rows s.now maxAttempts key row
      ∧ row' = claimed row s.now token ∧ s'.rows.get? key = some row' := by
  obtain ⟨locked, hanswer, hstate⟩ := h
  cases hcandidate : candidate s.rows locked s.now maxAttempts with
  | none => simp [claim, hcandidate] at hanswer
  | some entry =>
      obtain ⟨id, row⟩ := entry
      obtain ⟨hget, hclaimable⟩ := candidate_eq_some hcandidate
      simp only [claim, hcandidate, Option.some.injEq, Prod.mk.injEq] at hanswer
      obtain ⟨rfl, rfl⟩ := hanswer
      refine ⟨row, hget, hclaimable, rfl, ?_⟩
      simp [hstate, claim, hcandidate]

/-- How often the lanes have claimed a row. -/
def claims (s : Pool State LaneOp LaneOp.Value String Unit) (key : EventKey) : Nat :=
  s.total fun call => call.trace.countP (isClaim key)

theorem claims_step {index : Nat} {event : LaneEvent}
    (hstep : (lanes limit).system.step s (.step index event) s') :
    claims s' key = claims s key + if isClaim key event then 1 else 0 := by
  obtain ⟨trace, next, hget, -, hcalls⟩ := hstep
  have hset := Pool.total_set (f := fun call => call.trace.countP (isClaim key)) hget hcalls
  simp only [List.countP_append, List.countP_singleton] at hset
  rw [claims, claims]
  omega

/-- The claims of a row are counted by its attempts, and stay within the limit. -/
def Counted (limit : OutboxLimit) (s : Pool State LaneOp LaneOp.Value String Unit) : Prop :=
  ∀ key, claims s key ≤ limit.maxAttempts ∧ match s.shared.rows.get? key with
    | none => claims s key = 0
    | some row => claims s key ≤ row.attempts

theorem Changed.attempts {s : State} {event : LaneEvent} {row row' : OutboxRow}
    (h : Changed s event key row row')
    (hlimit : ∀ token maxAttempts, event.op = .claim token maxAttempts → maxAttempts ≤ 30) :
    row.attempts ≤ row'.attempts := by
  cases h with
  | claimed token maxAttempts hop hclaimable =>
      have hle := hlimit token maxAttempts hop
      have hlt := hclaimable.attempts
      simp only [Outbox.claimed]
      omega
  | _ => exact le_rfl

theorem counted (hstart : s₀.calls = []) (hrun : (lanes limit).system.Run s₀ labels s) :
    Counted limit s := by
  suffices hall : (lanes limit).system.Run s₀ labels s ∧ Counted limit s from hall.2
  apply hrun.traces (I := fun labels s => (lanes limit).system.Run s₀ labels s ∧ Counted limit s)
  · rintro labels s label s' ⟨hrun, hcounted⟩ hstep
    refine ⟨hrun.snoc hstep, ?_⟩
    intro key
    obtain ⟨hbounded, hrow⟩ := hcounted key
    cases label with
    | begin entry =>
        have hclaims : claims s' key = claims s key := by
          rw [claims, Pool.total_begin (congrArg Pool.calls hstep.2)]
          simp [claims]
        rw [hclaims, hstep.2]
        exact ⟨hbounded, hrow⟩
    | other =>
        have hclaims : claims s' key = claims s key := by rw [claims, Pool.total, hstep.2]; rfl
        rw [hclaims]
        refine ⟨hbounded, ?_⟩
        rcases hstep.1 with ⟨now, -, hshared⟩ | ⟨id, deliveryWork, availableAt, habsent, hshared⟩
        · rw [hshared]
          exact hrow
        · rw [hshared]
          by_cases hid : key = id
          · subst hid
            rw [habsent] at hrow
            simpa using hrow
          · simpa [JsMap.get?_set_of_ne _ hid] using hrow
    | step index event =>
        obtain ⟨trace, next, -, -, hallowed⟩ := allowed_of_step hstart hrun hstep
        rw [claims_step hstep]
        obtain ⟨_, _, _, hworld, _⟩ := hstep
        cases hclaim : isClaim key event with
        | true =>
            obtain ⟨row, row', hget, hclaimable, hget', hattempts⟩ :
                ∃ row row', s.shared.rows.get? key = some row
                  ∧ Claimable s.shared.rows s.shared.now limit.maxAttempts key row
                  ∧ s'.shared.rows.get? key = some row' ∧ row'.attempts = row.attempts + 1 := by
              obtain ⟨op, answer⟩ := event
              cases op with
              | claim token maxAttempts =>
                  obtain ⟨rfl, -⟩ := hallowed
                  rcases answer with _ | _ | ⟨id, row'⟩
                  · cases hclaim
                  · cases hclaim
                  · obtain rfl : id = key := by simpa [isClaim] using hclaim
                    obtain ⟨row, hget, hclaimable, rfl, hget'⟩ := claim_ok hworld
                    have hlt := hclaimable.attempts
                    have hbound := limit.bounded
                    refine ⟨row, _, hget, hclaimable, hget', ?_⟩
                    simp only [Outbox.claimed]
                    omega
              | _ => cases hclaim
            rw [hget] at hrow
            rw [hget']
            have hlt := hclaimable.attempts
            simp only [if_true] at hrow ⊢
            exact ⟨by omega, by omega⟩
        | false =>
            simp only [Bool.false_eq_true, if_false, Nat.add_zero]
            refine ⟨hbounded, ?_⟩
            cases hget : s.shared.rows.get? key with
            | none =>
                rw [hget] at hrow
                rw [world_absent hworld hget]
                exact hrow
            | some row =>
                rw [hget] at hrow
                obtain ⟨row', hget', rfl | hchanged⟩ := world_row hworld hget
                · rw [hget']
                  exact hrow
                · rw [hget']
                  refine le_trans hrow (hchanged.attempts ?_)
                  intro token maxAttempts hop
                  rw [hop] at hallowed
                  rw [hallowed.1]
                  exact limit.bounded
  · refine ⟨.refl _, ?_⟩
    intro key
    have hzero : claims s₀ key = 0 := by simp [claims, Pool.total, hstart]
    refine ⟨by omega, ?_⟩
    split
    · exact hzero
    · omega

end Lanes

end Outbox

end LingxiOS
