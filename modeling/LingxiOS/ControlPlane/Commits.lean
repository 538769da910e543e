-- SUMMARY: Transactional effects and receipts, committed together and once.
import LingxiOS.ControlPlane.AtMostOnce
import LingxiOS.ControlPlane.Transactions

/-! # Commits

Each call of a pool is followed by its monitor; what a call knows of the database
stays true while the others move, since they touch no transaction but their own. -/

namespace LingxiOS

open Program

/-! ## One call and the database -/

namespace NativeDb

variable {db db' : NativeDb} {conn : Nat} {t t' : Transaction} {m m' : CallState}

/-- What the state of a call says is true of the database. -/
structure Knows (db : NativeDb) (m : CallState) : Prop where
  settled : m.settled = true → db.settled = true
  fresh : ∀ c, m.stage.conn = some c → c < db.next
  expects : ∀ c t, m.stage.conn = some c → db.transactions c = some t → m.stage.Expects t
  /-- A final receipt that was found in the transaction is there. -/
  found : ∀ c prior ran result, m.stage = .written c prior ran result →
    prior.any HostActionResult.isFinal = true → db.settled = true

/-- What the step of a call does to the database and to what is known of it. -/
structure Advances (db : NativeDb) (m : CallState) (db' : NativeDb) (m' : CallState) : Prop where
  moves : db.Moves db'
  knows : db'.Knows m'
  keeps : ∀ c t, m.stage.conn ≠ some c → db'.transactions c = some t → db.transactions c = some t
  conn : ∀ c, m'.stage.conn = some c → m.stage.conn = some c ∨ db.next ≤ c

theorem Moves.next_le (h : db.Moves db') : db.next ≤ db'.next := by
  cases h with
  | next hle => exact hle
  | closed | began | changed | wrote | committed => exact le_refl _
  | recorded =>
      unfold NativeDb.recorded
      split <;> exact le_refl _

/-- What a call knows stays true while its own transaction is left alone. -/
theorem Knows.of_moves (h : db.Knows m) (hsound : db.Sound) (hmoves : db.Moves db')
    (hkeeps : ∀ c t, m.stage.conn = some c → db'.transactions c = some t →
      db.transactions c = some t) : db'.Knows m := by
  constructor
  · exact fun hm => hsound.settled_mono hmoves (h.settled hm)
  · exact fun c hc => (h.fresh c hc).trans_le hmoves.next_le
  · exact fun c t hc hopen => h.expects c t hc (hkeeps c t hc hopen)
  · exact fun c prior ran result hm hfinal =>
      hsound.settled_mono hmoves (h.found c prior ran result hm hfinal)

theorem Knows.of_idle (hstage : m'.stage = .idle)
    (hsettled : m'.settled = true → db.settled = true) : db.Knows m' := by
  constructor
  · exact hsettled
  · intro c hc
    rw [hstage] at hc
    cases hc
  · intro c t hc
    rw [hstage] at hc
    cases hc
  · intro c prior ran result hm
    rw [hstage] at hm
    cases hm

/-- Nothing happened to the database. -/
theorem Advances.same (h : db.Knows m') (hconn : ∀ c, m'.stage.conn = some c → m.stage.conn = some c) :
    db.Advances m db m' where
  moves := .next le_rfl
  knows := h
  keeps _ _ _ hopen := hopen
  conn c hc := .inl (hconn c hc)

/-- The call changed its own transaction. -/
theorem Advances.put (hknows : db.Knows m) (hconn : m.stage.conn = some conn)
    (hmoves : db.Moves (db.put conn t')) (hsettled : m'.settled = m.settled)
    (hstage : m'.stage.conn = some conn ∨ m'.stage = .idle) (hexpects : m'.stage.Expects t')
    (hfound : ∀ c prior ran result, m'.stage = .written c prior ran result →
      prior.any HostActionResult.isFinal = true → db.settled = true) :
    db.Advances m (db.put conn t') m' := by
  have hsame : ∀ c, m'.stage.conn = some c → c = conn := by
    intro c hc
    rcases hstage with h | h
    · rw [h] at hc
      exact (Option.some.inj hc).symm
    · rw [h] at hc
      cases hc
  constructor
  · exact hmoves
  · constructor
    · intro hm
      exact hknows.settled (hsettled ▸ hm)
    · intro c hc
      rw [hsame c hc]
      exact hknows.fresh conn hconn
    · intro c t hc hopen
      rcases transactions_put hopen with ⟨-, rfl⟩ | ⟨hne, -⟩
      · exact hexpects
      · exact absurd (hsame c hc) hne
    · exact hfound
  · intro c t hne hopen
    rcases transactions_put hopen with ⟨rfl, -⟩ | ⟨-, hopen⟩
    · exact absurd hconn hne
    · exact hopen
  · intro c hc
    rw [hsame c hc]
    exact .inl hconn

/-- The call is done with its transaction. -/
theorem Advances.ended (hmoves : db.Moves db')
    (hkeeps : ∀ c t, db'.transactions c = some t → db.transactions c = some t)
    (hstage : m'.stage = .idle) (hsettled : m'.settled = true → db'.settled = true) :
    db.Advances m db' m' := by
  constructor
  · exact hmoves
  · exact .of_idle hstage hsettled
  · exact fun c t _ => hkeeps c t
  · intro c hc
    rw [hstage] at hc
    cases hc

/-- A statement of the call in its own transaction: one that is executed, or one that fails. -/
theorem Advances.statement {event : NativeEvent} (hsound : db.Sound) (hknows : db.Knows m)
    (hconn : m.stage.conn = some conn) (h : db.Statement conn event db')
    (hsettled : m'.settled = m.settled) (hstage : m'.stage.conn = some conn ∨ m'.stage = .idle)
    (hfound : ∀ c prior ran result, m'.stage = .written c prior ran result →
      prior.any HostActionResult.isFinal = true → db.settled = true)
    (hexecuted : ∀ t t', db.transactions conn = some t → t.aborted = false →
      m.stage.Expects t → db.Executed conn t event t' →
      db.Moves (db.put conn t') ∧ m'.stage.Expects t')
    (hfailed : ∀ t failure, event.answer = .error failure → m.stage.Expects t →
      m'.stage.Expects t ∧ m'.stage.Expects { t with aborted := true }) :
    db.Advances m db' m' := by
  unfold Statement at h
  split at h
  · rename_i hnone
    obtain ⟨rfl, -⟩ := h
    have hsame : ∀ c, m'.stage.conn = some c → c = conn := by
      intro c hc
      rcases hstage with h | h
      · rw [h] at hc
        exact (Option.some.inj hc).symm
      · rw [h] at hc
        cases hc
    apply Advances.same
    · constructor
      · exact fun hm => hknows.settled (hsettled ▸ hm)
      · exact fun c hc => hsame c hc ▸ hknows.fresh conn hconn
      · intro c t hc hopen
        rw [hsame c hc, hnone] at hopen
        cases hopen
      · exact hfound
    · exact fun c hc => hsame c hc ▸ hconn
  · rename_i t hopen
    have hexpects := hknows.expects conn t hconn hopen
    obtain ⟨t', rfl, ⟨haborted, hdone⟩ | ⟨⟨failure, hanswer⟩, hkept⟩⟩ := h
    · obtain ⟨hmoves, hexpects'⟩ := hexecuted t t' hopen haborted hexpects hdone
      exact .put hknows hconn hmoves hsettled hstage hexpects' hfound
    · obtain ⟨hsame, haborted⟩ := hfailed t failure hanswer hexpects
      rcases hkept with rfl | rfl
      · exact .put hknows hconn (.changed hopen rfl (hsound.committing conn _ hopen)) hsettled hstage
          hsame hfound
      · exact .put hknows hconn (.changed hopen rfl (hsound.committing conn t hopen)) hsettled hstage
          haborted hfound

/-! ## One awaited operation -/

theorem connect_advances {answer : Except Failure Nat} (hsound : db.Sound) (hknows : db.Knows m)
    (hworld : db.world ⟨.connect, answer⟩ db') :
    db.Advances m db' (transactional.next m ⟨.connect, answer⟩) := by
  cases answer with
  | error e =>
      obtain rfl : db' = db := hworld
      exact .ended (.next le_rfl) (fun _ _ hopen => hopen) rfl hknows.settled
  | ok conn =>
      obtain ⟨rfl, rfl⟩ := hworld
      have hnext : ∀ c, (Stage.opened db.next).conn = some c → c = db.next :=
        fun c hc => (Option.some.inj hc).symm
      constructor
      · exact .next (Nat.le_succ _)
      · constructor
        · exact hknows.settled
        · exact fun c hc => hnext c hc ▸ Nat.lt_succ_self _
        · intro c t hc hopen
          exact absurd (hsound.fresh c t hopen) (hnext c hc ▸ Nat.lt_irrefl _)
        · intro c prior ran result hm
          cases hm
      · exact fun c t _ hopen => hopen
      · exact fun c hc => .inr (hnext c hc).ge

theorem begin_advances {answer : Except Failure Unit} {serializable : Bool} (hknows : db.Knows m)
    (hallows : m.stage = .opened conn) (hworld : db.world ⟨.begin_ conn serializable, answer⟩ db') :
    db.Advances m db' m := by
  have hconn : m.stage.conn = some conn := by rw [hallows]; rfl
  rcases hworld with ⟨-, rfl⟩ | ⟨-, rfl⟩
  · apply Advances.put hknows hconn (.began (hknows.fresh conn hconn)) rfl (.inl hconn)
    · rw [hallows]
      exact ⟨rfl, rfl, rfl⟩
    · exact hknows.found
  · exact .same hknows (fun _ hc => hc)

theorem setTimeouts_advances {answer : Except Failure Unit} (hsound : db.Sound)
    (hknows : db.Knows m) (hallows : m.stage = .opened conn)
    (hworld : db.Statement conn ⟨.setTimeouts conn, answer⟩ db') : db.Advances m db' m := by
  have hconn : m.stage.conn = some conn := by rw [hallows]; rfl
  apply Advances.statement hsound hknows hconn hworld rfl (.inl hconn) hknows.found
  · intro t t' hopen _ hexpects hdone
    rw [hallows] at hexpects ⊢
    obtain rfl : t' = { t with snapshot := some (t.snapshot.getD db.receipt) } := hdone
    exact ⟨.changed hopen rfl (hsound.committing conn t hopen), hexpects⟩
  · intro t failure _ hexpects
    rw [hallows] at hexpects ⊢
    exact ⟨hexpects, hexpects⟩

theorem selectReceipt_advances {key : String} {answer : Except Failure (Option HostActionResult)}
    (hsound : db.Sound) (hknows : db.Knows m) (hallows : m.stage = .opened conn)
    (hworld : db.Statement conn ⟨.selectReceipt conn key, answer⟩ db') :
    db.Advances m db' (transactional.next m ⟨.selectReceipt conn key, answer⟩) := by
  have hconn : m.stage.conn = some conn := by rw [hallows]; rfl
  apply Advances.statement hsound hknows hconn hworld
  · cases answer <;> rfl
  · cases answer with
    | error e => exact .inl hconn
    | ok prior => exact .inl rfl
  · intro c prior ran result hm
    cases answer with
    | error e => exact hknows.found c prior ran result hm
    | ok prior => cases hm
  · intro t t' hopen _ hexpects hdone
    rw [hallows] at hexpects
    obtain ⟨hreceipt, heffects, hcommitting⟩ := hexpects
    cases answer with
    | error e =>
        obtain rfl : t' = t := hdone
        refine ⟨.changed hopen rfl (hsound.committing conn _ hopen), ?_⟩
        simp only [transactional, hallows]
        exact ⟨hreceipt, heffects, hcommitting⟩
    | ok prior =>
        obtain ⟨hsnapshot, rfl⟩ := hdone
        exact ⟨.changed hopen rfl (hsound.committing conn _ hopen),
          hreceipt, heffects, hcommitting, hsnapshot⟩
  · intro t failure hanswer hexpects
    cases answer with
    | error e =>
        simp only [transactional, hallows] at hexpects ⊢
        exact ⟨hexpects, hexpects⟩
    | ok prior => cases hanswer

/-- The tool runs in the transaction of the call, which has written no receipt yet. -/
theorem toolExecute_advances {action : HostAction} {input : JsonObject} {c : Option Nat}
    {answer : Except Failure HostActionResult} {prior : Option HostActionResult}
    (hsound : db.Sound) (hknows : db.Knows m) (hallows : m.stage = .read conn prior)
    (hworld : db.Statement conn ⟨.toolExecute c action input, answer⟩ db') :
    db.Advances m db' (transactional.next m ⟨.toolExecute c action input, answer⟩) := by
  have hconn : m.stage.conn = some conn := by rw [hallows]; rfl
  apply Advances.statement hsound hknows hconn hworld
  · cases answer with
    | error e => rfl
    | ok result => simp [transactional, hallows]
  · cases answer with
    | error e => exact .inr rfl
    | ok result => exact .inl (by simp [transactional, hallows, Stage.conn])
  · intro c prior ran result hm
    cases answer with
    | error e => cases hm
    | ok result => simp [transactional, hallows] at hm
  · rintro t t' hopen _ hexpects ⟨aborted, rfl⟩
    rw [hallows] at hexpects
    obtain ⟨hreceipt, heffects, hcommitting, hsnapshot⟩ := hexpects
    refine ⟨.changed hopen rfl (fun h => by simp [hcommitting] at h), ?_⟩
    cases answer with
    | error e => trivial
    | ok result =>
        simp only [transactional, hallows]
        exact ⟨hreceipt, by simp [heffects], hcommitting, hsnapshot⟩
  · intro t failure hanswer _
    cases answer with
    | error e => exact ⟨trivial, trivial⟩
    | ok result => cases hanswer

/-- The row of the receipt is written over by nobody else, and only while it is unsettled. -/
theorem insertReceipt_advances {key : String} {result : HostActionResult}
    {answer : Except Failure Unit} {prior ran : Option HostActionResult}
    (hsound : db.Sound) (hknows : db.Knows m)
    (hallows : m.stage = .read conn prior ∧ ran = none
      ∨ ∃ r, m.stage = .executed conn prior r ∧ ran = some r)
    (hworld : db.Statement conn ⟨.insertReceipt conn key result, answer⟩ db') :
    db.Advances m db' (transactional.next m ⟨.insertReceipt conn key result, answer⟩) := by
  have hconn : m.stage.conn = some conn := by
    rcases hallows with ⟨h, -⟩ | ⟨r, h, -⟩ <;> rw [h] <;> rfl
  have hexpected : ∀ t, m.stage.Expects t → t.receipt = none ∧ t.effects = ran.toList.map .ok
      ∧ t.committing = false ∧ t.snapshot = some prior := by
    intro t hexpects
    rcases hallows with ⟨h, rfl⟩ | ⟨r, h, rfl⟩
    · rw [h] at hexpects
      exact hexpects
    · rw [h] at hexpects
      exact hexpects
  have hnext : (transactional.next m ⟨.insertReceipt conn key result, .ok ()⟩)
      = { m with stage := .written conn prior ran result } := by
    rcases hallows with ⟨h, rfl⟩ | ⟨r, h, rfl⟩ <;> simp [transactional, h]
  -- The snapshot is of the receipt that is stored: a final one was found.
  have hsettled_eq : ∀ t, m.stage.Expects t → t.snapshot = some db.receipt →
      db.settled = prior.any HostActionResult.isFinal := by
    intro t hexpects hsnapshot
    rw [(hexpected t hexpects).2.2.2] at hsnapshot
    rw [settled, ← Option.some.inj hsnapshot]
  have hmoves : ∀ t t', db.transactions conn = some t → m.stage.Expects t →
      db.Executed conn t ⟨.insertReceipt conn key result, answer⟩ t' →
      db.Moves (db.put conn t') := by
    rintro t t' hopen hexpects ⟨hunlocked, -, rfl⟩
    have hcommitting := (hexpected t hexpects).2.2.1
    cases hsettled : db.settled with
    | true => exact .changed hopen (by simp) (fun h => by simp [hcommitting] at h)
    | false => exact .wrote hopen hunlocked hsettled hcommitting
  cases answer with
  | error e =>
      apply Advances.statement hsound hknows hconn hworld
      · rfl
      · exact .inr rfl
      · intro c prior ran result hm
        cases hm
      · exact fun t t' hopen _ hexpects hdone => ⟨hmoves t t' hopen hexpects hdone, trivial⟩
      · exact fun _ _ _ _ => ⟨trivial, trivial⟩
  | ok _ =>
      rw [hnext]
      apply Advances.statement hsound hknows hconn hworld
      · rfl
      · exact .inl rfl
      · intro c prior' ran' result' hm hfinal
        simp only [Stage.written.injEq] at hm
        obtain ⟨-, rfl, -⟩ := hm
        unfold Statement at hworld
        split at hworld
        · exact hworld.2.elim
        · rename_i t hopen
          obtain ⟨t', -, ⟨-, -, hsnapshot, -⟩ | ⟨⟨failure, hanswer⟩, -⟩⟩ := hworld
          · rw [hsettled_eq t (hknows.expects conn t hconn hopen) hsnapshot]
            exact hfinal
          · cases hanswer
      · intro t t' hopen haborted hexpects hdone
        refine ⟨hmoves t t' hopen hexpects hdone, ?_⟩
        obtain ⟨-, hsnapshot, rfl⟩ := hdone
        obtain ⟨hreceipt, heffects, hcommitting, hprior⟩ := hexpected t hexpects
        refine ⟨?_, heffects, hcommitting, hprior, haborted⟩
        simp only [hreceipt, hsettled_eq t hexpects hsnapshot]
      · intro t failure hanswer
        cases hanswer

/-- What the call knows of its transaction when it sends `COMMIT`. -/
theorem Stage.Expects.mayCommit {stage : Stage} (h : stage.Expects t) (hmay : stage.MayCommit) :
    t.MayCommit ∧ t.aborted = false := by
  cases stage with
  | idle | opened | read | executed => exact hmay.elim
  | written c prior ran result =>
      obtain ⟨hreceipt, heffects, -, -, haborted⟩ := h
      refine ⟨?_, haborted⟩
      rcases hmay with ⟨rfl, ⟨hprior, -⟩ | hwaits⟩ | ⟨rfl, hsuccess, hprior⟩
      · exact .inl ⟨heffects, by simp [hreceipt, hprior]⟩
      · refine .inl ⟨heffects, ?_⟩
        rw [hreceipt]
        split
        · rfl
        · exact hwaits
      · exact .inr ⟨result, heffects, by simp [hreceipt, hprior], hsuccess⟩

theorem commit_advances {answer : Except Failure Unit} (hsound : db.Sound) (hknows : db.Knows m)
    (hconn : m.stage.conn = some conn) (hmay : m.stage.MayCommit)
    (hworld : db.Commit conn answer db') :
    db.Advances m db' (transactional.next m ⟨.commit conn, answer⟩) := by
  have hclosed : ∀ c u, (db.close conn).transactions c = some u → db.transactions c = some u :=
    fun c u hopen => (transactions_close hopen).2
  unfold Commit at hworld
  split at hworld
  · obtain ⟨⟨e, rfl⟩, rfl⟩ := hworld
    exact .ended (.next le_rfl) (fun _ _ hopen => hopen) rfl hknows.settled
  · rename_i t hopen
    obtain ⟨hmay', haborted⟩ := Stage.Expects.mayCommit (hknows.expects conn t hconn hopen) hmay
    rcases hworld with rfl | ⟨⟨e, rfl⟩, rfl | rfl⟩
    · rw [haborted]
      have hmoves : db.Moves (db.committed conn t) := .committed hopen hmay'
      cases answer with
      | error e =>
          exact .ended hmoves hclosed rfl (fun h => hsound.settled_mono hmoves (hknows.settled h))
      | ok _ =>
          -- A final result was found there, or is the receipt that is committed.
          cases hstage : m.stage with
          | idle | opened | read | executed =>
              rw [hstage] at hmay
              exact hmay.elim
          | written c prior ran result =>
              rw [hstage] at hmay
              have hexpects := hknows.expects conn t hconn hopen
              rw [hstage] at hexpects
              apply Advances.ended hmoves hclosed
              · simp [transactional, hstage]
              · intro h
                simp only [transactional, hstage, Bool.or_eq_true] at h
                rcases h with h | hfinal
                · exact hsound.settled_mono hmoves (hknows.settled h)
                · rcases hmay with ⟨-, ⟨hprior, -⟩ | hwaits⟩ | ⟨-, -, hprior⟩
                  · exact hsound.settled_mono hmoves (hknows.found c prior ran result hstage hprior)
                  · rw [hfinal] at hwaits
                    cases hwaits
                  · simp [settled, committed, hexpects.1, hprior, hfinal]
    · have hmoves : db.Moves (db.close conn) := .closed conn
      exact .ended hmoves hclosed rfl (fun h => hsound.settled_mono hmoves (hknows.settled h))
    · refine .put hknows hconn (.changed hopen rfl fun _ => hmay') rfl (.inr rfl) trivial ?_
      intro c prior ran result hm
      cases hm

theorem rollback_advances {answer : Except Failure Unit} (hsound : db.Sound) (hknows : db.Knows m)
    (hworld : db.world ⟨.rollback conn, answer⟩ db') :
    db.Advances m db' (transactional.next m ⟨.rollback conn, answer⟩) := by
  rcases hworld with rfl | ⟨-, rfl⟩
  · have hmoves : db.Moves (db.close conn) := .closed conn
    exact .ended hmoves (fun c u hopen => (transactions_close hopen).2) rfl
      (fun h => hsound.settled_mono hmoves (hknows.settled h))
  · exact .ended (.next le_rfl) (fun _ _ hopen => hopen) rfl hknows.settled

/-- A success is recorded by the service only where a final receipt is stored. -/
theorem record_advances {key : String} {result : HostActionResult}
    {answer : Except Failure (ServiceOp.record key result).Value}
    (hknows : db.Knows m) (hallows : result.isSuccess = true → m.settled = true)
    (hworld : db.world ⟨.service (.record key result), answer⟩ db') (hsound : db.Sound) :
    db.Advances m db' m := by
  rcases hworld with ⟨hunlocked, rfl⟩ | ⟨-, rfl⟩
  · have hmoves : db.Moves (db.recorded result) := by
      apply Moves.recorded hunlocked
      intro hsettled
      by_contra hsuccess
      have hknown := hknows.settled (hallows (Bool.eq_true_of_not_eq_false hsuccess))
      rw [hsettled] at hknown
      cases hknown
    have hkeeps : ∀ c t, (db.recorded result).transactions c = some t →
        db.transactions c = some t := by
      intro c t hopen
      unfold recorded at hopen
      split at hopen <;> exact hopen
    constructor
    · exact hmoves
    · exact hknows.of_moves hsound hmoves (fun c t _ => hkeeps c t)
    · exact fun c t _ => hkeeps c t
    · exact fun c hc => .inl hc
  · exact .same hknows (fun _ hc => hc)

theorem neutral_advances {op : NativeOp} {answer : Except Failure op.Value}
    (hop : Native.NativeOp.isNeutral op = true) (hsound : db.Sound) (hknows : db.Knows m)
    (hallows : ∀ c, connection op = some c → m.stage.checking = some c)
    (hworld : db.world ⟨op, answer⟩ db') : db.Advances m db' m := by
  have hstatement : ∀ conn, connection op = some conn → db.Statement conn ⟨op, answer⟩ db' →
      db.Advances m db' m := by
    intro conn hop' h
    have hchecking := hallows conn hop'
    have hconn : m.stage.conn = some conn := by
      cases hstage : m.stage <;> rw [hstage] at hchecking <;> first | exact hchecking | cases hchecking
    have hexpects : ∀ t, m.stage.Expects t → m.stage.Expects { t with aborted := true } := by
      intro t hexpects
      cases hstage : m.stage <;> rw [hstage] at hexpects hchecking <;>
        first | exact hexpects | cases hchecking
    apply Advances.statement hsound hknows hconn h rfl (.inl hconn) hknows.found
    · intro t t' hopen _ hexpects hdone
      obtain rfl : t' = t := by
        cases op <;> first | exact hdone | cases hop
      exact ⟨.changed hopen rfl (hsound.committing conn _ hopen), hexpects⟩
    · exact fun t _ _ h => ⟨h, hexpects t h⟩
  have hstated : ∀ conn, connection op = some conn → db.Statement conn ⟨op, answer⟩ db' := by
    intro conn hconn
    cases op <;> cases hconn <;> exact hworld
  have hsame : connection op = none → db' = db := by
    intro hnone
    cases op <;> cases hnone <;> first | exact hworld | cases hop
  cases hconnection : connection op with
  | some conn => exact hstatement conn hconnection (hstated conn hconnection)
  | none =>
      obtain rfl : db' = db := hsame hconnection
      exact .same hknows (fun _ hc => hc)

/-- A call that awaits what it may moves the database soundly, and goes on knowing it. -/
theorem Knows.step {event : NativeEvent} (hknows : db.Knows m) (hsound : db.Sound)
    (hallows : transactional.allows m event.op) (hworld : db.world event db') :
    db.Advances m db' (transactional.next m event) := by
  obtain ⟨op, answer⟩ := event
  cases op with
  | connect => exact connect_advances hsound hknows hworld
  | begin_ => exact begin_advances hknows hallows hworld
  | setTimeouts => exact setTimeouts_advances hsound hknows hallows hworld
  | selectReceipt => exact selectReceipt_advances hsound hknows hallows hworld
  | toolExecute c action input =>
      obtain ⟨conn, prior, rfl, hstage, -⟩ := hallows
      exact toolExecute_advances hsound hknows hstage hworld
  | insertReceipt =>
      obtain ⟨prior, hstage | ⟨ran, hstage⟩⟩ := hallows
      · exact insertReceipt_advances hsound hknows (.inl ⟨hstage, rfl⟩) hworld
      · exact insertReceipt_advances hsound hknows (.inr ⟨ran, hstage, rfl⟩) hworld
  | commit => exact commit_advances hsound hknows hallows.1 hallows.2 hworld
  | rollback => exact rollback_advances hsound hknows hworld
  | markInFlight | settleInFlight => exact hallows.elim
  | service op =>
      cases op with
      | record => exact record_advances hknows hallows hworld hsound
      | _ =>
          obtain rfl : db' = db := hworld
          exact .same hknows (fun _ hc => hc)
  | _ => exact neutral_advances rfl hsound hknows hallows hworld

end NativeDb

/-! ## Every run -/

/-- An execution of the tool answers with no approval of its own. -/
def NativeEvent.isFinal : NativeEvent → Prop
  | ⟨.toolExecute _ _ _, .ok result⟩ => result.isFinal = true
  | _ => True

/-- Calls for an action whose tool asks for no approval of its own. -/
def finalCalls (action : HostAction) :
    PoolSpec NativeDb NativeOp NativeOp.Value Failure ActionAnswer :=
  { nativeCalls action with
    world := fun db event db' => NativeEvent.isFinal event ∧ db.world event db' }

section Runs

variable {action : HostAction} {s s' : NativePool} {label : NativePoolStep}

/-- How far a call has come. -/
def NativeCall.state (call : Call NativeOp NativeOp.Value Failure ActionAnswer) : CallState :=
  transactional.after {} call.trace

structure NativeSound (s : NativePool) : Prop where
  sound : s.shared.Sound
  obeys : s.Each fun _ call => call.Obeys transactional (fun _ _ => True) {}
  knows : s.Each fun _ call => s.shared.Knows (NativeCall.state call)
  /-- No two calls have one connection. -/
  apart : s.Each fun index call => s.Each fun index' call' => index ≠ index' →
    ∀ c, (NativeCall.state call).stage.conn = some c → (NativeCall.state call').stage.conn ≠ some c

/-- What happens beside the calls moves the database soundly, and opens no transaction. -/
theorem NativeDb.Beside.moves {db db' : NativeDb} (h : db.Beside db') (hsound : db.Sound) :
    db.Moves db' ∧ ∀ c t, db'.transactions c = some t → db.transactions c = some t := by
  cases h with
  | lost conn => exact ⟨.closed conn, fun c t hopen => (transactions_close hopen).2⟩
  | late hopen hcommitting =>
      exact ⟨.committed hopen (hsound.committing _ _ hopen hcommitting),
        fun c t hopen => (transactions_close hopen).2⟩
  | receipt hunlocked hfailed =>
      refine ⟨.recorded hunlocked (fun _ => hfailed), fun c t hopen => ?_⟩
      unfold NativeDb.recorded at hopen
      split at hopen <;> exact hopen
  | others hle => exact ⟨.next hle, fun c t hopen => hopen⟩

theorem NativeSound.start (h : (finalCalls action).system.start s) : NativeSound s := by
  obtain ⟨hcalls, hshared⟩ := h
  have hnone : ∀ {Q}, s.Each Q := by
    intro Q index call hget
    rw [hcalls] at hget
    cases hget
  have hinit : s.shared = .init := hshared
  constructor
  · rw [hinit]
    constructor
    · refine .inl ⟨rfl, fun receipt hreceipt => ?_⟩
      cases hreceipt
    · intro conn t hopen
      cases hopen
    · intro conn t hopen
      cases hopen
    · intro conn t hopen
      cases hopen
  · exact hnone
  · exact hnone
  · exact hnone

/-- A call that begins has no transaction. -/
theorem NativeSound.begin {entry : Program NativeOp NativeOp.Value Failure ActionAnswer}
    (h : NativeSound s) (hentry : (nativeCalls action).entry entry) :
    NativeSound { s with calls := s.calls ++ [⟨[], entry⟩] } := by
  have hcases : ∀ {index : Nat} {call : Call NativeOp NativeOp.Value Failure ActionAnswer},
      (s.calls ++ [⟨[], entry⟩])[index]? = some call →
        s.calls[index]? = some call ∨ call = ⟨[], entry⟩ := by
    intro index call hget
    rw [List.getElem?_append] at hget
    split at hget
    · exact .inl hget
    · exact .inr (List.mem_singleton.1 (List.mem_of_getElem? hget))
  obtain ⟨service, cfg, proof, htransactional, rfl⟩ := hentry
  constructor
  · exact h.sound
  · intro index call hget
    rcases hcases hget with hget | rfl
    · exact h.obeys index call hget
    · exact Native.executeAction_obeys htransactional
  · intro index call hget
    rcases hcases hget with hget | rfl
    · exact h.knows index call hget
    · exact .of_idle rfl (fun hm => by cases hm)
  · intro index call hget index' call' hget' hne c hc
    rcases hcases hget with hget | rfl
    · rcases hcases hget' with hget' | rfl
      · exact h.apart index call hget index' call' hget' hne c hc
      · nofun
    · cases hc

/-- The call that steps moves its own transaction only. -/
theorem NativeSound.advance {index : Nat} {event : NativeEvent} {trace : List NativeEvent}
    {next : Except Failure event.op.Value → Native ActionAnswer} (h : NativeSound s)
    (hget : s.calls[index]? = some ⟨trace, .await event.op next⟩) (hfinal : NativeEvent.isFinal event)
    (hworld : s.shared.world event s'.shared)
    (hcalls : s'.calls = s.calls.set index ⟨trace ++ [event], next event.answer⟩) :
    NativeSound s' ∧ s.shared.Moves s'.shared := by
  have hobeys := h.obeys index _ hget
  have hadvances := (h.knows index _ hget).step h.sound hobeys.1 hworld
  have hstate : NativeCall.state ⟨trace ++ [event], next event.answer⟩
      = transactional.next (NativeCall.state ⟨trace, .await event.op next⟩) event :=
    Monitor.after_concat _ _ _ _
  have hcases : ∀ {i call}, s'.calls[i]? = some call →
      (i = index ∧ call = ⟨trace ++ [event], next event.answer⟩)
        ∨ (index ≠ i ∧ s.calls[i]? = some call) := by
    intro i call hi
    rw [hcalls, List.getElem?_set] at hi
    split at hi
    · rename_i hsame
      split at hi
      · exact .inl ⟨hsame.symm, (Option.some.inj hi).symm⟩
      · cases hi
    · rename_i hne
      exact .inr ⟨hne, hi⟩
  -- A connection another call has is neither the old nor the new one of this call.
  have hother : ∀ {i call c}, index ≠ i → s.calls[i]? = some call →
      (NativeCall.state call).stage.conn = some c →
      (NativeCall.state ⟨trace, .await event.op next⟩).stage.conn ≠ some c
        ∧ (NativeCall.state ⟨trace ++ [event], next event.answer⟩).stage.conn ≠ some c := by
    intro i call c hne hi hc
    have hold := h.apart i call hi index _ hget (Ne.symm hne) c hc
    refine ⟨hold, fun hnew => ?_⟩
    rw [hstate] at hnew
    rcases hadvances.conn c hnew with hsame | hle
    · exact hold hsame
    · exact absurd ((h.knows i call hi).fresh c hc) (Nat.not_lt.2 hle)
  refine ⟨?_, hadvances.moves⟩
  constructor
  · exact h.sound.step hadvances.moves
  · intro i call hi
    rcases hcases hi with ⟨rfl, rfl⟩ | ⟨-, hi⟩
    · apply Call.Obeys.step hobeys
      obtain ⟨op, answer⟩ := event
      cases op <;> trivial
    · exact h.obeys i call hi
  · intro i call hi
    rcases hcases hi with ⟨rfl, rfl⟩ | ⟨hne, hi⟩
    · rw [hstate]
      exact hadvances.knows
    · apply (h.knows i call hi).of_moves h.sound hadvances.moves
      intro c t hc hopen
      exact hadvances.keeps c t (hother hne hi hc).1 hopen
  · intro i call hi j call' hj hne c hc
    rcases hcases hi with ⟨rfl, rfl⟩ | ⟨hi', hi⟩
    · rcases hcases hj with ⟨rfl, -⟩ | ⟨hj', hj⟩
      · exact absurd rfl hne
      · intro hc'
        exact (hother hj' hj hc').2 hc
    · rcases hcases hj with ⟨rfl, rfl⟩ | ⟨hj', hj⟩
      · exact (hother hi' hi hc).2
      · exact h.apart i call hi j call' hj hne c hc

theorem NativeSound.step (h : NativeSound s) (hstep : (finalCalls action).system.step s label s') :
    NativeSound s' ∧ s.shared.Moves s'.shared := by
  cases label with
  | begin entry =>
      obtain ⟨hentry, rfl⟩ := hstep
      exact ⟨h.begin hentry, .next le_rfl⟩
  | step index event =>
      obtain ⟨trace, next, hget, ⟨hfinal, hworld⟩, hcalls⟩ := hstep
      exact h.advance hget hfinal hworld hcalls
  | other =>
      obtain ⟨hbeside, hcalls⟩ := hstep
      obtain ⟨hmoves, hkeeps⟩ := NativeDb.Beside.moves hbeside h.sound
      refine ⟨⟨h.sound.step hmoves, ?_, ?_, ?_⟩, hmoves⟩
      · rw [Pool.Each, hcalls]
        exact h.obeys
      · intro index call hget
        rw [hcalls] at hget
        exact (h.knows index call hget).of_moves h.sound hmoves (fun c t _ => hkeeps c t)
      · simp only [Pool.Each, hcalls]
        exact h.apart

/-- The effects of the tool are committed at most once, and exactly when the receipt
    is the success of that execution; a final receipt is never replaced. -/
theorem transactional_effects_committed_once {labels : List NativePoolStep}
    (hreach : (finalCalls action).system.Reachable s)
    (hrun : (finalCalls action).system.Run s labels s') :
    s.shared.Agrees ∧ ∀ receipt, s.shared.receipt = some receipt → receipt.isFinal = true →
      s'.shared.receipt = some receipt := by
  have hsound : NativeSound s := hreach.invariant NativeSound.start (fun hs h => (hs.step h).1)
  refine ⟨hsound.sound.agrees, fun receipt hreceipt hfinal => ?_⟩
  have hkept : NativeSound s' ∧ s'.shared.receipt = some receipt := by
    apply hrun.preserves (I := fun u => NativeSound u ∧ u.shared.receipt = some receipt)
    · rintro u e u' ⟨hu, hu_receipt⟩ hstep
      obtain ⟨hu', hmoves⟩ := hu.step hstep
      refine ⟨hu', ?_⟩
      rw [hu.sound.receipt_eq hmoves (by simpa [NativeDb.settled, hu_receipt] using hfinal)]
      exact hu_receipt
    · exact ⟨hsound, hreceipt⟩
  exact hkept.2

end Runs

/-! ## A payment in one transaction -/

section Payment

namespace NativeDb

variable {db : NativeDb} {α : Type}

/-- A statement of an open transaction. -/
def within (db : NativeDb) (conn : Nat) (f : Transaction → Except Failure α × Transaction) :
    Except Failure α × NativeDb :=
  match db.transactions conn with
  | none => (.error (.error "the connection is lost"), db)
  | some t =>
      if t.aborted then (.error (.error "the transaction is aborted"), db.put conn t)
      else ((f t).1, db.put conn (f t).2)

/-- Nobody writes the receipt, other than one connection. -/
def unlocked (db : NativeDb) (except : Option Nat) : Bool :=
  (List.range db.next).all (fun conn => (db.transactions conn).all (fun t =>
    t.receipt.isNone || some conn == except))

/-- The open transactions are those of connections that were given out. -/
def Known (db : NativeDb) : Prop := ∀ conn t, db.transactions conn = some t → conn < db.next

theorem Known.unlocked_iff (h : db.Known) {except : Option Nat} (hunlocked : db.unlocked except = true) :
    db.Unlocked except := by
  intro conn t hopen hwrites
  have hconn := List.all_eq_true.1 hunlocked conn (List.mem_range.2 (h conn t hopen))
  rw [hopen] at hconn
  simpa [Option.isNone_iff_eq_none, Option.isSome_iff_ne_none.1 hwrites] using hconn

theorem Known.put (h : db.Known) {conn : Nat} {t t' : Transaction}
    (hopen : db.transactions conn = some t) : (db.put conn t').Known := by
  intro c u hu
  rcases transactions_put hu with ⟨rfl, -⟩ | ⟨-, hu⟩
  · exact h c t hopen
  · exact h c u hu

theorem Known.within (h : db.Known) {conn : Nat}
    {f : Transaction → Except Failure α × Transaction} : (db.within conn f).2.Known := by
  unfold NativeDb.within
  split
  · exact h
  · rename_i hopen
    split
    · exact h.put hopen
    · exact h.put hopen

theorem within_statement {conn : Nat} {op : NativeOp}
    {f : Transaction → Except Failure op.Value × Transaction}
    (hsome : ∀ t, db.transactions conn = some t → db.Executed conn t ⟨op, (f t).1⟩ (f t).2
      ∨ (∃ failure, (f t).1 = .error failure) ∧ (f t).2 = t) :
    db.Statement conn ⟨op, (db.within conn f).1⟩ (db.within conn f).2 := by
  unfold Statement within
  cases hopen : db.transactions conn with
  | none =>
      refine ⟨rfl, ?_⟩
      cases op <;> trivial
  | some t =>
      simp only
      split
      · exact ⟨t, rfl, .inr ⟨⟨_, rfl⟩, .inl rfl⟩⟩
      · rename_i haborted
        refine ⟨_, rfl, ?_⟩
        rcases hsome t hopen with h | ⟨herror, hsame⟩
        · exact .inl ⟨Bool.eq_false_of_not_eq_true haborted, h⟩
        · exact .inr ⟨herror, .inl hsame⟩

end NativeDb

/-- The payment of the ledger's example, in a transaction of its own. -/
private def paymentTool : NativeTool where
  definition := { payTool with effect := .transaction }
  parse := .ok

private def paymentConfig : ExecutorConfig where
  sha256 _ := "h"
  toolContractHash tool := tool.name
  tools := [paymentTool]

private def paymentService : ServiceConfig := { payConfig with tools := [paymentTool.definition] }

private def payment : Native ActionAnswer :=
  Native.executeAction paymentService paymentConfig payProof (payAction 0)

private def paymentIntent : ActionIntent :=
  Service.newIntent paymentService ⟨payWork, 1, "pay", some paymentTool.definition, none⟩ (payAction 0)

/-- The database and the product, where the tool answers with `result`. -/
private def paymentHandler (result : HostActionResult) :
    Handler NativeDb NativeOp NativeOp.Value Failure
  | db, .connect => (.ok db.next, { db with next := db.next + 1 })
  | db, .begin_ conn _ =>
      if (db.transactions conn).isNone && conn < db.next then (.ok (), db.put conn {})
      else (.error (.error "no connection"), db)
  | db, .commit conn =>
      match db.transactions conn with
      | none => (.error (.error "the connection is lost"), db)
      | some t => (.ok (), if t.aborted then db.close conn else db.committed conn t)
  | db, .rollback conn => (.ok (), db.close conn)
  | db, .service (.record _ recorded) =>
      if db.unlocked none then (.ok recorded, db.recorded recorded)
      else (.error (.error "the receipt is locked"), db)
  | db, .service (.findIntent _) => (.ok (db.receipt.map fun _ => paymentIntent), db)
  | db, .service (.find _) => (.ok db.receipt, db)
  | db, .service (.reserve _ _ _) => (.ok (if db.receipt.isSome then .existing else .started), db)
  | db, .service (.unsettled _) => (.ok [], db)
  | db, .service op => ((payHandler .init op).1, db)
  | db, .setTimeouts conn => db.within conn fun t =>
      (.ok (), { t with snapshot := some (t.snapshot.getD db.receipt) })
  | db, .selectReceipt conn _ => db.within conn fun t =>
      match t.snapshot with
      | some prior => (.ok prior, t)
      | none => (.error (.error "no snapshot"), t)
  | db, .insertReceipt conn _ inserted => db.within conn fun t =>
      if db.unlocked (some conn) && decide (t.snapshot = some db.receipt) then
        (.ok (), { t with receipt := if db.settled then t.receipt else some inserted })
      else (.error (.error "could not serialize access"), t)
  | db, .toolExecute (some conn) _ _ => db.within conn fun t =>
      (.ok result, { t with effects := t.effects ++ [.ok result] })
  | db, .selectIntent (some conn) _ => db.within conn fun t => (.ok (some paymentIntent), t)
  | db, .lockAction conn _ _ => db.within conn fun t => (.ok (), t)
  | db, .authorizeConversation (some conn) _ => db.within conn fun t => (.ok (), t)
  | db, .assertObservation (some conn) _ _ => db.within conn fun t => (.ok (), t)
  | db, .authorize (some conn) _ _ => db.within conn fun t => (.ok (), t)
  | db, .throwIfAborted => (.ok (), db)
  | db, .acquire _ _ => (.ok (), db)
  | db, .markInFlight _ _ _ => (.error (.error "not asked for"), db)
  | db, .settleInFlight _ _ => (.error (.error "not asked for"), db)
  | db, .insertApproval conn _ _ _ _ => db.within conn fun t => (.error (.error "not asked for"), t)
  | db, .selectApproval conn _ => db.within conn fun t => (.error (.error "not asked for"), t)
  | db, .preview conn _ _ => db.within conn fun t => (.error (.error "not asked for"), t)
  | db, .toolExecute none _ _ => (.error (.error "not asked for"), db)
  | db, .selectIntent none _ => (.error (.error "not asked for"), db)
  | db, .authorizeConversation none _ => (.error (.error "not asked for"), db)
  | db, .assertObservation none _ _ => (.error (.error "not asked for"), db)
  | db, .authorize none _ _ => (.error (.error "not asked for"), db)

/-- The handler keeps to the database, and so does what it leaves behind. -/
private theorem paymentHandler_world (result : HostActionResult) (db : NativeDb) (op : NativeOp)
    (h : db.Known) : (paymentHandler result db op).2.Known
      ∧ db.world ⟨op, (paymentHandler result db op).1⟩ (paymentHandler result db op).2 := by
  cases op with
  | connect => exact ⟨fun c t hopen => (h c t hopen).trans (Nat.lt_succ_self _), rfl, rfl⟩
  | begin_ conn serializable =>
      simp only [paymentHandler]
      split
      · rename_i hfree
        rw [Bool.and_eq_true, Option.isNone_iff_eq_none, decide_eq_true_iff] at hfree
        refine ⟨fun c t hopen => ?_, .inl ⟨hfree.1, rfl⟩⟩
        rcases NativeDb.transactions_put hopen with ⟨rfl, -⟩ | ⟨-, hopen⟩
        · exact hfree.2
        · exact h c t hopen
      · exact ⟨h, .inr ⟨⟨_, rfl⟩, rfl⟩⟩
  | commit conn =>
      have hclosed : (db.close conn).Known := fun c t hopen => h c t (NativeDb.transactions_close hopen).2
      simp only [paymentHandler, NativeDb.world, NativeDb.Commit]
      cases hopen : db.transactions conn with
      | none => exact ⟨h, ⟨_, rfl⟩, rfl⟩
      | some t =>
          have hcommitted : (db.committed conn t).Known := hclosed
          refine ⟨?_, .inl rfl⟩
          dsimp only
          split
          · exact hclosed
          · exact hcommitted
  | rollback conn => exact ⟨fun c t hopen => h c t (NativeDb.transactions_close hopen).2, .inl rfl⟩
  | service op =>
      cases op with
      | record key recorded =>
          simp only [paymentHandler]
          split
          · rename_i hfree
            refine ⟨?_, .inl ⟨h.unlocked_iff hfree, rfl⟩⟩
            unfold NativeDb.recorded
            split
            · exact h
            · exact h
          · exact ⟨h, .inr ⟨⟨_, rfl⟩, rfl⟩⟩
      | _ => exact ⟨h, rfl⟩
  | setTimeouts conn =>
      exact ⟨h.within, NativeDb.within_statement fun t _ => .inl rfl⟩
  | selectReceipt conn key =>
      refine ⟨h.within, NativeDb.within_statement fun t _ => ?_⟩
      cases hsnapshot : t.snapshot with
      | none => exact .inr ⟨⟨_, rfl⟩, rfl⟩
      | some prior => exact .inl ⟨hsnapshot, rfl⟩
  | insertReceipt conn key inserted =>
      refine ⟨h.within, NativeDb.within_statement fun t _ => ?_⟩
      split
      · rename_i hfree
        rw [Bool.and_eq_true, decide_eq_true_iff] at hfree
        exact .inl ⟨h.unlocked_iff hfree.1, hfree.2, rfl⟩
      · exact .inr ⟨⟨_, rfl⟩, rfl⟩
  | toolExecute conn action input =>
      cases conn with
      | none => exact ⟨h, rfl⟩
      | some conn => exact ⟨h.within, NativeDb.within_statement fun t _ => .inl ⟨t.aborted, rfl⟩⟩
  | selectIntent conn | authorizeConversation conn | assertObservation conn | authorize conn =>
      cases conn with
      | none => exact ⟨h, rfl⟩
      | some conn => exact ⟨h.within, NativeDb.within_statement fun t _ => .inl rfl⟩
  | lockAction => exact ⟨h.within, NativeDb.within_statement fun t _ => .inl rfl⟩
  | insertApproval | selectApproval | preview =>
      exact ⟨h.within, NativeDb.within_statement fun t _ => .inl rfl⟩
  | throwIfAborted | acquire => exact ⟨h, rfl⟩
  | markInFlight | settleInFlight => exact ⟨h, trivial⟩

/-- The calls of the payment that are played, each to its end. -/
private def paymentMoves (first calls : Nat) :
    List (Move NativeOp NativeOp.Value Failure ActionAnswer) :=
  (List.range' first calls).flatMap (fun index =>
    .begin payment :: List.replicate 26 (.step index))

private def payments (result : HostActionResult) (calls : Nat) : NativePool :=
  (Pool.play (paymentHandler result) ⟨.init, []⟩ (paymentMoves 0 calls)).2

private theorem mem_paymentMoves {entry : Native ActionAnswer} {first calls : Nat}
    (h : Move.begin entry ∈ paymentMoves first calls) : entry = payment := by
  obtain ⟨index, -, hmem⟩ := List.mem_flatMap.1 h
  rcases List.mem_cons.1 hmem with heq | hmem
  · cases heq
    rfl
  · cases List.eq_of_mem_replicate hmem

private theorem payment_entry : (nativeCalls (payAction 0)).entry payment := by
  refine ⟨paymentService, paymentConfig, payProof, ⟨?_, paymentTool, rfl, rfl⟩, rfl⟩
  have hsplit : splitAction (payAction 0).action = some ("pay", "send") := by decide +kernel
  intro method h
  simp [hsplit] at h

private theorem known_init : NativeDb.init.Known := by
  intro c t hopen
  cases hopen

/-- What the plays come to, of a tool that asks for an approval itself and of one that pays. -/
private theorem payment_plays :
    (payments { ok := false, approval := some "own" } 2).shared.effects.length = 2
      ∧ (payments (payReceipt "executed") 1).shared.receipt = some (payReceipt "executed") := by
  decide +kernel

/-- A result of the tool that asks for an approval itself is committed with its effects,
    and the next call runs the tool again. -/
theorem suspended_effects_committed_twice : ∃ s : NativePool,
    (nativeCalls (payAction 0)).system.Reachable s ∧ s.shared.effects.length = 2
      ∧ ¬s.shared.Agrees := by
  have htwice := payment_plays.1
  refine ⟨payments { ok := false, approval := some "own" } 2, ?_, htwice, ?_⟩
  · refine ⟨⟨.init, []⟩, _, ⟨rfl, rfl⟩, (Pool.run_of_play_of (paymentHandler_world _) ?_ known_init).2⟩
    intro entry hentry
    exact mem_paymentMoves hentry ▸ payment_entry
  · rintro (⟨hnone, -⟩ | ⟨receipt, hone, -⟩)
    · simp [hnone] at htwice
    · simp [hone] at htwice

private theorem paymentHandler_final {result : HostActionResult} (hfinal : result.isFinal = true)
    (db : NativeDb) (op : NativeOp) : NativeEvent.isFinal ⟨op, (paymentHandler result db op).1⟩ := by
  cases op with
  | toolExecute conn action input =>
      cases conn with
      | none => trivial
      | some conn =>
          simp only [paymentHandler, NativeDb.within]
          split
          · trivial
          · split
            · trivial
            · exact hfinal
  | _ => trivial

/-- A payment that succeeds keeps its receipt when it is called again. -/
theorem transactional_effects_committed_once_paid :
    (payments (payReceipt "executed") 1).shared.Agrees
      ∧ (payments (payReceipt "executed") 1).shared.receipt = some (payReceipt "executed")
      ∧ (Pool.play (paymentHandler (payReceipt "executed")) (payments (payReceipt "executed") 1)
        (paymentMoves 1 1)).2.shared.receipt = some (payReceipt "executed") := by
  have hworld : ∀ db op, db.Known → (paymentHandler (payReceipt "executed") db op).2.Known
      ∧ (finalCalls (payAction 0)).world db ⟨op, (paymentHandler (payReceipt "executed") db op).1⟩
        (paymentHandler (payReceipt "executed") db op).2 := by
    intro db op h
    obtain ⟨hknown, hworld⟩ := paymentHandler_world (payReceipt "executed") db op h
    exact ⟨hknown, paymentHandler_final rfl db op, hworld⟩
  have hentries : ∀ first calls entry, .begin entry ∈ paymentMoves first calls →
      (finalCalls (payAction 0)).entry entry :=
    fun _ _ _ hentry => mem_paymentMoves hentry ▸ payment_entry
  obtain ⟨hknown, hfirst⟩ :=
    Pool.run_of_play_of (s := ⟨.init, []⟩) hworld (hentries 0 1) known_init
  obtain ⟨-, hsecond⟩ := Pool.run_of_play_of hworld (hentries 1 1) hknown
  obtain ⟨hagrees, hkept⟩ :=
    transactional_effects_committed_once ⟨⟨.init, []⟩, _, ⟨rfl, rfl⟩, hfirst⟩ hsecond
  exact ⟨hagrees, payment_plays.2, hkept _ payment_plays.2 rfl⟩

end Payment

end LingxiOS
