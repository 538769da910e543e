-- SUMMARY: Fenced leases: exclusivity and fencing of the abstract protocol.
import LingxiOS.Base.Transition
import Mathlib.Order.Lattice

/-! # Fenced Leases

Items are leased under a token until a deadline, and every lease carries a
fence number. Items that share a key may not be leased at the same time: a
second table locks each key for the item that holds it. Both tables only know
deadlines, so a lease may run out without anyone being told.

The protocol is stated over arbitrary items, keys, tokens and times. Its two
guarantees are that live leases of one key are the same lease (`Guarded`), and
that a proof that stopped being valid stays invalid (`Spent`). -/

namespace FencedLease

open Function

variable {ι κ θ τ : Type*}

/-- The lease of one item. A `held` grant past its deadline has run out. -/
structure Grant (κ θ τ : Type*) where
  key : κ
  fence : Nat
  held : Bool
  token : Option θ
  deadline : τ

/-- The lock on a key, with the lease it was taken for. -/
structure Lock (ι τ : Type*) where
  owner : ι
  fence : Nat
  deadline : τ

/-- What a leaseholder presents. -/
structure Proof (ι θ : Type*) where
  item : ι
  fence : Nat
  token : θ

structure State (ι κ θ τ : Type*) where
  grants : ι → Option (Grant κ θ τ)
  locks : κ → Option (Lock ι τ)
  clock : τ

/-- What one step does to the leases. Every other step is `idle`. -/
inductive Event (ι θ : Type*) where
  | idle
  | purge
  | register (i : ι)
  | issue (i : ι) (token : θ)
  | extend (i : ι)
  | withdraw (i : ι) (bump : Bool)

variable [LinearOrder τ]

/-- A held lease whose deadline lies ahead. -/
def Grant.live (g : Grant κ θ τ) (now : τ) : Prop := g.held ∧ now < g.deadline

/-- A proof is valid when its item is leased under its fence and token. -/
def Valid (s : State ι κ θ τ) (p : Proof ι θ) (now : τ) : Prop :=
  ∃ g, s.grants p.item = some g ∧ g.live now ∧ g.fence = p.fence ∧ g.token = some p.token

/-- The locks left after dropping those that have run out. -/
def purged (locks : κ → Option (Lock ι τ)) (now : τ) : κ → Option (Lock ι τ) :=
  fun k => (locks k).filter (fun l => now < l.deadline)

/-! ## What the protocol guarantees -/

/-- Every live lease holds the lock of its key, with its own fence and deadline. -/
def Guarded (s : State ι κ θ τ) (now : τ) : Prop :=
  ∀ i g, s.grants i = some g → g.live now → s.locks g.key = some ⟨i, g.fence, g.deadline⟩

theorem Guarded.mono {s : State ι κ θ τ} {now later : τ} (h : Guarded s now)
    (hle : now ≤ later) : Guarded s later := by
  intro i g hgrant hlive
  exact h i g hgrant ⟨hlive.1, hle.trans_lt hlive.2⟩

/-- Two live leases of one key are the same lease. -/
theorem Guarded.exclusive {s : State ι κ θ τ} {now : τ} (h : Guarded s now) {i j : ι}
    {g g' : Grant κ θ τ} (hi : s.grants i = some g) (hj : s.grants j = some g')
    (hlive : g.live now) (hlive' : g'.live now) (hkey : g.key = g'.key) : i = j := by
  have hlock := h i g hi hlive
  rw [hkey, h j g' hj hlive'] at hlock
  simp only [Option.some.injEq, Lock.mk.injEq] at hlock
  exact hlock.1.symm

private theorem purged_of_live {locks : κ → Option (Lock ι τ)} {now : τ} {k : κ}
    {l : Lock ι τ} (h : locks k = some l) (hlive : now < l.deadline) :
    purged locks now k = some l := by
  simp [purged, h, hlive]

/-- What remains true of an issued proof forever: its item stands at its fence
    or beyond, and at its fence carries its token or none. -/
def Issued (s : State ι κ θ τ) (p : Proof ι θ) : Prop :=
  ∃ g, s.grants p.item = some g ∧ p.fence ≤ g.fence ∧
    (g.fence = p.fence → g.token = some p.token ∨ g.token = none)

/-- An issued proof that is not valid. -/
def Spent (s : State ι κ θ τ) (p : Proof ι θ) (now : τ) : Prop :=
  Issued s p ∧ ¬ Valid s p now

theorem Spent.mono {s : State ι κ θ τ} {p : Proof ι θ} {now later : τ} (h : Spent s p now)
    (hle : now ≤ later) : Spent s p later := by
  refine ⟨h.1, ?_⟩
  rintro ⟨g, hgrant, hlive, hfence, htoken⟩
  exact h.2 ⟨g, hgrant, ⟨hlive.1, hle.trans_lt hlive.2⟩, hfence, htoken⟩

omit [LinearOrder τ] in
/-- A step that leaves the grant of a proof's item alone. -/
private theorem Issued.of_grant {s s' : State ι κ θ τ} {p : Proof ι θ} (h : Issued s p)
    (hgrant : s'.grants p.item = s.grants p.item) : Issued s' p := by
  simpa only [Issued, hgrant] using h

private theorem Valid.of_grant {s s' : State ι κ θ τ} {p : Proof ι θ} {now : τ}
    (h : Valid s' p now) (hgrant : s'.grants p.item = s.grants p.item) : Valid s p now := by
  simpa only [Valid, hgrant] using h

private theorem Valid.grant_eq {s : State ι κ θ τ} {p : Proof ι θ} {now : τ} {g : Grant κ θ τ}
    (h : Valid s p now) (hgrant : s.grants p.item = some g) :
    g.live now ∧ g.fence = p.fence ∧ g.token = some p.token := by
  obtain ⟨g', hgrant', hvalid⟩ := h
  obtain rfl := Option.some.inj (hgrant.symm.trans hgrant')
  exact hvalid

/-! ## Steps -/

variable [DecidableEq ι] [DecidableEq κ]

private theorem eq_of_update_self {α : Type*} {f : ι → Option α} {i : ι} {a b : α}
    (h : update f i (some a) i = some b) : b = a := by
  rw [update_self] at h
  exact (Option.some.inj h).symm

/-- Unlock a key if the given lease holds it. -/
def release (locks : κ → Option (Lock ι τ)) (k : κ) (i : ι) (fence : Nat) :
    κ → Option (Lock ι τ) :=
  update locks k ((locks k).filter (fun l => ¬ (l.owner = i ∧ l.fence = fence)))

/-- Move the deadline of a key's lock if the given lease holds it. -/
def prolong (locks : κ → Option (Lock ι τ)) (k : κ) (i : ι) (fence : Nat) (until_ : τ) :
    κ → Option (Lock ι τ) :=
  update locks k ((locks k).map (fun l =>
    if l.owner = i ∧ l.fence = fence then { l with deadline := until_ } else l))

/-- One step of the lease protocol at the time `now`. -/
inductive Change (now : τ) (s : State ι κ θ τ) : Event ι θ → State ι κ θ τ → Prop
  | idle : Change now s .idle s
  | purge : Change now s .purge { s with locks := purged s.locks now }
  | register (i : ι) (g : Grant κ θ τ) (habsent : s.grants i = none) (hheld : g.held = false)
      (hfence : g.fence = 0) :
      Change now s (.register i) { s with grants := update s.grants i (some g) }
  | issue {i : ι} {g : Grant κ θ τ} (token : θ) (until_ : τ) (hgrant : s.grants i = some g)
      (hfree : ∀ l, s.locks g.key = some l → l.deadline ≤ now) :
      Change now s (.issue i token)
        { s with grants := update s.grants i (some
                   { g with fence := g.fence + 1, held := true, token := some token,
                            deadline := until_ })
                 locks := update (purged s.locks now) g.key
                   (some ⟨i, g.fence + 1, until_⟩) }
  | extend {i : ι} {g : Grant κ θ τ} (until_ : τ) (hgrant : s.grants i = some g)
      (hlive : g.live now) :
      Change now s (.extend i)
        { s with grants := update s.grants i (some { g with deadline := until_ })
                 locks := prolong s.locks g.key i g.fence until_ }
  | withdraw {i : ι} {g : Grant κ θ τ} (g' : Grant κ θ τ) (bump : Bool) (hgrant : s.grants i = some g)
      (hlive : g.live now) (hkey : g'.key = g.key) (hheld : g'.held = false) (htoken : g'.token = none)
      (hfence : g'.fence = g.fence + bump.toNat) :
      Change now s (.withdraw i bump)
        { s with grants := update s.grants i (some g')
                 locks := release s.locks g.key i g.fence }

/-- A step of the protocol takes place at `now` and ends at `later`. -/
structure Label (ι θ τ : Type*) where
  event : Event ι θ
  now : τ
  later : τ

/-- The protocol as a system: the clock never runs backwards. -/
def system (t₀ : τ) : TransitionSystem (State ι κ θ τ) (Label ι θ τ) where
  start s := (∀ i, s.grants i = none) ∧ (∀ k, s.locks k = none) ∧ s.clock = t₀
  step s e s' :=
    s.clock ≤ e.now ∧ e.now ≤ e.later ∧
      ∃ t, Change e.now s e.event t ∧ s' = { t with clock := e.later }

/-! ## Exclusivity -/

/-- One step keeps live leases guarded. -/
theorem Change.guarded {now : τ} {s s' : State ι κ θ τ} {e : Event ι θ}
    (h : Change now s e s') (hinv : Guarded s now) : Guarded s' now := by
  cases h with
  | idle => exact hinv
  | purge =>
      intro j g hj hlive
      exact purged_of_live (hinv j g hj hlive) hlive.2
  | @register i g habsent hheld hfence =>
      intro j g' hj hlive
      by_cases hij : j = i
      · subst hij
        obtain rfl := eq_of_update_self hj
        simp [Grant.live, hheld] at hlive
      · exact hinv j g' (by simpa [hij] using hj) hlive
  | @issue i g token until_ hgrant hfree =>
      intro j g' hj hlive
      by_cases hij : j = i
      · subst hij
        obtain rfl := eq_of_update_self hj
        simp
      · have hj : s.grants j = some g' := by simpa [hij] using hj
        have hlock := hinv j g' hj hlive
        -- The issued key was free at `now`, so no other live lease can have it.
        have hkey : g'.key ≠ g.key := by
          intro heq
          exact absurd (hfree _ (heq ▸ hlock)) (not_le.2 hlive.2)
        simpa [hkey] using purged_of_live hlock hlive.2
  | @extend i g until_ hgrant hlive =>
      have hlock := hinv i g hgrant hlive
      intro j g' hj hlive'
      by_cases hij : j = i
      · subst hij
        obtain rfl := eq_of_update_self hj
        simp [prolong, hlock]
      · have hj : s.grants j = some g' := by simpa [hij] using hj
        have hkey : g'.key ≠ g.key := fun heq =>
          hij (hinv.exclusive hj hgrant hlive' hlive heq)
        simpa [prolong, hkey] using hinv j g' hj hlive'
  | @withdraw i g g₁ bump hgrant hlive hkey₁ hheld htoken hfence =>
      intro j g' hj hlive'
      by_cases hij : j = i
      · subst hij
        obtain rfl := eq_of_update_self hj
        simp [Grant.live, hheld] at hlive'
      · have hj : s.grants j = some g' := by simpa [hij] using hj
        have hkey : g'.key ≠ g.key := fun heq =>
          hij (hinv.exclusive hj hgrant hlive' hlive heq)
        simpa [release, hkey] using hinv j g' hj hlive'

/-- In every reachable state the live leases are guarded. -/
theorem guarded_of_reachable {t₀ : τ} {s : State ι κ θ τ} (h : (system t₀).Reachable s) :
    Guarded s s.clock := by
  refine h.invariant (I := fun s => Guarded s s.clock) ?_ ?_
  · intro s hstart i g hgrant
    simp [hstart.1 i] at hgrant
  · rintro s e s' hinv ⟨hnow, hlater, t, hchange, rfl⟩
    exact (hchange.guarded (hinv.mono hnow)).mono hlater

/-! ## Fencing -/

/-- How much an event moves the fence of an item. -/
def Event.bump (i : ι) : Event ι θ → Nat
  | .issue j _ => if j = i then 1 else 0
  | .withdraw j b => if j = i then b.toNat else 0
  | _ => 0

/-- An item keeps its key, and its fence moves by exactly what the event says. -/
theorem Change.fence {now : τ} {s s' : State ι κ θ τ} {e : Event ι θ} (h : Change now s e s')
    {i : ι} {g : Grant κ θ τ} (hi : s.grants i = some g) :
    ∃ g', s'.grants i = some g' ∧ g'.key = g.key ∧ g'.fence = g.fence + e.bump i := by
  cases h with
  | idle => exact ⟨g, hi, rfl, rfl⟩
  | purge => exact ⟨g, hi, rfl, rfl⟩
  | @register j g₁ habsent hheld hfence =>
      have hij : i ≠ j := by
        rintro rfl
        rw [habsent] at hi
        cases hi
      exact ⟨g, by simpa [hij] using hi, rfl, rfl⟩
  | @issue j g₁ token until_ hgrant hfree =>
      by_cases hij : i = j
      · subst hij
        obtain rfl := Option.some.inj (hgrant.symm.trans hi)
        exact ⟨_, update_self _ _ _, rfl, by simp [Event.bump]⟩
      · exact ⟨g, by simpa [hij] using hi, rfl, by simp [Event.bump, Ne.symm hij]⟩
  | @extend j g₁ until_ hgrant hlive =>
      by_cases hij : i = j
      · subst hij
        obtain rfl := Option.some.inj (hgrant.symm.trans hi)
        exact ⟨_, update_self _ _ _, rfl, rfl⟩
      · exact ⟨g, by simpa [hij] using hi, rfl, rfl⟩
  | @withdraw j g₁ g₂ bump hgrant hlive hkey hheld htoken hfence =>
      by_cases hij : i = j
      · subst hij
        obtain rfl := Option.some.inj (hgrant.symm.trans hi)
        exact ⟨_, update_self _ _ _, hkey, by simp [Event.bump, hfence]⟩
      · exact ⟨g, by simpa [hij] using hi, rfl, by simp [Event.bump, Ne.symm hij]⟩

/-- Issuing establishes the proof. -/
theorem Change.issued {now : τ} {s s' : State ι κ θ τ} {i : ι} {token : θ} {g : Grant κ θ τ}
    (h : Change now s (.issue i token) s') (hi : s.grants i = some g) :
    Issued s' ⟨i, g.fence + 1, token⟩ := by
  cases h with
  | issue token until_ hgrant hfree =>
      obtain rfl := Option.some.inj (hgrant.symm.trans hi)
      exact ⟨_, update_self _ _ _, Nat.le_refl _, fun _ => .inl rfl⟩

/-- What an issued proof left behind stays true. -/
theorem Change.known {now : τ} {s s' : State ι κ θ τ} {e : Event ι θ} (h : Change now s e s')
    {p : Proof ι θ} (hp : Issued s p) : Issued s' p := by
  obtain ⟨g, hg, hle, htok⟩ := id hp
  cases h with
  | idle => exact hp
  | purge => exact hp
  | @register j g₁ habsent hheld hfence =>
      have hij : p.item ≠ j := by
        rintro rfl
        rw [habsent] at hg
        cases hg
      exact hp.of_grant (update_of_ne hij _ _)
  | @issue j g₁ token until_ hgrant hfree =>
      by_cases hij : p.item = j
      · subst hij
        obtain rfl := Option.some.inj (hgrant.symm.trans hg)
        refine ⟨_, update_self _ _ _, Nat.le_succ_of_le hle, fun heq => ?_⟩
        have heq : g₁.fence + 1 = p.fence := heq
        omega
      · exact hp.of_grant (update_of_ne hij _ _)
  | @extend j g₁ until_ hgrant hlive =>
      by_cases hij : p.item = j
      · subst hij
        obtain rfl := Option.some.inj (hgrant.symm.trans hg)
        exact ⟨_, update_self _ _ _, hle, htok⟩
      · exact hp.of_grant (update_of_ne hij _ _)
  | @withdraw j g₁ g₂ bump hgrant hlive hkey hheld htoken hfence =>
      by_cases hij : p.item = j
      · subst hij
        obtain rfl := Option.some.inj (hgrant.symm.trans hg)
        exact ⟨_, update_self _ _ _, by omega, fun _ => .inr htoken⟩
      · exact hp.of_grant (update_of_ne hij _ _)

/-- A step makes no issued proof valid that was not valid before it. -/
theorem Change.valid {now : τ} {s s' : State ι κ θ τ} {e : Event ι θ} (h : Change now s e s')
    {p : Proof ι θ} (hp : Issued s p) (hvalid : Valid s' p now) : Valid s p now := by
  obtain ⟨g, hg, hle, htok⟩ := hp
  cases h with
  | idle => exact hvalid
  | purge => exact hvalid
  | @register j g₁ habsent hheld hfence =>
      have hij : p.item ≠ j := by
        rintro rfl
        rw [habsent] at hg
        cases hg
      exact hvalid.of_grant (update_of_ne hij _ _)
  | @issue j g₁ token until_ hgrant hfree =>
      by_cases hij : p.item = j
      · -- The new lease stands above the fence of every proof issued so far.
        subst hij
        obtain rfl := Option.some.inj (hgrant.symm.trans hg)
        have hfence : g₁.fence + 1 = p.fence := (hvalid.grant_eq (update_self _ _ _)).2.1
        omega
      · exact hvalid.of_grant (update_of_ne hij _ _)
  | @extend j g₁ until_ hgrant hlive =>
      by_cases hij : p.item = j
      · -- Only a live lease is extended.
        subst hij
        obtain ⟨-, hfence, htoken⟩ := hvalid.grant_eq (update_self _ _ _)
        exact ⟨g₁, hgrant, hlive, hfence, htoken⟩
      · exact hvalid.of_grant (update_of_ne hij _ _)
  | @withdraw j g₁ g₂ bump hgrant hlive hkey hheld htoken hfence =>
      by_cases hij : p.item = j
      · subst hij
        obtain ⟨hlive', -, -⟩ := hvalid.grant_eq (update_self _ _ _)
        simp [Grant.live, hheld] at hlive'
      · exact hvalid.of_grant (update_of_ne hij _ _)

/-- No step revives a spent proof. -/
theorem Change.spent {now : τ} {s s' : State ι κ θ τ} {e : Event ι θ} (h : Change now s e s')
    {p : Proof ι θ} (hp : Spent s p now) : Spent s' p now :=
  ⟨h.known hp.1, fun hvalid => hp.2 (h.valid hp.1 hvalid)⟩

/-- What an issued proof left behind stays true along every run. -/
theorem issued_of_run {t₀ : τ} {s s' : State ι κ θ τ} {es : List (Label ι θ τ)}
    (hrun : (system t₀).Run s es s') {p : Proof ι θ} (hp : Issued s p) : Issued s' p := by
  refine hrun.preserves (I := fun s => Issued s p) ?_ hp
  rintro s e s' hinv ⟨-, -, t, hchange, rfl⟩
  exact hchange.known hinv

/-- A spent proof stays spent along every run. -/
theorem spent_of_run {t₀ : τ} {s s' : State ι κ θ τ} {es : List (Label ι θ τ)}
    (hrun : (system t₀).Run s es s') {p : Proof ι θ} (hp : Spent s p s.clock) :
    Spent s' p s'.clock := by
  refine hrun.preserves (I := fun s => Spent s p s.clock) ?_ hp
  rintro s e s' hinv ⟨hnow, hlater, t, hchange, rfl⟩
  exact (hchange.spent (hinv.mono hnow)).mono hlater

end FencedLease
