-- SUMMARY: What a batch does to expired documents.
import LingxiOS.Memory.CommandLog

/-! # Expiry

A document expires when it is marked or when its time comes. Content that is given must
expire in the future; content that is moved keeps the expiry it had. -/

namespace LingxiOS

namespace Memories

/-! ## Expired documents -/

namespace DocumentRow

/-- The document is marked as expired, or its time has come. -/
def Expired (now : Int) (row : DocumentRow) : Prop :=
  row.status = .expired ∨ row.validUntil.any (· ≤ now) = true

/-- When an expired document expired. -/
def expiredAt (row : DocumentRow) : Option Int :=
  if row.status = .expired then some (millis row.updatedAt) else row.validUntil

/-- Its time, if it has one, has not come. -/
def Lasting (now : Int) (row : DocumentRow) : Prop := row.validUntil.all (now < ·) = true

/-- It is not active, or it has not expired. -/
def Current (now : Int) (row : DocumentRow) : Prop := row.status = .active → row.Lasting now

end DocumentRow

/-- A source of the call was observed after the document expired. -/
def Observed (env : MemoryEnv) (context : MemoryWriteContext) (row : DocumentRow) : Prop :=
  ∃ source ∈ context.sources, ∃ time ∈ source.observedAt.bind env.dateParse,
    ∃ expired ∈ row.expiredAt, expired < time

variable {call : MemoryCall} {documents documents' : Documents} {target : Versioned}
  {row current : DocumentRow} {sources : List MemorySource} {state state' : Progress}
  {change : MemoryChange} {changes : List MemoryChange} {index : Nat} {key : String × String}
  {ids ids' : List String}

namespace MemoryCall

/-- A document that is saved, as far as its expiry is concerned. -/
structure Renews (call : MemoryCall) (current row : DocumentRow) : Prop where
  active : row.status = .active
  version : row.version = current.version + 1
  renewed : current.Expired call.clock.host →
    row.validUntil.isSome = true ∧ Observed call.env call.context current

theorem checkExpired_eq_ok {draft : Draft} (h : call.checkExpired (some current) draft = .ok ())
    (hexpired : current.Expired call.clock.host) :
    draft.validUntil.isSome = true ∧ Observed call.env call.context current := by
  unfold checkExpired at h
  dsimp only at h
  rw [Except.guard_eq_ok_iff] at h
  have hrenewed := not_or.1 fun hfail => h.1 ⟨hexpired, hfail⟩
  obtain ⟨hsome, hobserved⟩ := hrenewed
  refine ⟨by simpa [Option.isSome_iff_ne_none] using hsome, ?_⟩
  rw [Bool.not_eq_true', Bool.not_eq_false, List.any_eq_true] at hobserved
  obtain ⟨source, hsource, htime⟩ := hobserved
  obtain ⟨time, htime, hafter⟩ := (Option.any_eq_true _ _).1 htime
  obtain ⟨expired, hexpired, hlt⟩ := (Option.any_eq_true _ _).1 hafter
  exact ⟨source, hsource, time, htime, expired, hexpired, of_decide_eq_true hlt⟩

theorem writeRow_expiry {current : Option DocumentRow} {draft : Draft}
    (h : call.writeRow current draft sources = .ok row) :
    row.status = .active ∧ row.validUntil = draft.validUntil := by
  unfold writeRow at h
  obtain ⟨_, -, h⟩ := Except.bind_ok h
  obtain ⟨_, -, h⟩ := Except.bind_ok h
  obtain ⟨_, -, h⟩ := Except.bind_ok h
  obtain ⟨_, -, h⟩ := Except.bind_ok h
  obtain ⟨_, -, h⟩ := Except.bind_ok h
  cases (Except.guard_eq_ok_iff.mp h).2
  exact ⟨rfl, rfl⟩

/-- What saving a new document does. -/
theorem save_none_eq_ok {draft : Draft} {saved : MemoryDocument × Documents}
    (h : call.save documents none draft sources index = .ok saved) : ∃ row,
      saved = (memoryDocument (call.documentId index) row,
        documents.set (call.key (call.documentId index)) row)
      ∧ documents.get? (call.key (call.documentId index)) = none
      ∧ row.status = .active ∧ row.validUntil = draft.validUntil := by
  unfold save at h
  obtain ⟨_, -, h⟩ := Except.bind_ok h
  obtain ⟨row, hwrite, h⟩ := Except.bind_ok h
  obtain ⟨left, hsave, h⟩ := Except.bind_ok h
  unfold saveRow at hsave
  rw [Except.guard_eq_ok_iff, Except.guard_eq_ok_iff] at hsave
  obtain ⟨hnew, -, hsave⟩ := hsave
  cases hsave
  cases h
  refine ⟨row, rfl, ?_, writeRow_expiry hwrite⟩
  simpa [JsMap.has] using hnew

/-- What saving a document over the one that was read does. -/
theorem save_some_eq_ok {draft : Draft} {saved : MemoryDocument × Documents}
    (h : call.save documents (some (target.id, current)) draft sources index = .ok saved) : ∃ row,
      saved = (memoryDocument target.id row, documents.set (call.key target.id) row)
      ∧ call.Renews current row ∧ row.validUntil = draft.validUntil := by
  unfold save at h
  obtain ⟨_, hcheck, h⟩ := Except.bind_ok h
  obtain ⟨row, hwrite, h⟩ := Except.bind_ok h
  obtain ⟨left, hsave, h⟩ := Except.bind_ok h
  unfold saveRow at hsave
  rw [Except.guard_eq_ok_iff, Except.guard_eq_ok_iff] at hsave
  cases hsave.2.2
  cases h
  obtain ⟨hactive, huntil⟩ := writeRow_expiry hwrite
  obtain ⟨-, -, hversion⟩ := writeRow_eq_ok hwrite
  exact ⟨row, rfl, ⟨hactive, hversion, fun hexpired => huntil ▸ checkExpired_eq_ok hcheck hexpired⟩,
    huntil⟩

/-! ## One change -/

/-- What a change does to the document under a key. -/
inductive Effect (call : MemoryCall) (change : MemoryChange) (key : String × String)
    (old new : Option DocumentRow) : Prop
  | kept (same : new = old)
  | created (row : DocumentRow) (absent : old = none) (saved : new = some row)
      (lasting : row.Lasting call.clock.host)
  | deleted (target : Versioned) (names : change = .delete target) (place : key = call.key target.id)
      (gone : new = none)
  | inactive (target : Versioned) (names : target ∈ change.targets) (place : key = call.key target.id)
      (row : DocumentRow) (saved : new = some row) (status : row.status ≠ .active)
  | written (target : Versioned) (names : target ∈ change.targets) (place : key = call.key target.id)
      (current row : DocumentRow) (found : old = some current) (saved : new = some row)
      (renews : call.Renews current row) (lasting : row.Lasting call.clock.host)
  | moved (target : Versioned) (path : String) (names : change = .move target path)
      (place : key = call.key target.id) (current row : DocumentRow) (found : old = some current)
      (saved : new = some row) (renews : call.Renews current row)
      (until_ : row.validUntil = current.validUntil)

/-- Content that passed its checks does not expire before its time. -/
theorem draftOf_lasting {content : MemoryContent} {row : DocumentRow}
    (h : content.validUntil.join.all (isFuture call.env call.clock.host) = true)
    (huntil : row.validUntil = (call.draftOf content).validUntil) : row.Lasting call.clock.host := by
  unfold DocumentRow.Lasting
  rw [huntil, draftOf]
  cases hjoin : content.validUntil.join with
  | none => rfl
  | some text =>
      rw [hjoin] at h
      have hfuture := (Bool.and_eq_true_iff.1 h).2
      obtain ⟨time, htime, hlt⟩ := (Option.any_eq_true _ _).1 hfuture
      rw [Option.bind_some, htime]
      exact hlt

theorem get?_set_cases (call : MemoryCall) (documents : Documents) (id : String) (row : DocumentRow)
    (key : String × String) : key = call.key id ∧ (documents.set (call.key id) row).get? key = some row
      ∨ (documents.set (call.key id) row).get? key = documents.get? key := by
  rw [JsMap.get?_set]
  split
  case isTrue hkey => exact .inl ⟨hkey, rfl⟩
  case isFalse => exact .inr rfl

/-- A document is kept by the donors of a merge, or it has retired. -/
theorem retireDonors_effect {donors : List Versioned} {before after : List MemorySource × Documents}
    (h : donors.foldlM call.retireDonor before = .ok after) (key : String × String) :
    after.2.get? key = before.2.get? key ∨ ∃ donor ∈ donors, key = call.key donor.id
      ∧ ∃ row, after.2.get? key = some row ∧ row.status ≠ .active := by
  induction donors generalizing before with
  | nil =>
      cases h
      exact .inl rfl
  | cons donor donors ih =>
      obtain ⟨middle, hdonor, hrest⟩ := Except.foldlM_cons_eq_ok_iff.mp h
      rcases ih hrest with hkept | ⟨other, hother, hretired⟩
      · obtain ⟨row, hget, hdonor⟩ := Except.bind_ok hdonor
        obtain ⟨donorSources, -, hdonor⟩ := Except.bind_ok hdonor
        cases hdonor
        rcases call.get?_set_cases before.2 donor.id _ key with ⟨hkey, hset⟩ | hset
        · exact .inr ⟨donor, List.mem_cons_self, hkey, _, hkept.trans hset, nofun⟩
        · exact .inl (hkept.trans hset)
      · exact .inr ⟨other, List.mem_cons_of_mem _ hother, hretired⟩

/-- Saving over the document a change names, with content of its own. -/
theorem effect_of_written {content : MemoryContent} {saved : MemoryDocument × Documents}
    (hget : call.get state.2 target = .ok current) (hnames : target ∈ change.targets)
    (hbetween : call.Effect change key (state.2.get? key) (documents.get? key))
    (hfuture : content.validUntil.join.all (isFuture call.env call.clock.host) = true)
    (h : call.save documents (some (target.id, current)) (call.draftOf content) sources index
      = .ok saved) :
    call.Effect change key (state.2.get? key) (saved.2.get? key)
      ∧ saved.1.Current call.clock.host := by
  obtain ⟨row, rfl, hrenews, huntil⟩ := save_some_eq_ok h
  have hlasting : row.Lasting call.clock.host := draftOf_lasting hfuture huntil
  refine ⟨?_, fun _ => hlasting⟩
  rcases call.get?_set_cases documents target.id row key with ⟨hkey, hrow⟩ | hsame
  · exact .written target hnames hkey current row (hkey ▸ (get_eq_ok hget).1) hrow hrenews hlasting
  · exact hsame ▸ hbetween

/-- A document that is answered is current, or it is one that was moved. -/
def Answered (call : MemoryCall) (change : MemoryChange) (documents : Documents)
    (document : MemoryDocument) : Prop :=
  document.Current call.clock.host ∨ ∃ target path current, change = .move target path
    ∧ documents.get? (call.key target.id) = some current ∧ document.validUntil = current.validUntil

theorem answered_of_add {saved : MemoryDocument × Documents}
    (h : call.Answered change state.2 saved.1) : ∀ document ∈ (state.add saved).1.documents,
      document ∈ state.1.documents ∨ call.Answered change state.2 document := by
  intro document hdocument
  rcases List.mem_append.1 hdocument with hold | hnew
  · exact .inl hold
  · exact .inr (List.mem_singleton.1 hnew ▸ h)

/-- A move saves the document it names with the expiry that document had. -/
theorem applyChange_move {path : String}
    (h : call.applyChange state (.move target path, index) = .ok state') : ∃ current row,
      state.2.get? (call.key target.id) = some current ∧ call.Renews current row
        ∧ row.validUntil = current.validUntil
        ∧ state' = state.add (memoryDocument target.id row, state.2.set (call.key target.id) row) := by
  obtain ⟨current, hget, h⟩ := Except.bind_ok h
  obtain ⟨sources, -, h⟩ := Except.bind_ok h
  obtain ⟨-, -, h⟩ := Except.bind_ok h
  obtain ⟨saved, hsave, h⟩ := Except.bind_ok h
  cases h
  obtain ⟨row, rfl, hrenews, huntil⟩ := save_some_eq_ok hsave
  exact ⟨current, row, (get_eq_ok hget).1, hrenews, huntil, rfl⟩

/-- What a change does under each key, and what it answers. -/
theorem applyChange_effect (h : call.applyChange state (change, index) = .ok state')
    (hfuture : ∀ content ∈ change.content,
      content.validUntil.join.all (isFuture call.env call.clock.host) = true) :
    (∀ key, call.Effect change key (state.2.get? key) (state'.2.get? key))
      ∧ ∀ document ∈ state'.1.documents, document ∈ state.1.documents
        ∨ call.Answered change state.2 document := by
  cases change with
  | create content =>
      obtain ⟨sources, -, h⟩ := Except.bind_ok h
      obtain ⟨-, -, h⟩ := Except.bind_ok h
      obtain ⟨saved, hsave, h⟩ := Except.bind_ok h
      cases h
      obtain ⟨row, rfl, habsent, -, huntil⟩ := save_none_eq_ok hsave
      have hlasting : row.Lasting call.clock.host := draftOf_lasting (hfuture _ rfl) huntil
      refine ⟨fun key => ?_, answered_of_add (.inl fun _ => hlasting)⟩
      rcases call.get?_set_cases state.2 (call.documentId index) row key with ⟨hkey, hrow⟩ | hsame
      · exact .created row (hkey ▸ habsent) hrow hlasting
      · exact .kept hsame
  | update target content =>
      obtain ⟨current, hget, h⟩ := Except.bind_ok h
      obtain ⟨sources, -, h⟩ := Except.bind_ok h
      obtain ⟨-, -, h⟩ := Except.bind_ok h
      obtain ⟨saved, hsave, h⟩ := Except.bind_ok h
      cases h
      have heffect (key : String × String) :
          call.Effect (.update target content) key (state.2.get? key) (saved.2.get? key)
            ∧ saved.1.Current call.clock.host :=
        effect_of_written hget List.mem_cons_self (.kept rfl) (hfuture _ rfl) hsave
      exact ⟨fun key => (heffect key).1, answered_of_add (.inl (heffect (call.key target.id)).2)⟩
  | move target path =>
      obtain ⟨current, row, hfound, hrenews, huntil, rfl⟩ := applyChange_move h
      refine ⟨fun key => ?_, answered_of_add (.inr ⟨target, path, current, rfl, hfound, huntil⟩)⟩
      rcases call.get?_set_cases state.2 target.id row key with ⟨hkey, hrow⟩ | hsame
      · exact .moved target path rfl hkey current row (hkey ▸ hfound) hrow hrenews huntil
      · exact .kept hsame
  | expire target =>
      obtain ⟨current, hget, h⟩ := Except.bind_ok h
      obtain ⟨sources, -, h⟩ := Except.bind_ok h
      cases h
      refine ⟨fun key => ?_, answered_of_add (.inl nofun)⟩
      rcases call.get?_set_cases state.2 target.id _ key with ⟨hkey, hrow⟩ | hsame
      · exact .inactive target List.mem_cons_self hkey _ hrow nofun
      · exact .kept hsame
  | merge target content from_ =>
      obtain ⟨current, hget, h⟩ := Except.bind_ok h
      obtain ⟨sources, -, h⟩ := Except.bind_ok h
      obtain ⟨-, -, h⟩ := Except.bind_ok h
      obtain ⟨⟨joined, documents⟩, hdonors, h⟩ := Except.bind_ok h
      dsimp only at h
      rw [Except.guard_eq_ok_iff] at h
      obtain ⟨saved, hsave, h⟩ := Except.bind_ok h.2
      cases h
      -- The donors retire first; the document itself is written over what they leave.
      have hbetween (key : String × String) : call.Effect (.merge target content from_) key
          (state.2.get? key) (documents.get? key) := by
        rcases retireDonors_effect hdonors key with hkept | ⟨donor, hdonor, hkey, row, hrow, hretired⟩
        · exact .kept hkept
        · exact .inactive donor (List.mem_cons_of_mem _ hdonor) hkey row hrow hretired
      have heffect (key : String × String) :=
        effect_of_written hget List.mem_cons_self (hbetween key) (hfuture _ rfl) hsave
      exact ⟨fun key => (heffect key).1, answered_of_add (.inl (heffect (call.key target.id)).2)⟩
  | delete target =>
      obtain ⟨current, hget, h⟩ := Except.bind_ok h
      obtain ⟨-, -, h⟩ := Except.bind_ok h
      cases (Except.guard_eq_ok_iff.mp h).2
      refine ⟨fun key => ?_, fun document hdocument => .inl hdocument⟩
      have hdelete := JsMap.get?_delete state.2 (call.key target.id) key
      split at hdelete
      case isTrue hkey => exact .deleted target rfl hkey hdelete
      case isFalse => exact .kept hdelete

/-! ## A batch -/

/-- No move takes up a document whose time has come. -/
def NoStaleMove (call : MemoryCall) (documents : Documents) (changes : List MemoryChange) : Prop :=
  ∀ target path, .move target path ∈ changes → ∀ row,
    documents.get? (call.key target.id) = some row → row.Lasting call.clock.host

theorem key_injective {id id' : String} (h : call.key id = call.key id') : id = id' :=
  (Prod.mk.inj h).2

theorem Renews.ne (h : call.Renews current row) : row ≠ current := by
  rintro rfl
  have hversion := h.version
  omega

/-- What no target names is kept, unless it was created. -/
theorem Effect.frame {id : String} {old new : Option DocumentRow}
    (h : call.Effect change (call.key id) old new) (hid : ∀ target ∈ change.targets, target.id ≠ id) :
    new = old ∨ old = none ∧ ∃ row, new = some row ∧ row.Lasting call.clock.host := by
  cases h with
  | kept same => exact .inl same
  | created row absent saved lasting => exact .inr ⟨absent, row, saved, lasting⟩
  | deleted target names place gone =>
      subst names
      exact absurd (key_injective place).symm (hid target List.mem_cons_self)
  | inactive target names place => exact absurd (key_injective place).symm (hid target names)
  | written target names place => exact absurd (key_injective place).symm (hid target names)
  | moved target path names place =>
      subst names
      exact absurd (key_injective place).symm (hid target List.mem_cons_self)

/-- The rest of a batch keeps a document whose identity was claimed before. -/
theorem applyChanges_kept {hostNow : Int} {k : Nat} {id : String}
    (hparse : changes.foldlM (parseDocumentChange call.env hostNow) ids = .ok ids')
    (hfuture : Unexpired call.env call.clock.host changes)
    (h : (changes.zipIdx k).foldlM call.applyChange state = .ok state') (hid : id ∈ ids)
    (hrow : state.2.get? (call.key id) = some row) : state'.2.get? (call.key id) = some row := by
  induction changes generalizing ids state k with
  | nil =>
      cases h
      exact hrow
  | cons change changes ih =>
      obtain ⟨claimed, hclaimed, hrest⟩ := Except.foldlM_cons_eq_ok_iff.mp hparse
      obtain ⟨hsub, -, hout⟩ := parseDocumentChange_claims hclaimed
      obtain ⟨hfirst, hothers⟩ := List.forall_mem_cons.mp hfuture
      rw [List.zipIdx_cons] at h
      obtain ⟨middle, hchange, hbatch⟩ := Except.foldlM_cons_eq_ok_iff.mp h
      have heffect := ((applyChange_effect hchange hfirst).1 (call.key id)).frame
        fun target htarget heq => hout target htarget (heq ▸ hid)
      refine ih hrest hothers hbatch (hsub hid) ?_
      rcases heffect with hkept | ⟨habsent, -⟩
      · exact hkept.trans hrow
      · rw [hrow] at habsent
        cases habsent

/-- Documents that are written or answered are current when no stale document is moved. -/
theorem Effect.kept_or_current {old new : Option DocumentRow} (h : call.Effect change key old new)
    (hmoves : ∀ target path, change = .move target path → key = call.key target.id →
      ∀ row ∈ old, row.Lasting call.clock.host) :
    new = old ∨ ∀ row ∈ new, row.Current call.clock.host := by
  have hall {saved : DocumentRow} (hnew : new = some saved) (hcurrent : saved.Current call.clock.host) :
      ∀ row ∈ new, row.Current call.clock.host := fun row hrow => by
    rw [hnew] at hrow
    exact Option.some.inj hrow ▸ hcurrent
  cases h with
  | kept same => exact .inl same
  | created row absent saved lasting => exact .inr (hall saved fun _ => lasting)
  | deleted target names place gone =>
      refine .inr fun row hrow => ?_
      rw [gone] at hrow
      cases hrow
  | inactive target names place row saved status =>
      exact .inr (hall saved fun hactive => absurd hactive status)
  | written target names place current row found saved renews lasting =>
      exact .inr (hall saved fun _ => lasting)
  | moved target path names place current row found saved renews until_ =>
      have hlasting := hmoves target path names place current found
      exact .inr (hall saved fun _ => by rwa [DocumentRow.Lasting, until_])

/-- The documents a batch moves are, behind its first change, those it found or new ones. -/
theorem NoStaleMove.rest {claimed : List String} {hostNow : Int}
    (hmoves : call.NoStaleMove documents (change :: changes))
    (heffect : ∀ key, call.Effect change key (documents.get? key) (documents'.get? key))
    (hclaimed : ∀ target ∈ change.targets, target.id ∈ claimed)
    (hrest : changes.foldlM (parseDocumentChange call.env hostNow) claimed = .ok ids') :
    call.NoStaleMove documents' changes := by
  intro target path hmove row hrow
  have hfresh : target.id ∉ claimed := foldlM_parse_claims hrest _ hmove target List.mem_cons_self
  have hframe := (heffect (call.key target.id)).frame
    fun other hother heq => hfresh (heq ▸ hclaimed other hother)
  rcases hframe with hkept | ⟨-, created, hcreated, hlasting⟩
  · exact hmoves target path (List.mem_cons_of_mem _ hmove) row (hkept ▸ hrow)
  · rw [hrow] at hcreated
    exact Option.some.inj hcreated ▸ hlasting

theorem applyChanges_current {hostNow : Int} {k : Nat}
    (hparse : changes.foldlM (parseDocumentChange call.env hostNow) ids = .ok ids')
    (hfuture : Unexpired call.env call.clock.host changes)
    (h : (changes.zipIdx k).foldlM call.applyChange state = .ok state')
    (hmoves : call.NoStaleMove state.2 changes) :
    (∀ key row, state'.2.get? key = some row →
        state.2.get? key = some row ∨ row.Current call.clock.host)
      ∧ ∀ document ∈ state'.1.documents,
        document ∈ state.1.documents ∨ document.Current call.clock.host := by
  induction changes generalizing ids state k with
  | nil =>
      cases h
      exact ⟨fun _ _ => .inl, fun _ => .inl⟩
  | cons change changes ih =>
      obtain ⟨claimed, hclaimed, hrest⟩ := Except.foldlM_cons_eq_ok_iff.mp hparse
      obtain ⟨-, hin, -⟩ := parseDocumentChange_claims hclaimed
      obtain ⟨hfirst, hothers⟩ := List.forall_mem_cons.mp hfuture
      rw [List.zipIdx_cons] at h
      obtain ⟨middle, hchange, hbatch⟩ := Except.foldlM_cons_eq_ok_iff.mp h
      obtain ⟨heffect, hanswered⟩ := applyChange_effect hchange hfirst
      obtain ⟨hrows, hdocuments⟩ := ih hrest hothers hbatch (hmoves.rest heffect hin hrest)
      refine ⟨fun key row hrow => ?_, fun document hdocument => ?_⟩
      · rcases hrows key row hrow with hmiddle | hcurrent
        · have hnow := (heffect key).kept_or_current fun target path names place row hold => hmoves target path
            (names ▸ List.mem_cons_self) row (place ▸ hold)
          rcases hnow with hkept | hall
          · exact .inl (hkept ▸ hmiddle)
          · exact .inr (hall row hmiddle)
        · exact .inr hcurrent
      · rcases hdocuments document hdocument with hmiddle | hcurrent
        · rcases hanswered document hmiddle with hold | hcurrent | hmoved
          · exact .inl hold
          · exact .inr hcurrent
          · obtain ⟨target, path, current, rfl, hfound, huntil⟩ := hmoved
            have hlasting := hmoves target path List.mem_cons_self current hfound
            exact .inr fun _ => by rwa [DocumentRow.Lasting, huntil]
        · exact .inr hcurrent

/-- A document that was expired is active again only on newer evidence and until later. -/
theorem applyChanges_renewed {hostNow : Int} {k : Nat} {id : String}
    (hparse : changes.foldlM (parseDocumentChange call.env hostNow) ids = .ok ids')
    (hfuture : Unexpired call.env call.clock.host changes)
    (h : (changes.zipIdx k).foldlM call.applyChange state = .ok state')
    (hmoves : call.NoStaleMove state.2 changes)
    (hfound : state.2.get? (call.key id) = some current) (hexpired : current.Expired call.clock.host)
    (hdeleted : id ∉ state'.1.deleted) (hrow : state'.2.get? (call.key id) = some row)
    (hchanged : row ≠ current) (hactive : row.status = .active) :
    Observed call.env call.context current ∧ row.validUntil.isSome = true
      ∧ row.Lasting call.clock.host := by
  induction changes generalizing ids state k with
  | nil =>
      cases h
      exact absurd (Option.some.inj (hrow.symm.trans hfound)) hchanged
  | cons change changes ih =>
      obtain ⟨claimed, hclaimed, hrest⟩ := Except.foldlM_cons_eq_ok_iff.mp hparse
      obtain ⟨-, hin, -⟩ := parseDocumentChange_claims hclaimed
      obtain ⟨hfirst, hothers⟩ := List.forall_mem_cons.mp hfuture
      rw [List.zipIdx_cons] at h
      obtain ⟨middle, hchange, hbatch⟩ := Except.foldlM_cons_eq_ok_iff.mp h
      obtain ⟨heffect, -⟩ := applyChange_effect hchange hfirst
      -- What this change writes under the key stays, since the identity is claimed.
      have hstays {target : Versioned} {saved : DocumentRow} (names : target ∈ change.targets)
          (place : call.key id = call.key target.id)
          (hsaved : middle.2.get? (call.key id) = some saved) : row = saved := by
        have hkept := applyChanges_kept hrest hothers hbatch
          (key_injective place ▸ hin target names) hsaved
        exact Option.some.inj (hrow.symm.trans hkept)
      cases heffect (call.key id) with
      | kept same =>
          exact ih hrest hothers hbatch (hmoves.rest heffect hin hrest) (same.trans hfound)
      | created saved absent =>
          rw [hfound] at absent
          cases absent
      | deleted target names place gone =>
          obtain ⟨-, hdeletions, -⟩ := applyChanges_answered hbatch
          have hgone := (applyChange_made hchange).deleted
          refine absurd ?_ hdeleted
          rw [hdeletions, hgone, names, key_injective place]
          simp [deletedId]
      | inactive target names place saved hsaved status =>
          exact absurd (hstays names place hsaved ▸ hactive) status
      | written target names place read saved found hsaved renews lasting =>
          obtain rfl := hstays names place hsaved
          obtain rfl : current = read := Option.some.inj (hfound.symm.trans found)
          obtain ⟨hsome, hobserved⟩ := renews.renewed hexpired
          exact ⟨hobserved, hsome, lasting⟩
      | moved target path names place read saved found hsaved renews until_ =>
          subst names
          obtain rfl := hstays List.mem_cons_self place hsaved
          obtain rfl : current = read := Option.some.inj (hfound.symm.trans found)
          obtain ⟨hsome, hobserved⟩ := renews.renewed hexpired
          have hlasting := hmoves target path List.mem_cons_self current (place ▸ hfound)
          exact ⟨hobserved, hsome, by rwa [DocumentRow.Lasting, until_]⟩

/-- A document whose time has come is active after it was moved. -/
theorem applyChanges_stale {hostNow : Int} {k : Nat} {path : String}
    (hparse : changes.foldlM (parseDocumentChange call.env hostNow) ids = .ok ids')
    (hfuture : Unexpired call.env call.clock.host changes)
    (h : (changes.zipIdx k).foldlM call.applyChange state = .ok state')
    (hmove : .move target path ∈ changes)
    (hfound : state.2.get? (call.key target.id) = some current)
    (hstale : ¬current.Lasting call.clock.host) : ∃ row,
      state'.2.get? (call.key target.id) = some row ∧ row ≠ current
        ∧ ¬row.Current call.clock.host := by
  induction changes generalizing ids state k with
  | nil => cases hmove
  | cons change changes ih =>
      obtain ⟨claimed, hclaimed, hrest⟩ := Except.foldlM_cons_eq_ok_iff.mp hparse
      obtain ⟨-, hin, -⟩ := parseDocumentChange_claims hclaimed
      obtain ⟨hfirst, hothers⟩ := List.forall_mem_cons.mp hfuture
      rw [List.zipIdx_cons] at h
      obtain ⟨middle, hchange, hbatch⟩ := Except.foldlM_cons_eq_ok_iff.mp h
      rcases List.mem_cons.mp hmove with rfl | hlater
      · obtain ⟨read, row, hread, hrenews, huntil, rfl⟩ := applyChange_move hchange
        obtain rfl : current = read := Option.some.inj (hfound.symm.trans hread)
        refine ⟨row, ?_, hrenews.ne, fun hcurrent => hstale ?_⟩
        · exact applyChanges_kept hrest hothers hbatch (hin target List.mem_cons_self)
            (JsMap.get?_set_self _ _ _)
        · have hlasting := hcurrent hrenews.active
          rwa [DocumentRow.Lasting, huntil] at hlasting
      · have hfresh := foldlM_parse_claims hrest _ hlater target List.mem_cons_self
        have hframe := ((applyChange_effect hchange hfirst).1 (call.key target.id)).frame
          fun other hother heq => hfresh (heq ▸ hin other hother)
        refine ih hrest hothers hbatch hlater ?_
        rcases hframe with hkept | ⟨habsent, -⟩
        · exact hkept.trans hfound
        · rw [hfound] at habsent
          cases habsent

end MemoryCall

/-! ## A command -/

/-- A command leaves no document that it wrote active but expired, and brings no expired one back
    without newer evidence and a future expiry. -/
structure KeepsExpiry (env : MemoryEnv) (tables : MemoryTables) (clock : MemoryClock)
    (scope : MemoryScope) (changes : List MemoryChange) (context : MemoryWriteContext)
    (result : MemoryApplyResult) (left : MemoryTables) : Prop where
  stored : ∀ key row, left.documents.get? key = some row →
    tables.documents.get? key ≠ some row → row.Current clock.host
  /-- Of a command that was applied before nothing is asked: its answer comes out of the log and
      shows the documents as they were. -/
  answered : ¬Recorded env tables scope changes context result →
    ∀ document ∈ result.documents, document.Current clock.host
  revived : ∀ id current row, tables.documents.get? (scope.tenantId, id) = some current →
    current.Expired clock.host → id ∉ result.deleted →
    left.documents.get? (scope.tenantId, id) = some row → row ≠ current → row.status = .active →
      Observed env context current ∧ row.validUntil.isSome = true ∧ row.Lasting clock.host

/-- The time of every document that is moved has not come. -/
def MovesLasting (tables : MemoryTables) (clock : MemoryClock) (scope : MemoryScope)
    (changes : List MemoryChange) : Prop :=
  ∀ target path, .move target path ∈ changes → ∀ row,
    tables.documents.get? (scope.tenantId, target.id) = some row → row.Lasting clock.host

private def expiryEnv : MemoryEnv where
  memoryDigest
    | .source source => "source:" ++ source.sourceRef
    | .command _ _ changes _ _ => "command:" ++ toString changes.length
    | .document _ epoch actionId index => actionId ++ toString epoch ++ ":" ++ toString index
    | .evidence _ body _ => "evidence:" ++ body
  isNfc _ := true
  dateParse
    | "1970-01-01T00:00:07Z" => some 7000
    | _ => none
  localeLe a b := a ≤ b

private def notesScope : MemoryScope := ⟨"t1", "project", "p1"⟩

/-- A note whose time came five seconds after the epoch. -/
private def lapsedNote : DocumentRow where
  scope := notesScope
  path := "a.md"
  title := "Note"
  description := "A note."
  body := "Use npm."
  layer := .reference
  kind := "observation"
  origin := .explicit
  locked := false
  version := 1
  status := .active
  sources := []
  validUntil := some 5000
  updatedAt := 0

private def lapsedTables : MemoryTables where
  scopes := .empty
  documents := JsMap.empty.set ("t1", "mem-1") lapsedNote
  commands := .empty
  evidence := .empty
  evidenceScopes := .empty
  works := .empty
  requests := .empty

/-- Ten seconds after the epoch, with a source that was observed in the seventh. -/
private def tenth : MemoryClock := ⟨10000000, 10000000, 10000⟩

private def moveContext : MemoryWriteContext where
  identity := ⟨"t1", "a1", "u1", "s1", none, none⟩
  actionId := "move"
  epoch := 0
  sources := [{ sourceRef := "settings", authorId := "u1", observedAt := some "1970-01-01T00:00:07Z" }]
  explicit := true
  writeBody input := .ok input.body

private def moved : Except String (MemoryApplyResult × MemoryTables) :=
  applyMemoryChanges expiryEnv lapsedTables tenth notesScope [.move ⟨"mem-1", 1⟩ "b.md"] moveContext

private theorem moved_ok : ∃ result left, moved = .ok (result, left) := by
  have hok : moved.toOption.isSome = true := by decide +kernel
  cases hmoved : moved with
  | error e =>
      rw [hmoved] at hok
      cases hok
  | ok answer => exact ⟨answer.1, answer.2, rfl⟩

end Memories

end LingxiOS
