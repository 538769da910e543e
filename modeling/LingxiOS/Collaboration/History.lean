-- SUMMARY: conversationMessages: the history a work is given.
import LingxiOS.Base.Page
import LingxiOS.Collaboration.Access
import Mathlib.Data.List.Pairwise

/-! # Conversation History

The versions of a message are rows of their own, each with its audience. The history of a work
is taken from them by one query. -/

namespace LingxiOS.Collaboration

open JsonText Stringify Page

/-! ## Stored messages -/

inductive AuthorKind where
  | human | agent | system
  deriving DecidableEq

/-- A row of `agent_im_messages`, with what is read of its input. -/
structure MessageVersion where
  tenantId : Units
  conversationId : Units
  threadId : Option Units
  messageId : Units
  version : Int
  authorId : Units
  authorKind : AuthorKind
  text : Units
  audience : Audience
  recordedAt : Int
  deriving DecidableEq

/-- The table with its primary key. -/
structure MessageTable where
  rows : List MessageVersion
  key : rows.Pairwise fun a b => a.tenantId = b.tenantId → a.conversationId = b.conversationId →
    a.messageId = b.messageId → a.version ≠ b.version

/-- The order of `localeCompare`. -/
structure Locale where
  le : Units → Units → Bool
  total : ∀ a b, le a b = true ∨ le b a = true
  trans : ∀ a b c, le a b = true → le b c = true → le a c = true

/-- A collation of the database. It tells all texts apart. -/
structure Collation extends Locale where
  antisymm : ∀ a b, le a b = true → le b a = true → a = b

/-- A work of a conversation, with the message that triggered it. -/
structure HistoryWork extends ConversationWork where
  triggerRef : Units

/-- A message as the context shows it; `createdAt` is written as an ISO instant. -/
structure ShownMessage where
  ref : Units
  authorId : Units
  authorName : Units
  authorKind : AuthorKind
  body : Units
  createdAt : Int
  deriving DecidableEq

/-- `new Date(recorded_at)`: the database keeps microseconds. -/
def createdAt (recordedAt : Int) : Int := recordedAt / 1000

def MessageVersion.shown (row : MessageVersion) : ShownMessage where
  ref := row.messageId
  authorId := row.authorId
  authorName := row.authorId
  authorKind := row.authorKind
  body := row.text
  createdAt := createdAt row.recordedAt

/-! ## The query -/

section Query

variable (table : MessageTable) (collation : Collation) (locale : Locale) (work : HistoryWork)
  (scope : WorkConversation)

/-- The stored versions of the messages of the work's thread. -/
def threadRows : List MessageVersion :=
  table.rows.filter fun row => row.tenantId = work.tenantId
    ∧ row.conversationId = scope.conversationId ∧ row.threadId = work.threadId

/-- `audience->'participantIds' @> $4`. -/
def visibleRows : List MessageVersion :=
  (threadRows table work scope).filter fun row => containsAudience row.audience scope.audience

/-- `ORDER BY recorded_at DESC, message_id`. -/
def latestFirst (a b : MessageVersion) : Prop :=
  b.recordedAt < a.recordedAt
    ∨ a.recordedAt = b.recordedAt ∧ collation.le a.messageId b.messageId = true

instance : DecidableRel (latestFirst collation) := fun _ _ => inferInstanceAs (Decidable (_ ∨ _))

/-- `DISTINCT ON(message_id) … ORDER BY message_id, version DESC`, of the visible rows. -/
def newestVisible : List MessageVersion :=
  newest MessageVersion.messageId MessageVersion.version (visibleRows table work scope)

def historyRows : List MessageVersion :=
  page (latestFirst collation) 100 (newestVisible table work scope)

/-- `a.createdAt.localeCompare(b.createdAt) || a.ref.localeCompare(b.ref)`. -/
def earliestFirst (a b : ShownMessage) : Prop :=
  a.createdAt < b.createdAt ∨ a.createdAt = b.createdAt ∧ locale.le a.ref b.ref = true

instance : DecidableRel (earliestFirst locale) := fun _ _ => inferInstanceAs (Decidable (_ ∨ _))

/-- The history without the trigger. -/
def historyMessages : List ShownMessage :=
  ((((historyRows table collation work scope).filter fun row => row.authorKind ≠ .system).map
    MessageVersion.shown).insertionSort (earliestFirst locale)).filter
      fun message => message.ref ≠ work.triggerRef

/-- The stored version that triggered the work. -/
def triggerRow : Option MessageVersion :=
  table.rows.find? fun row => row.tenantId = work.tenantId
    ∧ row.conversationId = scope.conversationId ∧ row.messageId = scope.source.messageId.val
    ∧ row.version = scope.source.version

/-- Whoever is authorized has a principal. -/
def conversationMessages (tables : Tables) : Except Failure (List ShownMessage) :=
  match work.conversation with
  | none => .error (.error "IM work is required")
  | some scope => do
      authorizeConversationWork tables work.toConversationWork .execute
      match triggerRow table work scope with
      | none => throw (.error "IM trigger is unavailable")
      | some source =>
          return historyMessages table collation locale work scope
            ++ [{ ref := work.triggerRef, authorId := work.principalId.getD [], authorName := source.authorId
                  authorKind := .human, body := source.text, createdAt := createdAt source.recordedAt }]

end Query

/-! ## What is on the page -/

section Page

variable {table : MessageTable} {collation : Collation} {locale : Locale} {work : HistoryWork}
  {scope : WorkConversation} {row other : MessageVersion} {message : ShownMessage}

instance : Std.Total (latestFirst collation) where
  total a b := by
    unfold latestFirst
    rcases lt_trichotomy a.recordedAt b.recordedAt with hlt | heq | hgt
    · exact .inr (.inl hlt)
    · exact (collation.total a.messageId b.messageId).imp (fun h => .inr ⟨heq, h⟩)
        fun h => .inr ⟨heq.symm, h⟩
    · exact .inl (.inl hgt)

instance : IsTrans MessageVersion (latestFirst collation) where
  trans a b c hab hbc := by
    unfold latestFirst at *
    rcases hab with hab | ⟨hab, hle⟩
    · exact .inl (hbc.elim (fun h => h.trans hab) fun h => h.1 ▸ hab)
    · rcases hbc with hbc | ⟨hbc, hle'⟩
      · exact .inl (hab ▸ hbc)
      · exact .inr ⟨hab.trans hbc, collation.trans _ _ _ hle hle'⟩

theorem mem_threadRows : row ∈ threadRows table work scope ↔ row ∈ table.rows
    ∧ row.tenantId = work.tenantId ∧ row.conversationId = scope.conversationId
    ∧ row.threadId = work.threadId := by
  simp [threadRows]

theorem mem_visibleRows : row ∈ visibleRows table work scope
    ↔ row ∈ threadRows table work scope ∧ containsAudience row.audience scope.audience = true := by
  simp [visibleRows]

/-- In a thread a message has each version once. -/
theorem threadRows_pairwise (table : MessageTable) (work : HistoryWork) (scope : WorkConversation) :
    (threadRows table work scope).Pairwise fun a b =>
      a.messageId = b.messageId → a.version ≠ b.version := by
  refine List.Pairwise.imp_of_mem (fun ha hb hkey => ?_) (table.key.filter _)
  obtain ⟨-, htenant, hconversation, -⟩ := mem_threadRows.1 ha
  obtain ⟨-, htenant', hconversation', -⟩ := mem_threadRows.1 hb
  exact hkey (htenant.trans htenant'.symm) (hconversation.trans hconversation'.symm)

theorem eq_of_version (hrow : row ∈ threadRows table work scope)
    (hother : other ∈ threadRows table work scope) (hmessage : row.messageId = other.messageId)
    (hversion : row.version = other.version) : row = other := by
  have hsymm : Std.Symm fun a b : MessageVersion => a.messageId = b.messageId → a.version ≠ b.version :=
    ⟨fun _ _ h hid hversion => h hid.symm hversion.symm⟩
  by_contra hne
  exact (threadRows_pairwise table work scope).forall hrow hother hne hmessage hversion

theorem untied : Untied (latestFirst collation) (newestVisible table work scope) := by
  have hversions : (visibleRows table work scope).Pairwise fun a b =>
      a.messageId = b.messageId → a.version ≠ b.version :=
    (threadRows_pairwise table work scope).filter _
  refine (newest_pairwise hversions).imp fun {a b} hid htie => hid ?_
  unfold latestFirst at htie
  obtain ⟨hab, hba⟩ := htie
  rcases hab with hab | ⟨hab, hle⟩
  · rcases hba with hba | ⟨hba, -⟩ <;> omega
  · rcases hba with hba | ⟨-, hle'⟩
    · omega
    · exact collation.antisymm _ _ hle hle'

/-- The rows behind the history: of each visible message the newest visible version, as long as
    it is one of the 100 latest, is not the system's, and does not belong to the trigger. -/
structure Listed (table : MessageTable) (collation : Collation) (work : HistoryWork)
    (scope : WorkConversation) (row : MessageVersion) : Prop where
  newest : row ∈ newestVisible table work scope
  latest : (before (latestFirst collation) row (newestVisible table work scope)).length < 100
  author : row.authorKind ≠ .system
  other : row.messageId ≠ work.triggerRef

theorem mem_historyMessages : message ∈ historyMessages table collation locale work scope
    ↔ ∃ row, Listed table collation work scope row ∧ row.shown = message := by
  simp only [historyMessages, historyRows, List.mem_filter, List.mem_insertionSort, List.mem_map,
    mem_page_iff untied, decide_eq_true_eq]
  constructor
  · rintro ⟨⟨row, ⟨⟨hnewest, hlatest⟩, hauthor⟩, rfl⟩, hother⟩
    exact ⟨row, ⟨hnewest, hlatest, hauthor, hother⟩, rfl⟩
  · rintro ⟨row, h, rfl⟩
    exact ⟨⟨row, ⟨⟨h.newest, h.latest⟩, h.author⟩, rfl⟩, h.other⟩

end Page

/-! ## Current and visible -/

/-- Every message is the newest version of its thread, visible to all of the work's audience;
    a message whose newest version is not is not there at all. -/
structure ShowsCurrent (table : MessageTable) (work : HistoryWork) (scope : WorkConversation)
    (messages : List ShownMessage) : Prop where
  current : ∀ message ∈ messages, ∃ row ∈ newest MessageVersion.messageId MessageVersion.version
    (threadRows table work scope), row.shown = message
      ∧ containsAudience row.audience scope.audience = true
  hidden : ∀ row ∈ newest MessageVersion.messageId MessageVersion.version
    (threadRows table work scope), containsAudience row.audience scope.audience = false →
      ∀ message ∈ messages, message.ref ≠ row.messageId

/-- A later version of the message is kept from somebody of the work's audience. -/
def Withdrawn (table : MessageTable) (work : HistoryWork) (scope : WorkConversation)
    (row : MessageVersion) : Prop :=
  ∃ later ∈ threadRows table work scope, later.messageId = row.messageId
    ∧ row.version < later.version ∧ containsAudience later.audience scope.audience = false

section Current

variable {table : MessageTable} {collation : Collation} {locale : Locale} {work : HistoryWork}
  {scope : WorkConversation} {row : MessageVersion}

/-- A newest visible version that was not withdrawn is the newest of all. -/
theorem newest_of_not_withdrawn (hrow : row ∈ newestVisible table work scope)
    (h : ¬Withdrawn table work scope row) :
    row ∈ newest MessageVersion.messageId MessageVersion.version (threadRows table work scope) := by
  obtain ⟨hvisible, hmax⟩ := mem_newest_iff.1 hrow
  refine mem_newest_iff.2 ⟨(mem_visibleRows.1 hvisible).1, fun other hother hid => ?_⟩
  by_contra hlater
  cases hsees : containsAudience other.audience scope.audience with
  | true => exact hlater (hmax other (mem_visibleRows.2 ⟨hother, hsees⟩) hid)
  | false => exact h ⟨other, hother, hid, Int.not_le.1 hlater, hsees⟩

theorem showsCurrent_historyMessages_iff :
    ShowsCurrent table work scope (historyMessages table collation locale work scope)
      ↔ ∀ row, Listed table collation work scope row → ¬Withdrawn table work scope row := by
  constructor
  · rintro h row hlisted ⟨later, hlater, hid, hversion, -⟩
    obtain ⟨current, hcurrent, hshown, hsees⟩ :=
      h.current row.shown (mem_historyMessages.2 ⟨row, hlisted, rfl⟩)
    have hsame : current.messageId = row.messageId := congrArg ShownMessage.ref hshown
    obtain ⟨hthread, hmax⟩ := mem_newest_iff.1 hcurrent
    -- The current version is visible, so it is no later than the one listed.
    have hle := (mem_newest_iff.1 hlisted.newest).2 current
      (mem_visibleRows.2 ⟨hthread, hsees⟩) hsame
    have hge := hmax later hlater (hid.trans hsame.symm)
    omega
  · intro h
    refine ⟨fun message hmessage => ?_, fun row hrow hunseen message hmessage href => ?_⟩
    · obtain ⟨row, hlisted, rfl⟩ := mem_historyMessages.1 hmessage
      have hvisible := (mem_newest_iff.1 hlisted.newest).1
      exact ⟨row, newest_of_not_withdrawn hlisted.newest (h row hlisted), rfl,
        (mem_visibleRows.1 hvisible).2⟩
    · obtain ⟨listed, hlisted, rfl⟩ := mem_historyMessages.1 hmessage
      have hid : listed.messageId = row.messageId := href
      have hvisible := mem_visibleRows.1 (mem_newest_iff.1 hlisted.newest).1
      obtain ⟨hthread, hmax⟩ := mem_newest_iff.1 hrow
      obtain ⟨-, hmax'⟩ :=
        mem_newest_iff.1 (newest_of_not_withdrawn hlisted.newest (h listed hlisted))
      have hsame : listed = row := eq_of_version hvisible.1 hthread hid
        (le_antisymm (hmax listed hvisible.1 hid) (hmax' row hthread hid.symm))
      rw [hsame, hunseen] at hvisible
      cases hvisible.2

end Current

/-- What a work is shown besides its trigger is current and visible if and only if no message on
    the page was withdrawn by a later version. -/
theorem conversationMessages_current_iff {table : MessageTable} {collation : Collation} {locale : Locale}
    {work : HistoryWork} {scope : WorkConversation} {tables : Tables} {messages : List ShownMessage}
    (hscope : work.conversation = some scope)
    (h : conversationMessages table collation locale work tables = .ok messages) :
    ShowsCurrent table work scope messages.dropLast
      ↔ ∀ row, Listed table collation work scope row → ¬Withdrawn table work scope row := by
  unfold conversationMessages at h
  rw [hscope] at h
  dsimp only at h
  obtain ⟨-, -, h⟩ := Except.bind_ok h
  split at h
  case h_1 => cases h
  case h_2 =>
    cases h
    rw [List.dropLast_concat]
    exact showsCurrent_historyMessages_iff

/-- A message to two readers, one of whom its second version leaves out, and the question that
    triggers a work for both. -/
private def withdrawnTable : MessageTable where
  rows := [⟨[116], [99], none, [109], 1, [97], .human, literal "draft", ⟨.participants, [[97], [98]]⟩, 0⟩,
    ⟨[116], [99], none, [109], 2, [97], .human, literal "final", ⟨.participants, [[97]]⟩, 1000⟩,
    ⟨[116], [99], none, [113], 1, [97], .human, literal "Well?", ⟨.participants, [[97], [98]]⟩, 2000⟩]
  key := by decide

private def bothReaders : WorkConversation where
  conversationId := [99]
  source := ⟨⟨[113], by decide⟩, 1⟩
  audience := ⟨.participants, [[97], [98]]⟩
  internal := false

private def answeringWork : HistoryWork where
  id := ⟨[119], by decide⟩
  tenantId := [116]
  agentId := ⟨[98], by decide⟩
  principalId := some [97]
  threadId := none
  conversation := some bothReaders
  graphId := ⟨.null, trivial⟩
  triggerRef := [113]

private def twoMembers : Tables where
  policy _ _ := some ⟨[⟨[97], .human, [.read, .execute]⟩, ⟨[98], .agent, [.read, .execute, .speak]⟩]⟩
  hasThread _ _ _ := true
  hasMessage _ _ _ := true
  hasReplySlot _ _ _ _ _ := true

/-- The order of code units. -/
private def unitOrder : Collation where
  le a b := decide (a ≤ b)
  total a b := by simpa using le_total a b
  trans a b c := by simpa using le_trans
  antisymm a b := by simpa using le_antisymm

private def shownDraft : List ShownMessage :=
  [⟨[109], [97], [97], .human, literal "draft", 0⟩, ⟨[113], [97], [97], .human, literal "Well?", 2⟩]

private theorem shows_draft :
    conversationMessages withdrawnTable unitOrder unitOrder.toLocale answeringWork twoMembers = .ok shownDraft := by
  rfl

theorem conversationMessages_current_iff_draft :
    ShowsCurrent withdrawnTable answeringWork bothReaders shownDraft.dropLast
      ↔ ∀ row, Listed withdrawnTable unitOrder answeringWork bothReaders row →
        ¬Withdrawn withdrawnTable answeringWork bothReaders row :=
  conversationMessages_current_iff rfl shows_draft

/-- The first version is shown, though the second one was kept from a reader. -/
theorem withdrawn_version_shown : ∃ messages,
    conversationMessages withdrawnTable unitOrder unitOrder.toLocale answeringWork twoMembers = .ok messages
      ∧ ¬ShowsCurrent withdrawnTable answeringWork bothReaders messages.dropLast := by
  refine ⟨shownDraft, shows_draft, fun h => ?_⟩
  have hsecond : (⟨[116], [99], none, [109], 2, [97], .human, literal "final",
      ⟨.participants, [[97]]⟩, 1000⟩ : MessageVersion)
        ∈ newest MessageVersion.messageId MessageVersion.version
          (threadRows withdrawnTable answeringWork bothReaders) := by decide
  exact h.hidden _ hsecond rfl ⟨[109], [97], [97], .human, literal "draft", 0⟩ (by decide) rfl

end LingxiOS.Collaboration
