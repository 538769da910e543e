-- SUMMARY: The session store and its compare-and-set.
import LingxiOS.Base.JsMap
import LingxiOS.Request.Session

/-! # Session Store

`MemorySessionStore` keeps the last record saved of a session and, apart from it,
the last request saved of each work. A record is saved only if it carries the
stored revision. -/

namespace LingxiOS

structure MemorySessionStore where
  sessions : JsMap SessionKey SessionRecord := .empty
  requests : JsMap String RequestSnapshot := .empty

namespace MemorySessionStore

variable {store : MemorySessionStore} {session : SessionRecord} {key : SessionKey} {id : String}

/-- The record of a session, with the request of one work in place of the active one. -/
def get (store : MemorySessionStore) (key : SessionKey) (workId : Option String) :
    Option SessionRecord :=
  (store.sessions.get? key).map (fun stored =>
    let request := match workId.filter (· != "") with
      | some id => store.requests.get? id
      | none => stored.request
    { stored with request := request })

/-- `stored?.revision ?? 0`. -/
def revision (store : MemorySessionStore) (key : SessionKey) : Nat :=
  ((store.sessions.get? key).map SessionRecord.revision).getD 0

/-- The new revision, or nothing on a conflict. -/
def save (store : MemorySessionStore) (session : SessionRecord) :
    Option Nat × MemorySessionStore :=
  let currentRevision := store.revision session.key
  if session.revision ≠ currentRevision then (none, store)
  else
    let next := { session with revision := currentRevision + 1 }
    (some next.revision,
      { sessions := store.sessions.set session.key next
        requests := match session.request with
          | none => store.requests
          | some request => store.requests.set request.workId request })

/-! ## Laws -/

theorem save_of_ne (h : session.revision ≠ store.revision session.key) :
    store.save session = (none, store) := if_pos h

/-- A record at the stored revision is saved under the next one. -/
theorem save_of_eq (h : session.revision = store.revision session.key) :
    store.save session = (some (store.revision session.key + 1),
      { sessions := store.sessions.set session.key
          { session with revision := store.revision session.key + 1 }
        requests := match session.request with
          | none => store.requests
          | some request => store.requests.set request.workId request }) :=
  if_neg (not_not_intro h)

theorem save_cases (store : MemorySessionStore) (session : SessionRecord) :
    (store.save session).2 = store ∨ session.revision = store.revision session.key := by
  rcases eq_or_ne session.revision (store.revision session.key) with h | h
  · exact .inr h
  · rw [save_of_ne h]
    exact .inl rfl

theorem get_request (hid : id ≠ "") (hstored : (store.sessions.get? key).isSome = true) :
    (store.get key (some id)).bind SessionRecord.request = store.requests.get? id := by
  obtain ⟨stored, hstored⟩ := Option.isSome_iff_exists.1 hstored
  simp [get, hstored, Option.filter, hid]

theorem get_revision : ((store.get key (some id)).map SessionRecord.revision).getD 0
    = store.revision key := by
  unfold get revision
  cases store.sessions.get? key <;> rfl

theorem revision_save_self (h : session.revision = store.revision session.key) :
    (store.save session).2.revision session.key = store.revision session.key + 1 := by
  simp [save_of_eq h, revision]

/-- A save of any record leaves no revision behind. -/
theorem revision_le_save (key : SessionKey) :
    store.revision key ≤ (store.save session).2.revision key := by
  rcases store.save_cases session with h | h
  · rw [h]
  · rcases eq_or_ne key session.key with rfl | hne
    · rw [revision_save_self h]
      exact Nat.le_succ _
    · apply le_of_eq
      simp [save_of_eq h, revision, JsMap.get?_set_of_ne _ hne]

/-- A session that is stored stays stored. -/
theorem isSome_save (hstored : (store.sessions.get? key).isSome = true) :
    ((store.save session).2.sessions.get? key).isSome = true := by
  rcases store.save_cases session with h | h
  · rw [h]
    exact hstored
  · rw [save_of_eq h]
    rcases eq_or_ne key session.key with rfl | hne
    · simp
    · rwa [JsMap.get?_set_of_ne _ hne]

/-- A save changes the request of the record's own work only. -/
theorem request_save_of_ne (hne : ∀ request, session.request = some request → request.workId ≠ id) :
    (store.save session).2.requests.get? id = store.requests.get? id := by
  rcases store.save_cases session with h | h
  · rw [h]
  · rw [save_of_eq h]
    cases hrequest : session.request with
    | none => rfl
    | some request => exact JsMap.get?_set_of_ne _ (hne request hrequest).symm

theorem request_save_self {request : RequestSnapshot}
    (h : session.revision = store.revision session.key) (hrequest : session.request = some request) :
    (store.save session).2.requests.get? request.workId = some request := by
  simp [save_of_eq h, hrequest]

end MemorySessionStore

end LingxiOS
