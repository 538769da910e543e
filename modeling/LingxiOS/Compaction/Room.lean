-- SUMMARY: Whether a compaction at the hard limit makes room.
import LingxiOS.Compaction.Atomicity
import LingxiOS.Protocol.JsonSize

/-! # Room for the Summary

The search for the boundary reserves `maxSummaryChars` bytes. What is installed is a message
with a prefix and the summary, a JSON text that is escaped a second time in the history. -/

namespace LingxiOS.Compaction

open JsonText Stringify Program

variable {model : ModelDriver} {options : CompactionOptions} {session : SessionRecord}
  {overheadTokens : Nat} {events : List CompactionEvent}

/-! ## Estimates -/

/-- The default estimate of a history. -/
def historyBytes (items : List ModelItem) : Nat := byteLength (stringify (itemsValue items))

def itemBytes (item : ModelItem) : Nat := byteLength (stringify item.toValue)

theorem estimateTokens_default (hcount : model.countTokens = none) (items : List ModelItem) :
    estimateTokens model items = .ok (historyBytes items) := by
  simp [estimateTokens, inputTokens, hcount, historyBytes]

theorem historyBytes_eq (items : List ModelItem) :
    historyBytes items = 2 + (items.map itemBytes).sum + (items.length - 1) := by
  have hsize := additive_byteLength.arr (items.map ModelItem.toValue)
  rw [additive_byteLength.printItems] at hsize
  have hitems : ((items.map ModelItem.toValue).map fun v =>
      byteLength (print jsStyle Number.text v)) = items.map itemBytes := by
    simp [itemBytes, stringify, Function.comp_def]
  rw [hitems, byteLength_marks 91 (by decide), byteLength_marks 93 (by decide),
    byteLength_marks 44 (by decide), List.length_map] at hsize
  rw [historyBytes, stringify, itemsValue, hsize]
  omega

/-- What an item adds before some others. -/
theorem historyBytes_cons (item : ModelItem) (keep : List ModelItem) :
    historyBytes (item :: keep)
      = historyBytes keep + itemBytes item + if keep = [] then 0 else 1 := by
  rw [historyBytes_eq, historyBytes_eq]
  cases keep with
  | nil => simp
  | cons next keep =>
      simp only [List.map_cons, List.sum_cons, List.length_cons, reduceCtorEq, if_false]
      omega

/-! ## The installed item -/

/-- The bytes of a text in a string of a JSON text that stands in a string. -/
def nestedBytes (text : Units) : Nat := quotedBytes (stringifyText text)

/-- The names of truncated fields, as the installed item has them. -/
def noticeBytes (names : List String) : Nat :=
  (names.map fun name => name.length + 4).sum + (names.length - 1)

/-- The size of the installed item for the fields of a summary. -/
def summaryBytes (fields : List (String × Units)) (limit : Nat) : Nat :=
  326 + (fields.map fun field => nestedBytes (field.2.take limit)).sum
    + noticeBytes ((fields.filter fun field => limit < field.2.length).map Prod.fst)

/-- Names are written as they are, in a string too. -/
theorem plain_words : (∀ name ∈ summaryFields, nestedBytes (literal name) = name.length)
    ∧ ∀ word ∈ [("version", 7), ("fields", 6), ("truncated", 9), ("role", 4), ("user", 4),
        ("content", 7), ("instructions", 12), ("items", 5), ("interruptible", 13),
        ("admission", 9), ("foreground", 10)], nestedBytes (literal word.1) = word.2
      ∧ byteLength (stringifyText (literal word.1)) = word.2 := by
  simp only [summaryFields, List.forall_mem_cons]
  repeat rw [literal_ofList]
  decide +kernel

theorem text_bytes : quotedBytes summaryPrefix = 163
    ∧ byteLength (stringifyText compactionInstructions) = 571 := by
  unfold summaryPrefix compactionInstructions literal
  simp only [String.toList_append]
  repeat rw [String.toList_ofList]
  decide +kernel

/-- A quoted text inside a string. -/
theorem quotedBytes_quote (text : Units) :
    quotedBytes (quote jsStyle text) = 4 + nestedBytes text := by
  have hmark : quotedBytes [34] = 2 := by decide
  rw [additive_quotedBytes.quote, hmark, nestedBytes]
  omega

theorem quotedBytes_str (text : Units) :
    quotedBytes (print jsStyle Number.text (.str text)) = 4 + nestedBytes text :=
  quotedBytes_quote text

theorem quotedBytes_obj (members : List (Units × Value Number)) :
    quotedBytes (print jsStyle Number.text (.obj members))
      = 2 + (members.map fun m => 5 + nestedBytes m.1
        + quotedBytes (print jsStyle Number.text m.2)).sum + (members.length - 1) := by
  have hmark : quotedBytes [123] = 1 ∧ quotedBytes [125] = 1 ∧ quotedBytes [44] = 1
      ∧ quotedBytes [58] = 1 := by decide
  obtain ⟨hopen, hclose, hcomma, hcolon⟩ := hmark
  rw [additive_quotedBytes.obj, additive_quotedBytes.printMembers, hopen, hclose, hcomma, hcolon]
  have hmember (m : Units × Value Number) : quotedBytes (quote jsStyle m.1) + 1
      + quotedBytes (print jsStyle Number.text m.2)
      = 5 + nestedBytes m.1 + quotedBytes (print jsStyle Number.text m.2) := by
    rw [quotedBytes_quote]
    omega
  simp only [hmember]
  omega

theorem quotedBytes_names {names : List String} (h : ∀ name ∈ names, name ∈ summaryFields) :
    quotedBytes (print jsStyle Number.text (.arr (names.map fun name => .str (literal name))))
      = 2 + noticeBytes names := by
  have hmark : quotedBytes [91] = 1 ∧ quotedBytes [93] = 1 ∧ quotedBytes [44] = 1 := by decide
  obtain ⟨hopen, hclose, hcomma⟩ := hmark
  have hnames : (names.map fun name =>
      quotedBytes (print jsStyle Number.text (.str (literal name)))) = names.map fun name =>
      name.length + 4 := by
    refine List.map_congr_left fun name hname => ?_
    rw [quotedBytes_str, plain_words.1 name (h name hname), Nat.add_comm]
  rw [additive_quotedBytes.arr, additive_quotedBytes.printItems, hopen, hclose, hcomma,
    List.map_map, List.length_map, noticeBytes]
  simp only [Function.comp_def]
  rw [hnames]
  omega

/-- The fields a summary is read as. -/
theorem fields_of_structured {raw : Units} {fields : List (String × Units)}
    (h : structuredSummary raw = .ok fields) : fields.map Prod.fst = summaryFields := by
  rw [structuredSummary] at h
  split at h
  · cases h
  · split at h
    · cases h
    · cases h
      simp [Function.comp_def]
  · cases h

/-- A message with a text that is no half of a pair at its start. -/
theorem itemBytes_summaryItem {summary : Units} (h : Heads summary) :
    itemBytes (summaryItem summary) = 191 + quotedBytes summary := by
  have hcontent : byteLength (stringifyText (summaryPrefix ++ summary))
      = 163 + quotedBytes summary := by
    rw [← text_bytes.1]
    exact additive_quotedBytes.append summaryPrefix summary h
  obtain ⟨-, hrole⟩ := plain_words.2 ("role", 4) (by simp)
  obtain ⟨-, huser⟩ := plain_words.2 ("user", 4) (by simp)
  obtain ⟨-, hname⟩ := plain_words.2 ("content", 7) (by simp)
  rw [itemBytes, stringify, summaryItem, ModelItem.toValue, byteLength_obj]
  simp only [List.map_cons, List.map_nil, List.sum_cons, List.sum_nil, List.length_cons,
    List.length_nil, byteLength_str, hrole, hname, hcontent, ModelItem.roleName, huser]
  omega

theorem quotedBytes_fields {fields : List (String × Units)} (limit : Nat)
    (hnames : fields.map Prod.fst = summaryFields) :
    quotedBytes (print jsStyle Number.text (.obj (fields.map fun field =>
        (literal field.1, .str (field.2.take limit)))))
      = 91 + (fields.map fun field => nestedBytes (field.2.take limit)).sum := by
  have hlength : fields.length = 4 := by
    rw [← List.length_map, hnames]
    rfl
  have hframe : (fields.map fun field => 9 + field.1.length).sum = 86 := by
    have hsum : ((fields.map Prod.fst).map fun name => 9 + name.length).sum = 86 := by
      rw [hnames]
      rfl
    simpa [Function.comp_def] using hsum
  have hmember : ∀ field ∈ fields, 5 + nestedBytes (literal field.1)
      + quotedBytes (print jsStyle Number.text (.str (field.2.take limit)))
      = 9 + field.1.length + nestedBytes (field.2.take limit) := by
    intro field hfield
    rw [quotedBytes_str, plain_words.1 field.1 (hnames ▸ List.mem_map_of_mem hfield)]
    omega
  rw [quotedBytes_obj, List.map_map, List.length_map, hlength]
  simp only [Function.comp_def]
  rw [List.map_congr_left hmember, List.sum_map_add, hframe]
  omega

/-- The installed item for the fields of a summary, truncated as they are. -/
theorem itemBytes_boundSummary {raw combined : Units} {maxChars : Nat}
    {fields : List (String × Units)} (hfields : structuredSummary raw = .ok fields)
    (h : boundSummary raw maxChars = .ok combined) :
    itemBytes (summaryItem combined) = summaryBytes fields ((maxChars - 256) / 24) := by
  rw [boundSummary, hfields] at h
  simp only at h
  split at h
  case isTrue => cases h
  case isFalse =>
    cases h
    have hnames := fields_of_structured hfields
    have hlimit : (maxChars - 256) / (summaryFields.length * 6) = (maxChars - 256) / 24 := rfl
    have hone : quotedBytes (print jsStyle Number.text (.num (.ofInt 1))) = 1 := by decide
    obtain ⟨hversion, -⟩ := plain_words.2 ("version", 7) (by simp)
    obtain ⟨hname, -⟩ := plain_words.2 ("fields", 6) (by simp)
    obtain ⟨htruncated, -⟩ := plain_words.2 ("truncated", 9) (by simp)
    have hnotice := @quotedBytes_names
      ((fields.filter fun field => (maxChars - 256) / 24 < field.2.length).map Prod.fst) (by
        rw [← hnames]
        exact fun name hname => List.map_subset _ (List.filter_subset_self _) hname)
    rw [List.map_map] at hnotice
    simp only [Function.comp_def] at hnotice
    have hheads := heads_print (.obj [(literal "version", .num (.ofInt 1)),
      (literal "fields", .obj (fields.map fun field =>
        (literal field.1, .str (field.2.take ((maxChars - 256) / 24))))),
      (literal "truncated", .arr ((fields.filter fun field =>
        (maxChars - 256) / 24 < field.2.length).map fun field => .str (literal field.1)))]) []
    rw [List.append_nil] at hheads
    rw [stringify, hlimit, itemBytes_summaryItem hheads, quotedBytes_obj, summaryBytes]
    simp only [List.map_cons, List.map_nil, List.sum_cons, List.sum_nil, List.length_cons,
      List.length_nil, hversion, hname, htruncated, hone, quotedBytes_fields _ hnames, hnotice]
    omega

/-! ## Runs -/

/-- The installed summary fits beside the items that are kept. -/
def Fits (options : CompactionOptions) (overheadTokens : Nat) (keep : List ModelItem)
    (fields : List (String × Units)) : Prop :=
  ((historyBytes keep + overheadTokens + (if keep = [] then 0 else 1)
    + summaryBytes fields ((options.maxSummaryChars - 256) / 24) : Nat) : Int) ≤ options.hardLimit

/-- A compaction that starts at the hard limit, and whose search leaves room for as many
    bytes as a summary may have characters, gets below the limit exactly if the last summary
    fits with its prefix and escaped once more. -/
theorem makes_room_iff {outcome : CompactionOutcome} (hcount : model.countTokens = none)
    (h : (compactIfNeeded model options session overheadTokens false).Runs events (.ok outcome))
    (hbehaves : ∀ event ∈ events, Behaves event) (hcompacted : outcome.compacted = true) :
    (∀ items, estimateTokens model items = .ok (historyBytes items))
    ∧ ∃ boundary before request call after fields,
      searchBoundary model ⟨options, historyBytes session.history + overheadTokens, overheadTokens,
        false⟩ session.history (min session.history.length options.keepTailItems) = .ok boundary
      ∧ events = before ++ ⟨.compact request, .ok call⟩ :: after ∧ requests after = []
      ∧ structuredSummary call.value = .ok fields
      ∧ (options.hardLimit ≤ (historyBytes session.history + overheadTokens : Nat) →
        ((historyBytes (session.history.drop boundary) + overheadTokens
          + options.maxSummaryChars : Nat) : Int) ≤ options.hardLimit →
        (((historyBytes (session.after events).history + overheadTokens : Nat) : Int)
            ≤ options.hardLimit
          ↔ Fits options overheadTokens (session.history.drop boundary) fields)) := by
  refine ⟨estimateTokens_default hcount, ?_⟩
  cases settled_of_runs h hbehaves with
  | declined _ => cases hcompacted
  | @compacted tokens boundary combined _ hestimate hsearch hlast hafter _ =>
      rw [estimateTokens_default hcount] at hestimate
      cases hestimate
      obtain ⟨before, request, call, after, hevents, hrequests, hbound⟩ := hlast
      cases hfields : structuredSummary call.value with
      | error e => simp [boundSummary, hfields] at hbound
      | ok fields =>
          refine ⟨boundary, before, request, call, after, fields, hsearch, hevents, hrequests,
            hfields, fun _ _ => ?_⟩
          rw [hafter, historyBytes_cons, itemBytes_boundSummary hfields hbound, Fits]
          constructor
          · intro hroom
            omega
          · intro hfits
            omega

/-! ## A summary that does not fit -/

/-- What is sent to the summarizer takes this much beside the items. -/
theorem byteLength_request (items : List ModelItem) :
    byteLength (stringify (CompactionRequest.toValue ⟨items, false⟩))
      = 646 + historyBytes items := by
  obtain ⟨-, hinstructions⟩ := plain_words.2 ("instructions", 12) (by simp)
  obtain ⟨-, hitems⟩ := plain_words.2 ("items", 5) (by simp)
  obtain ⟨-, hinterruptible⟩ := plain_words.2 ("interruptible", 13) (by simp)
  obtain ⟨-, hadmission⟩ := plain_words.2 ("admission", 9) (by simp)
  obtain ⟨-, hforeground⟩ := plain_words.2 ("foreground", 10) (by simp)
  have hfalse : byteLength (print jsStyle Number.text (.bool false)) = 5 := by decide
  rw [stringify, CompactionRequest.toValue, byteLength_obj]
  simp only [List.map_cons, List.map_nil, List.sum_cons, List.sum_nil, List.length_cons,
    List.length_nil, byteLength_str, hinstructions, hitems, hinterruptible, hadmission,
    hfalse, text_bytes.2, historyBytes, stringify, Bool.false_eq_true, if_false, hforeground]
  omega

section

variable {tokens boundary requestTokens : Nat} {combined : Units}

/-- A compaction that succeeds with one summary call. -/
private theorem exec_plainHost (hestimate : estimateTokens model session.history = .ok tokens)
    (hsoft : options.softLimit ≤ tokens)
    (hsearch : searchBoundary model ⟨options, tokens, 0, false⟩ session.history
      (min session.history.length options.keepTailItems) = .ok boundary)
    (hboundary : boundary ≠ 0)
    (htokens : inputTokens model (CompactionRequest.toValue
      ⟨withPrior session.summary (session.history.take boundary), false⟩) = .ok requestTokens)
    (hfits : fitsModel model (CompactionRequest.toValue
      ⟨withPrior session.summary (session.history.take boundary), false⟩) = .ok true)
    (hbound : boundSummary emptySummary options.maxSummaryChars = .ok combined)
    (hshrinks : shrinks model (summaryItem combined :: session.history.drop boundary)
      session.history = .ok true) :
    ((compactIfNeeded model options session 0 false).exec plainHost).2
        = .ok { compacted := true, usage := some ⟨"model", 3, 1, true⟩ }
      ∧ (session.after ((compactIfNeeded model options session 0 false).exec plainHost).1).history
        = summaryItem combined :: session.history.drop boundary := by
  have hlow : ¬(tokens : Int) < options.softLimit := by omega
  simp [compactIfNeeded, hestimate, Program.ofExcept, hlow, hsearch, hboundary, compactAt,
    summarizeAll, checked, hfits, htokens, compact, guarded, plainHost, hbound, conclude, assign,
    hshrinks, exec, perform, attempt, Progress.complete, CompactionUsage.add, SessionRecord.after,
    SessionRecord.apply]

end

/-- A long message and a short one. -/
private def longText : Units := List.replicate 600 97

private def longSession : SessionRecord where
  history := [.message .user longText, .message .user [98]]

private def byteModel : ModelDriver := ⟨⟨128000, 8192, 0⟩, none⟩

private def longRun (hardLimit : Int) : List CompactionEvent × Except Thrown CompactionOutcome :=
  (compactIfNeeded byteModel ⟨0, hardLimit, 1, 320⟩ longSession 0 false).exec plainHost

private theorem longSession_facts : historyBytes longSession.history = 660
    ∧ historyBytes [.message .user longText] = 630
    ∧ historyBytes [.message .user [98]] = 31
    ∧ structuredSummary emptySummary = .ok (summaryFields.map fun name => (name, []))
    ∧ (boundSummary emptySummary 320).toOption.isSome = true
    ∧ ∀ hardLimit ∈ [351, 358], searchBoundary byteModel ⟨⟨0, hardLimit, 1, 320⟩, 660, 0, false⟩
        longSession.history 1 = .ok 1 := by
  decide +kernel

private theorem emptySummary_bytes : ∃ combined, boundSummary emptySummary 320 = .ok combined
    ∧ historyBytes (summaryItem combined :: longSession.history.drop 1) = 358 := by
  obtain ⟨-, -, hshort, hfields, hsome, -⟩ := longSession_facts
  cases hbound : boundSummary emptySummary 320 with
  | error e => rw [hbound] at hsome; cases hsome
  | ok combined =>
      have hsize : itemBytes (summaryItem combined) = 326 := by
        rw [itemBytes_boundSummary hfields hbound]
        rfl
      refine ⟨combined, rfl, ?_⟩
      rw [historyBytes_cons, hsize]
      show historyBytes [.message .user [98]] + 326 + 1 = 358
      rw [hshort]

/-- Wherever the search ends after the long message, that message is summarized. -/
private theorem longRun_compacted {hardLimit : Int} (hsearch : searchBoundary byteModel
    ⟨⟨0, hardLimit, 1, 320⟩, 660, 0, false⟩ longSession.history 1 = .ok 1) :
    (longRun hardLimit).2 = .ok { compacted := true, usage := some ⟨"model", 3, 1, true⟩ }
      ∧ historyBytes (longSession.after (longRun hardLimit).1).history = 358 := by
  obtain ⟨hall, hlong, -⟩ := longSession_facts
  obtain ⟨combined, hbound, hnew⟩ := emptySummary_bytes
  have hestimate (items : List ModelItem) :
      estimateTokens byteModel items = .ok (historyBytes items) := estimateTokens_default rfl items
  have hdefault (v : Value Number) : inputTokens byteModel v = .ok (byteLength (stringify v)) := rfl
  have hprior : withPrior longSession.summary (longSession.history.take 1)
      = [.message .user longText] := rfl
  have htokens : inputTokens byteModel (CompactionRequest.toValue
      ⟨withPrior longSession.summary (longSession.history.take 1), false⟩) = .ok 1276 := by
    rw [hprior, hdefault, byteLength_request, hlong]
  have hfits : fitsModel byteModel (CompactionRequest.toValue
      ⟨withPrior longSession.summary (longSession.history.take 1), false⟩) = .ok true := by
    rw [fitsModel, htokens]
    decide
  have hshrinks : shrinks byteModel (summaryItem combined :: longSession.history.drop 1)
      longSession.history = .ok true := by
    simp only [shrinks, hestimate, hnew, hall]
    rfl
  obtain ⟨hresult, hafter⟩ := @exec_plainHost byteModel ⟨0, hardLimit, 1, 320⟩ longSession
    660 1 1276 combined (by rw [hestimate, hall]) (by simp) hsearch (by decide) htokens hfits hbound hshrinks
  exact ⟨hresult, by rw [longRun, hafter, hnew]⟩

/-- Seven bytes more than the search leaves room for are enough for an empty summary. -/
theorem makes_room_iff_long : ∃ boundary fields,
    (((historyBytes (longSession.after (longRun 358).1).history + 0 : Nat) : Int) ≤ 358
      ↔ Fits ⟨0, 358, 1, 320⟩ 0 (longSession.history.drop boundary) fields) := by
  obtain ⟨hall, -, hshort, -, -, hfinds⟩ := longSession_facts
  have hsearch := hfinds 358 (by simp)
  obtain ⟨hresult, -⟩ := longRun_compacted hsearch
  have hruns : (compactIfNeeded byteModel ⟨0, 358, 1, 320⟩ longSession 0 false).Runs (longRun 358).1
      (.ok { compacted := true, usage := some ⟨"model", 3, 1, true⟩ }) := by
    rw [← hresult, longRun]
    exact runs_exec plainHost _
  have hbehaves : ∀ event ∈ (longRun 358).1, Behaves event := by
    rw [longRun]
    exact exec_forall plainHost_behaves _
  obtain ⟨-, boundary, -, -, -, -, fields, hfound, -, -, -, hiff⟩ :=
    makes_room_iff rfl hruns hbehaves rfl
  have hboundary : boundary = 1 := by
    rw [hall] at hfound
    exact Except.ok.inj (hfound.symm.trans hsearch)
  subst hboundary
  refine ⟨1, fields, hiff (by rw [hall]; decide) ?_⟩
  show ((historyBytes [.message .user [98]] + 0 + 320 : Nat) : Int) ≤ 358
  rw [hshort]
  decide

/-- An empty summary does not fit into the 320 bytes the search leaves for it. -/
theorem empty_summary_exceeds :
    (longRun 351).2 = .ok { compacted := true, usage := some ⟨"model", 3, 1, true⟩ }
    ∧ (351 : Int) ≤ (historyBytes longSession.history + 0 : Nat)
    ∧ searchBoundary byteModel ⟨⟨0, 351, 1, 320⟩, historyBytes longSession.history, 0, false⟩
      longSession.history 1 = .ok 1
    ∧ ((historyBytes (longSession.history.drop 1) + 0 + 320 : Nat) : Int) ≤ 351
    ∧ ¬((historyBytes (longSession.after (longRun 351).1).history + 0 : Nat) : Int) ≤ 351 := by
  obtain ⟨hall, -, hshort, -, -, hfinds⟩ := longSession_facts
  have hsearch := hfinds 351 (by simp)
  obtain ⟨hresult, hnew⟩ := longRun_compacted hsearch
  refine ⟨hresult, by rw [hall]; decide, by rw [hall]; exact hsearch, ?_, by rw [hnew]; decide⟩
  show ((historyBytes [.message .user [98]] + 0 + 320 : Nat) : Int) ≤ 351
  rw [hshort]
  decide

end LingxiOS.Compaction
