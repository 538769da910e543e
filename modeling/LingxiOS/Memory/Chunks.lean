-- SUMMARY: Excerpts of a text, and cutting a body into them.
import LingxiOS.Memory.Pages

/-! # Semantic Chunks

A body is embedded in pieces. The loop takes an excerpt of what is left and goes on behind it,
by UTF-16 units, so it ends only because every excerpt has room for the widest character. -/

namespace LingxiOS.Memories

open TextCoding

/-! ## The source -/

/-- The loop of `refresh` over what is left of a body; `none` after so many turns if it goes on. -/
def chunkLoop (bytes : Nat) : Nat → List Nat → List (List Nat) → Option (List (List Nat))
  | _, [], chunks => some chunks
  | 0, _ :: _, _ => none
  | turns + 1, u :: remaining, chunks =>
      let chunk := excerpt (u :: remaining) bytes
      chunkLoop bytes turns ((u :: remaining).drop chunk.length) (chunks ++ [chunk])

/-- What `refresh` embeds. -/
def semanticChunks (turns : Nat) (body : List Nat) : Option (List (List Nat)) :=
  chunkLoop 8000 turns body []

/-! ## Excerpts -/

/-- A prefix within some bytes that splits no character. -/
structure Cut (text : List Nat) (bytes : Nat) (piece : List Nat) : Prop where
  split : ∃ rest, text = piece ++ rest ∧ WellPaired rest
  paired : WellPaired piece
  size : (encode piece).length ≤ bytes

/-- A cut that has every other one as a prefix. -/
structure LongestCut (text : List Nat) (bytes : Nat) (piece : List Nat) : Prop extends
    Cut text bytes piece where
  longest : ∀ other, Cut text bytes other → other <+: piece

/-- Characters that are within the bytes are among those that fit. -/
theorem prefix_fitting {bytes : Nat} {chars more : List Char} (h : (utf8 chars).length ≤ bytes) :
    chars <+: fitting bytes (chars ++ more) := by
  induction chars generalizing bytes with
  | nil => exact List.nil_prefix
  | cons c chars ih =>
      rw [length_utf8_cons] at h
      rw [List.cons_append, fitting, if_pos (by omega)]
      exact List.prefix_cons_inj c |>.2 (ih (by omega))

/-- A cut is a cut between characters. -/
theorem Cut.units {bytes : Nat} {chars : List Char} {piece : List Nat}
    (h : Cut (units chars) bytes piece) :
    ∃ before after, chars = before ++ after ∧ piece = TextCoding.units before
      ∧ (utf8 before).length ≤ bytes := by
  obtain ⟨rest, hsplit, hrest⟩ := h.split
  have hpiece := units_scalars h.paired
  have hsize := h.size
  rw [← hpiece, encode_units] at hsize
  refine ⟨scalars piece, scalars rest, ?_, hpiece.symm, hsize⟩
  rw [← scalars_units chars, hsplit]
  conv_lhs => rw [← hpiece, scalars_units_append]

/-- The characters that fit are the longest cut. -/
theorem longestCut_fitting (bytes : Nat) (chars : List Char) :
    LongestCut (units chars) bytes (units (fitting bytes chars)) := by
  obtain ⟨rest, hsplit, hsize, -⟩ := fitting_split bytes chars
  refine ⟨⟨⟨units rest, ?_, wellPaired_units rest⟩, wellPaired_units _, ?_⟩, fun other hother => ?_⟩
  · conv_lhs => rw [hsplit, units_append]
  · rw [encode_units]
    exact hsize
  · obtain ⟨before, after, rfl, rfl, hle⟩ := hother.units
    obtain ⟨more, hmore⟩ := prefix_fitting hle
    exact ⟨units more, by rw [← hmore, units_append]⟩

theorem longestCut_excerpt {text : List Nat} (h : WellPaired text) (bytes : Nat) :
    LongestCut text bytes (excerpt text bytes) := by
  have hcut := longestCut_fitting bytes (scalars text)
  rwa [← excerpt_units, units_scalars h] at hcut

/-! ## Turns of the loop -/

/-- What a turn leaves has the characters behind those it took. -/
structure Turn (text chunk : List Nat) : Prop where
  shorter : (text.drop chunk.length).length < text.length
  chars (more : List Nat) (h : scalars more = scalars (text.drop chunk.length)) :
    scalars (chunk ++ more) = scalars text
  paired (h : WellPaired text) :
    WellPaired (text.drop chunk.length) ∧ chunk ++ text.drop chunk.length = text

theorem turn_all {text : List Nat} (hne : text ≠ []) : Turn text text where
  shorter := by
    rw [List.drop_length]
    exact List.length_pos_iff.2 hne
  chars more h := by
    rw [List.drop_length] at h
    have hmore : more = [] := by
      cases more with
      | nil => rfl
      | cons u more => cases more <;> simp [scalars] at h; split at h <;> cases h
    rw [hmore, List.append_nil]
  paired _ := by
    rw [List.drop_length]
    exact ⟨.nil, List.append_nil text⟩

/-- An excerpt that has room for every character makes progress. -/
theorem turn_excerpt {text : List Nat} {bytes : Nat} (hbytes : 4 ≤ bytes) (hne : text ≠ [])
    (hunits : ∀ u ∈ text, u < 0x10000) : Turn text (excerpt text bytes) := by
  rcases Nat.lt_or_ge bytes (encode text).length with hlong | hshort
  case inr =>
    -- The rest fits, and the loop ends with it.
    rw [excerpt_short hshort]
    exact turn_all hne
  case inl =>
    obtain ⟨rest, hsplit, -, -⟩ := fitting_split bytes (scalars text)
    have hrest := scalars_drop hunits hsplit
    rw [excerpt_long hlong]
    refine ⟨?_, fun more hmore => ?_, fun hpaired => ?_⟩
    · -- The first character has at most four bytes, so it is among those that fit.
      have hpos : 0 < (units (fitting bytes (scalars text))).length := by
        cases hchars : scalars text with
        | nil =>
            rw [encode, hchars] at hlong
            exact absurd hlong (Nat.not_lt_zero bytes)
        | cons c chars =>
            rw [fitting, if_pos (c.utf8Size_le_four.trans hbytes), units, List.flatMap_cons,
              List.length_append]
            exact Nat.add_pos_left (length_charUnits_pos c) _
      rw [List.length_drop]
      exact Nat.sub_lt (List.length_pos_iff.2 hne) hpos
    · rw [scalars_units_append, hmore, hrest, ← hsplit]
    · -- Only of a well-formed text are the units those of its characters.
      have htext : text = units (fitting bytes (scalars text)) ++ units rest := by
        rw [← units_append, ← hsplit, units_scalars hpaired]
      have hdrop : text.drop (units (fitting bytes (scalars text))).length = units rest := by
        have hfront : (units (fitting bytes (scalars text)) ++ units rest).drop
            (units (fitting bytes (scalars text))).length = units rest := List.drop_left
        rwa [← htext] at hfront
      rw [hdrop]
      exact ⟨wellPaired_units rest, htext.symm⟩

/-- The loop over what is left ends, and adds pieces that make it up. -/
theorem chunkLoop_ends {bytes : Nat} (hbytes : 4 ≤ bytes) {remaining : List Nat}
    (hunits : ∀ u ∈ remaining, u < 0x10000) :
    ∃ pieces, scalars pieces.flatten = scalars remaining
      ∧ (WellPaired remaining → pieces.flatten = remaining)
      ∧ ∀ turns ≥ remaining.length, ∀ chunks,
        chunkLoop bytes turns remaining chunks = some (chunks ++ pieces) := by
  -- On the length, since an excerpt takes any number of units.
  induction hn : remaining.length using Nat.strong_induction_on generalizing remaining with
  | _ n ih =>
      subst hn
      cases remaining with
      | nil =>
          refine ⟨[], rfl, fun _ => rfl, fun turns _ chunks => ?_⟩
          rw [chunkLoop, List.append_nil]
      | cons u remaining =>
          have hturn := turn_excerpt hbytes (List.cons_ne_nil u remaining) hunits
          obtain ⟨pieces, hchars, hpieces, hloop⟩ := ih _ hturn.shorter
            (fun v hv => hunits v (List.mem_of_mem_drop hv)) rfl
          refine ⟨excerpt (u :: remaining) bytes :: pieces, ?_, fun hpaired => ?_,
            fun turns hturns chunks => ?_⟩
          · rw [List.flatten_cons, hturn.chars _ hchars]
          · obtain ⟨hrest, htext⟩ := hturn.paired hpaired
            rw [List.flatten_cons, hpieces hrest, htext]
          · have hshorter := hturn.shorter
            obtain ⟨before, rfl⟩ : ∃ before, turns = before + 1 :=
              ⟨turns - 1, by rw [List.length_cons] at hturns; omega⟩
            rw [chunkLoop, hloop before (by omega), List.append_assoc, List.singleton_append]

/-! ## The guarantee -/

/-- An excerpt of a well-formed text is its longest prefix within the bytes that splits no
    character. The loop over any body ends, with pieces that have its characters and, if it is
    well-formed, are the body. -/
theorem excerpts_cut_and_cover :
    (∀ text bytes, WellPaired text → LongestCut text bytes (excerpt text bytes))
      ∧ ∀ body : List Nat, (∀ u ∈ body, u < 0x10000) →
        ∃ chunks, (∀ turns ≥ body.length, semanticChunks turns body = some chunks)
          ∧ scalars chunks.flatten = scalars body ∧ (WellPaired body → chunks.flatten = body) := by
  refine ⟨fun text bytes h => longestCut_excerpt h bytes, fun body hunits => ?_⟩
  obtain ⟨chunks, hchars, hpieces, hloop⟩ := chunkLoop_ends (show 4 ≤ 8000 by omega) hunits
  exact ⟨chunks, fun turns hturns => hloop turns hturns [], hchars, hpieces⟩

theorem excerpts_cut_and_cover_accents :
    LongestCut (units "é中a".toList) 4 (units ['é'])
      ∧ ∃ chunks, (∀ turns ≥ (units "é中a".toList).length,
          semanticChunks turns (units "é中a".toList) = some chunks)
        ∧ chunks.flatten = units "é中a".toList := by
  obtain ⟨hcut, hcover⟩ := excerpts_cut_and_cover
  have hexcerpt : excerpt (units "é中a".toList) 4 = units ['é'] := by decide +kernel
  obtain ⟨chunks, hchunks, -, hbody⟩ := hcover (units "é中a".toList) (units_lt _)
  exact ⟨hexcerpt ▸ hcut _ 4 (wellPaired_units _), chunks, hchunks, hbody (wellPaired_units _)⟩

end LingxiOS.Memories
