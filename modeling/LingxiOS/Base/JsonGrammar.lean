-- SUMMARY: The JSON grammar as a relation, which the reader decides.
import LingxiOS.Base.JsonText

/-! # JSON Grammar

The grammar says which texts are written for a value, with what white space; the reader of
`JsonText` is sound and complete for it. -/

namespace JsonText

/-- Nothing but white space. -/
def Gap (space : Nat → Bool) (text : Units) : Prop := ∀ u ∈ text, space u = true

/-- What stands between the quotes of a string, and the string. -/
inductive StringText : Units → Units → Prop
  | nil : StringText [] []
  | hex {a b c d u : Nat} {text s : Units} (hhex : readHex a b c d = some u)
      (h : StringText text s) : StringText (92 :: 117 :: a :: b :: c :: d :: text) (u :: s)
  | short {e u : Nat} {text s : Units} (hshort : shortEscape? e = some u)
      (h : StringText text s) : StringText (92 :: e :: text) (u :: s)
  | plain {u : Nat} {text s : Units} (hprinted : 32 ≤ u) (hquote : u ≠ 34) (hbackslash : u ≠ 92)
      (h : StringText text s) : StringText (u :: text) (u :: s)

/-- What a text is written for: a value, or what stands between the brackets of a list or an
    object that is not empty. -/
inductive Part where
  | value (v : Value Number)
  | items (items : List (Value Number))
  | members (members : List (Units × Value Number))

inductive Spells : Units → Part → Prop
  | null : Spells [110, 117, 108, 108] (.value .null)
  | yes : Spells [116, 114, 117, 101] (.value (.bool true))
  | no : Spells [102, 97, 108, 115, 101] (.value (.bool false))
  | num (n : Number) : Spells n.text (.value (.num n))
  | str {inside s : Units} (h : StringText inside s) :
      Spells (34 :: (inside ++ [34])) (.value (.str s))
  | emptyArr {gap : Units} (hgap : Gap isSpace gap) :
      Spells (91 :: (gap ++ [93])) (.value (.arr []))
  | arr {inside : Units} {items : List (Value Number)} (h : Spells inside (.items items)) :
      Spells (91 :: (inside ++ [93])) (.value (.arr items))
  | emptyObj {gap : Units} (hgap : Gap isSpace gap) :
      Spells (123 :: (gap ++ [125])) (.value (.obj []))
  | obj {inside : Units} {members : List (Units × Value Number)}
      (h : Spells inside (.members members)) :
      Spells (123 :: (inside ++ [125])) (.value (.obj members))
  | item {before text after : Units} {v : Value Number} (hbefore : Gap isSpace before)
      (h : Spells text (.value v)) (hafter : Gap isSpace after) :
      Spells (before ++ (text ++ after)) (.items [v])
  | itemCons {before text after rest : Units} {v : Value Number} {items : List (Value Number)}
      (hbefore : Gap isSpace before) (h : Spells text (.value v)) (hafter : Gap isSpace after)
      (hrest : Spells rest (.items items)) :
      Spells (before ++ (text ++ (after ++ 44 :: rest))) (.items (v :: items))
  | member {before inside key between start text after : Units} {v : Value Number}
      (hbefore : Gap isSpace before) (hkey : StringText inside key) (hbetween : Gap isSpace between)
      (hstart : Gap isSpace start) (h : Spells text (.value v)) (hafter : Gap isSpace after) :
      Spells (before ++ 34 :: (inside ++ 34 :: (between ++ 58 :: (start ++ (text ++ after)))))
        (.members [(key, v)])
  | memberCons {before inside key between start text after rest : Units} {v : Value Number}
      {members : List (Units × Value Number)}
      (hbefore : Gap isSpace before) (hkey : StringText inside key) (hbetween : Gap isSpace between)
      (hstart : Gap isSpace start) (h : Spells text (.value v)) (hafter : Gap isSpace after)
      (hrest : Spells rest (.members members)) :
      Spells (before ++ 34 :: (inside ++ 34 :: (between ++ 58 :: (start ++
        (text ++ (after ++ 44 :: rest)))))) (.members ((key, v) :: members))

variable {text rest inside s : Units}

/-! ## Strings -/

theorem readString_text (h : StringText inside s) (rest : Units) :
    readString (inside ++ 34 :: rest) = some (s, rest) := by
  induction h with
  | nil => simp [readString]
  | hex hhex _ ih => simp [readString, hhex, ih]
  | @short e u text s hshort _ ih =>
      have hletter : e ≠ 117 := by
        rintro rfl
        simp [shortEscape?] at hshort
      simp [readString, hletter, hshort, ih]
  | @plain u text s hprinted hquote hbackslash _ ih =>
      have hlow : ¬u < 32 := by omega
      simp [readString, hbackslash, hlow, ih]

theorem text_of_readString {r : Units × Units} (h : readString text = some r) :
    ∃ inside, text = inside ++ 34 :: r.2 ∧ StringText inside r.1 := by
  induction text using readString.induct generalizing r with
  | case1 => simp [readString] at h
  | case2 rest =>
      simp only [readString, Option.some.injEq] at h
      subst h
      exact ⟨[], rfl, .nil⟩
  | case3 a b c d rest ih =>
      rw [readString] at h
      obtain ⟨u, hhex, h⟩ := Option.bind_eq_some_iff.1 h
      obtain ⟨q, hq, rfl⟩ := Option.map_eq_some_iff.1 h
      obtain ⟨inside, rfl, hinside⟩ := ih hq
      exact ⟨_, rfl, .hex hhex hinside⟩
  | case4 e rest hhex ih =>
      simp only [readString] at h
      obtain ⟨u, hshort, h⟩ := Option.bind_eq_some_iff.1 h
      obtain ⟨q, hq, rfl⟩ := Option.map_eq_some_iff.1 h
      obtain ⟨inside, rfl, hinside⟩ := ih hq
      exact ⟨_, rfl, .short hshort hinside⟩
  | case5 u rest hquote hhex hshort hbad => simp [readString, hbad] at h
  | case6 u rest hquote hhex hshort hgood ih =>
      simp only [readString, hgood, if_false] at h
      obtain ⟨q, hq, rfl⟩ := Option.map_eq_some_iff.1 h
      obtain ⟨inside, rfl, hinside⟩ := ih hq
      exact ⟨_, rfl, .plain (by omega) (by rintro rfl; exact hquote rfl) (by omega) hinside⟩

/-! ## Numbers -/

theorem digitUnit_of_digit? {u : Nat} {d : Fin 10} (h : digit? u = some d) : digitUnit d = u := by
  simp only [digit?] at h
  split at h
  case isTrue hrange =>
    cases h
    simp only [digitUnit]
    omega
  case isFalse => cases h

theorem takeDigits_text (text : Units) :
    (takeDigits text).1.map digitUnit ++ (takeDigits text).2 = text := by
  induction text with
  | nil => rfl
  | cons u rest ih =>
      simp only [takeDigits]
      cases hdigit : digit? u with
      | none => rfl
      | some d => simp [digitUnit_of_digit? hdigit, ih]

theorem text_of_readDigits {r : Digits × Units} (h : readDigits text = some r) :
    text = r.1.text ++ r.2 := by
  have htake := takeDigits_text text
  simp only [readDigits] at h
  split at h
  · cases h
  case h_2 d ds rest heq =>
    cases h
    rw [heq] at htake
    exact htake.symm

theorem text_of_readWhole {r : Whole × Units} (h : readWhole text = some r) :
    text = r.1.text ++ r.2 := by
  cases text with
  | nil => cases h
  | cons u rest =>
      simp only [readWhole] at h
      split at h
      case isTrue hzero => cases h; rw [hzero]; rfl
      case isFalse =>
        split at h
        case isTrue hrange =>
          cases h
          have hhead : 49 + (u - 49) = u := by omega
          simp [Whole.text, hhead, takeDigits_text]
        case isFalse => cases h

theorem text_of_readFraction {r : Option Digits × Units} (h : readFraction text = some r) :
    text = fractionText r.1 ++ r.2 := by
  cases text with
  | nil => cases h; rfl
  | cons u rest =>
      simp only [readFraction] at h
      split at h
      case isTrue hdot =>
        obtain ⟨q, hq, rfl⟩ := Option.map_eq_some_iff.1 h
        rw [hdot, text_of_readDigits hq]
        rfl
      case isFalse => cases h; rfl

theorem text_of_readSign (text : Units) :
    text = (match (readSign text).1 with
      | none => []
      | some true => [45]
      | some false => [43]) ++ (readSign text).2 := by
  cases text with
  | nil => rfl
  | cons u rest =>
      simp only [readSign]
      split_ifs with hminus hplus
      · rw [hminus]; rfl
      · rw [hplus]; rfl
      · rfl

theorem text_of_readExponent {r : Option Exponent × Units} (h : readExponent text = some r) :
    text = exponentText r.1 ++ r.2 := by
  cases text with
  | nil => cases h; rfl
  | cons u rest =>
      simp only [readExponent] at h
      split at h
      case isTrue hletter =>
        obtain ⟨q, hq, rfl⟩ := Option.map_eq_some_iff.1 h
        have hrest := text_of_readSign rest
        have hcapital : (if decide (u = 69) = true then 69 else 101) = u := by
          rcases hletter with rfl | rfl <;> rfl
        rw [text_of_readDigits hq] at hrest
        simp only [exponentText, hcapital, List.cons_append, List.append_assoc]
        exact congrArg (u :: ·) hrest
      case isFalse => cases h; rfl

theorem text_of_readNumber {r : Number × Units} (h : readNumber text = some r) :
    text = r.1.text ++ r.2 := by
  have hminus : text = (if (readMinus text).1 then [45] else []) ++ (readMinus text).2 := by
    cases text with
    | nil => rfl
    | cons u rest =>
        by_cases hu : u = 45
        case pos => subst hu; rfl
        case neg => simp [readMinus, hu]
  simp only [readNumber] at h
  obtain ⟨whole, hwhole, h⟩ := Option.bind_eq_some_iff.1 h
  obtain ⟨fraction, hfraction, h⟩ := Option.bind_eq_some_iff.1 h
  obtain ⟨exponent, hexponent, rfl⟩ := Option.map_eq_some_iff.1 h
  rw [text_of_readWhole hwhole, text_of_readFraction hfraction,
    text_of_readExponent hexponent] at hminus
  simpa [Number.text] using hminus

/-! ## White space -/

theorem skipSpace_text (text : Units) : ∃ gap, text = gap ++ skipSpace text ∧ Gap isSpace gap := by
  induction text with
  | nil => exact ⟨[], rfl, List.forall_mem_nil _⟩
  | cons u rest ih =>
      obtain ⟨gap, hrest, hgap⟩ := ih
      by_cases hu : isSpace u = true
      case pos =>
        refine ⟨u :: gap, ?_, List.forall_mem_cons.2 ⟨hu, hgap⟩⟩
        simp only [skipSpace, if_pos hu, List.cons_append, ← hrest]
      case neg => exact ⟨[], by simp [skipSpace, hu], List.forall_mem_nil _⟩

theorem skipSpace_eq_nil_iff : skipSpace text = [] ↔ Gap isSpace text := by
  constructor
  · intro h
    obtain ⟨gap, htext, hgap⟩ := skipSpace_text text
    rw [htext, h, List.append_nil]
    exact hgap
  · intro h
    simpa [skipSpace] using skipSpace_gap h []

theorem Stops.gap {gap : Units} (hgap : Gap isSpace gap) (h : Stops rest) :
    Stops (gap ++ rest) := by
  cases gap with
  | nil => exact h
  | cons u gap =>
      have hu := hgap u List.mem_cons_self
      simp only [isSpace, Bool.or_eq_true, beq_iff_eq] at hu
      simp only [List.cons_append, Stops, digit?]
      rcases hu with ((rfl | rfl) | rfl) | rfl <;> simp

/-- A text that starts with a quote is a string or nothing. -/
theorem parse_quote (text : Units) : parse (34 :: text)
    = (readString text).bind fun r => if skipSpace r.2 = [] then some (.str r.1) else none := by
  have hread : readValue ((34 :: text).length + 1) (34 :: text)
      = (readString text).map fun r => (.str r.1, r.2) := by
    simp only [readValue, skipSpace_of_not _ (show isSpace 34 = false from rfl)]
  rw [parse, hread, Option.bind_map]
  rfl


/-! ## What the reader accepts is in the grammar -/

section Sound

variable {fuel : Nat}

/-- What reading with some fuel finds is spelled. -/
structure Sound (fuel : Nat) : Prop where
  value : ∀ {text rest v}, readValue fuel text = some (v, rest) →
    ∃ before used, text = before ++ (used ++ rest) ∧ Gap isSpace before ∧ Spells used (.value v)
  items : ∀ {text rest items}, readItems fuel text = some (items, rest) →
    ∃ used, text = used ++ 93 :: rest ∧ Spells used (.items items)
  members : ∀ {text rest members}, readMembers fuel text = some (members, rest) →
    ∃ used, text = used ++ 125 :: rest ∧ Spells used (.members members)

theorem Gap.append {space : Nat → Bool} {gap more : Units} (h : Gap space gap)
    (hmore : Gap space more) : Gap space (gap ++ more) :=
  List.forall_mem_append.2 ⟨h, hmore⟩

/-- White space before the items belongs to the first. -/
theorem Spells.gap_items {gap : Units} {items : List (Value Number)} (hgap : Gap isSpace gap)
    (h : Spells text (.items items)) : Spells (gap ++ text) (.items items) := by
  cases h with
  | item hbefore h hafter =>
      rw [← List.append_assoc]
      exact .item (hgap.append hbefore) h hafter
  | itemCons hbefore h hafter hrest =>
      rw [← List.append_assoc]
      exact .itemCons (hgap.append hbefore) h hafter hrest

theorem Spells.gap_members {gap : Units} {members : List (Units × Value Number)}
    (hgap : Gap isSpace gap) (h : Spells text (.members members)) :
    Spells (gap ++ text) (.members members) := by
  cases h with
  | member hbefore hkey hbetween hstart h hafter =>
      rw [← List.append_assoc]
      exact .member (hgap.append hbefore) hkey hbetween hstart h hafter
  | memberCons hbefore hkey hbetween hstart h hafter hrest =>
      rw [← List.append_assoc]
      exact .memberCons (hgap.append hbefore) hkey hbetween hstart h hafter hrest

theorem value_sound (ih : Sound fuel) {v : Value Number}
    (h : readValue (fuel + 1) text = some (v, rest)) :
    ∃ before used, text = before ++ (used ++ rest) ∧ Gap isSpace before
      ∧ Spells used (.value v) := by
  obtain ⟨gap, htext, hgap⟩ := skipSpace_text text
  suffices hused : ∃ used, skipSpace text = used ++ rest ∧ Spells used (.value v) by
    obtain ⟨used, hskip, hused⟩ := hused
    exact ⟨gap, used, hskip ▸ htext, hgap, hused⟩
  simp only [readValue] at h
  split at h
  case h_1 tail hskip =>
    cases h
    exact ⟨_, hskip, .null⟩
  case h_2 tail hskip =>
    cases h
    exact ⟨_, hskip, .yes⟩
  case h_3 tail hskip =>
    cases h
    exact ⟨_, hskip, .no⟩
  case h_4 tail hskip =>
    obtain ⟨r, hr, h⟩ := Option.map_eq_some_iff.1 h
    cases h
    obtain ⟨inside, hinside, hs⟩ := text_of_readString hr
    refine ⟨34 :: (inside ++ [34]), ?_, .str hs⟩
    rw [hskip, hinside]
    simp
  case h_5 tail hskip =>
    obtain ⟨gap', htail, hgap'⟩ := skipSpace_text tail
    split at h
    case h_1 more hskip' =>
      cases h
      refine ⟨91 :: (gap' ++ [93]), ?_, .emptyArr hgap'⟩
      rw [hskip, htail, hskip']
      simp
    case h_2 =>
      obtain ⟨r, hr, h⟩ := Option.map_eq_some_iff.1 h
      cases h
      obtain ⟨used, hmore, hused⟩ := ih.items hr
      refine ⟨91 :: (gap' ++ used ++ [93]), ?_, .arr (hused.gap_items hgap')⟩
      rw [hskip, htail, hmore]
      simp
  case h_6 tail hskip =>
    obtain ⟨gap', htail, hgap'⟩ := skipSpace_text tail
    split at h
    case h_1 more hskip' =>
      cases h
      refine ⟨123 :: (gap' ++ [125]), ?_, .emptyObj hgap'⟩
      rw [hskip, htail, hskip']
      simp
    case h_2 =>
      obtain ⟨r, hr, h⟩ := Option.map_eq_some_iff.1 h
      cases h
      obtain ⟨used, hmore, hused⟩ := ih.members hr
      refine ⟨123 :: (gap' ++ used ++ [125]), ?_, .obj (hused.gap_members hgap')⟩
      rw [hskip, htail, hmore]
      simp
  case h_7 => 
    obtain ⟨r, hr, h⟩ := Option.map_eq_some_iff.1 h
    cases h
    exact ⟨_, text_of_readNumber hr, .num _⟩

theorem items_sound (ih : Sound fuel) {items : List (Value Number)}
    (h : readItems (fuel + 1) text = some (items, rest)) :
    ∃ used, text = used ++ 93 :: rest ∧ Spells used (.items items) := by
  rw [readItems] at h
  obtain ⟨⟨v, tail⟩, hv, h⟩ := Option.bind_eq_some_iff.1 h
  obtain ⟨before, used, htext, hbefore, hused⟩ := ih.value hv
  obtain ⟨after, htail, hafter⟩ := skipSpace_text tail
  split at h
  case h_1 more hskip =>
    obtain ⟨r, hr, h⟩ := Option.map_eq_some_iff.1 h
    cases h
    obtain ⟨used', hmore, hrest⟩ := ih.items hr
    refine ⟨_, ?_, .itemCons hbefore hused hafter hrest⟩
    rw [htext, htail, hskip, hmore]
    simp
  case h_2 more hskip =>
    cases h
    refine ⟨_, ?_, .item hbefore hused hafter⟩
    rw [htext, htail, hskip]
    simp
  case h_3 => cases h

theorem members_sound (ih : Sound fuel) {members : List (Units × Value Number)}
    (h : readMembers (fuel + 1) text = some (members, rest)) :
    ∃ used, text = used ++ 125 :: rest ∧ Spells used (.members members) := by
  obtain ⟨before, htext, hbefore⟩ := skipSpace_text text
  rw [readMembers] at h
  split at h
  case h_2 => cases h
  case h_1 start hstart =>
  obtain ⟨⟨key, tail⟩, hkey, h⟩ := Option.bind_eq_some_iff.1 h
  obtain ⟨inside, hstring, hinside⟩ := text_of_readString hkey
  obtain ⟨between, htail, hbetween⟩ := skipSpace_text tail
  split at h
  case h_2 => cases h
  case h_1 start' hstart' =>
  obtain ⟨⟨v, tail'⟩, hv, h⟩ := Option.bind_eq_some_iff.1 h
  obtain ⟨start'', used, hvalue, hstart'', hused⟩ := ih.value hv
  obtain ⟨after, htail', hafter⟩ := skipSpace_text tail'
  split at h
  case h_1 more hskip =>
    obtain ⟨r, hr, h⟩ := Option.map_eq_some_iff.1 h
    cases h
    obtain ⟨used', hmore, hrest⟩ := ih.members hr
    refine ⟨_, ?_, .memberCons hbefore hinside hbetween hstart'' hused hafter hrest⟩
    rw [htext, hstart, hstring, htail, hstart', hvalue, htail', hskip, hmore]
    simp
  case h_2 more hskip =>
    cases h
    refine ⟨_, ?_, .member hbefore hinside hbetween hstart'' hused hafter⟩
    rw [htext, hstart, hstring, htail, hstart', hvalue, htail', hskip]
    simp
  case h_3 => cases h

theorem sound (fuel : Nat) : Sound fuel := by
  induction fuel with
  | zero =>
      constructor
      · intro text rest v h
        simp [readValue] at h
      · intro text rest items h
        simp [readItems] at h
      · intro text rest members h
        simp [readMembers] at h
  | succ fuel ih => exact ⟨value_sound ih, items_sound ih, members_sound ih⟩

end Sound

/-! ## What is in the grammar the reader accepts -/

theorem readItems_skipSpace (fuel : Nat) (text : Units) :
    readItems fuel (skipSpace text) = readItems fuel text := by
  obtain ⟨gap, htext, hgap⟩ := skipSpace_text text
  rw [htext, readItems_gap hgap, ← htext]

theorem readMembers_skipSpace (fuel : Nat) (text : Units) :
    readMembers fuel (skipSpace text) = readMembers fuel text := by
  obtain ⟨gap, htext, hgap⟩ := skipSpace_text text
  rw [htext, readMembers_gap hgap, ← htext]

/-- A value starts with a unit that is no white space and that nothing ends with. -/
theorem Spells.head {v : Value Number} (h : Spells text (.value v)) :
    ∃ u us, text = u :: us ∧ 32 < u ∧ u < 125 ∧ u ≠ 44 ∧ u ≠ 93 := by
  cases h with
  | num n =>
      obtain ⟨u, us, htext, -⟩ := writes_text.starts n
      have hplain := n.text_plain u (htext ▸ List.mem_cons_self)
      exact ⟨u, us, htext, by omega⟩
  | null | yes | no | str | emptyArr | arr | emptyObj | obj => exact ⟨_, _, rfl, by decide⟩

theorem isSpace_of_lt {u : Nat} (h : 32 < u) : isSpace u = false := by
  simp [isSpace]
  omega

theorem skipSpace_items {items : List (Value Number)} (h : Spells text (.items items))
    (rest : Units) : ∃ u us, skipSpace (text ++ rest) = u :: us ∧ u ≠ 93 := by
  have hhead {before used more : Units} {v : Value Number} (hbefore : Gap isSpace before)
      (hused : Spells used (.value v)) :
      ∃ u us, skipSpace (before ++ (used ++ more)) = u :: us ∧ u ≠ 93 := by
    obtain ⟨u, us, rfl, hprinted, -, -, h93⟩ := hused.head
    refine ⟨u, us ++ more, ?_, h93⟩
    rw [skipSpace_gap hbefore, List.cons_append, skipSpace_of_not _ (isSpace_of_lt hprinted)]
  cases h with
  | item hbefore h hafter => simpa only [List.append_assoc] using hhead hbefore h
  | itemCons hbefore h hafter hrest => simpa only [List.append_assoc] using hhead hbefore h

theorem skipSpace_members {members : List (Units × Value Number)}
    (h : Spells text (.members members)) (rest : Units) :
    ∃ us, skipSpace (text ++ rest) = 34 :: us := by
  cases h with
  | member hbefore | memberCons hbefore =>
      rw [List.append_assoc, skipSpace_gap hbefore]
      exact ⟨_, skipSpace_of_not _ rfl⟩

/-- What a reader finds when there is fuel for the text. -/
def Reads (text : Units) : Part → Prop
  | .value v => ∀ fuel rest, text.length < fuel → Stops rest →
      readValue fuel (text ++ rest) = some (v, rest)
  | .items items => ∀ fuel rest, text.length + 1 < fuel →
      readItems fuel (text ++ 93 :: rest) = some (items, rest)
  | .members members => ∀ fuel rest, text.length + 1 < fuel →
      readMembers fuel (text ++ 125 :: rest) = some (members, rest)

theorem stops_mark (rest : Units) : Stops (44 :: rest) := by
  simp [Stops, digit?]

theorem Spells.reads {part : Part} (h : Spells text part) : Reads text part := by
  induction h with
  | null | yes | no =>
      intro fuel rest hfuel _
      obtain ⟨fuel, rfl⟩ := Nat.exists_eq_succ_of_ne_zero (Nat.ne_zero_of_lt hfuel)
      simp [readValue, skipSpace, isSpace]
  | num n =>
      intro fuel rest hfuel hrest
      obtain ⟨fuel, rfl⟩ := Nat.exists_eq_succ_of_ne_zero (Nat.ne_zero_of_lt hfuel)
      exact readValue_number writes_text n fuel hrest
  | @str inside s h =>
      intro fuel rest hfuel _
      obtain ⟨fuel, rfl⟩ := Nat.exists_eq_succ_of_ne_zero (Nat.ne_zero_of_lt hfuel)
      have htext : 34 :: (inside ++ [34]) ++ rest = 34 :: (inside ++ 34 :: rest) := by simp
      rw [htext]
      simp only [readValue, skipSpace_of_not _ (show isSpace 34 = false from rfl),
        readString_text h]
      rfl
  | @emptyArr gap hgap =>
      intro fuel rest hfuel _
      obtain ⟨fuel, rfl⟩ := Nat.exists_eq_succ_of_ne_zero (Nat.ne_zero_of_lt hfuel)
      have htext : 91 :: (gap ++ [93]) ++ rest = 91 :: (gap ++ 93 :: rest) := by simp
      rw [htext]
      simp only [readValue, skipSpace_of_not _ (show isSpace 91 = false from rfl),
        skipSpace_gap hgap, skipSpace_of_not _ (show isSpace 93 = false from rfl)]
  | @arr inside items h ih =>
      intro fuel rest hfuel _
      obtain ⟨fuel, rfl⟩ := Nat.exists_eq_succ_of_ne_zero (Nat.ne_zero_of_lt hfuel)
      have htext : 91 :: (inside ++ [93]) ++ rest = 91 :: (inside ++ 93 :: rest) := by simp
      simp only [List.length_cons, List.length_append, List.length_nil] at hfuel
      have hread := ih fuel rest (by omega)
      obtain ⟨u, us, hskip, h93⟩ := skipSpace_items h (93 :: rest)
      rw [← readItems_skipSpace, hskip] at hread
      rw [htext]
      simp only [readValue, skipSpace_of_not _ (show isSpace 91 = false from rfl), hskip]
      split
      case h_1 heq => exact absurd (List.cons.inj heq).1 h93
      case h_2 => rw [hread]; rfl
  | @emptyObj gap hgap =>
      intro fuel rest hfuel _
      obtain ⟨fuel, rfl⟩ := Nat.exists_eq_succ_of_ne_zero (Nat.ne_zero_of_lt hfuel)
      have htext : 123 :: (gap ++ [125]) ++ rest = 123 :: (gap ++ 125 :: rest) := by simp
      rw [htext]
      simp only [readValue, skipSpace_of_not _ (show isSpace 123 = false from rfl),
        skipSpace_gap hgap, skipSpace_of_not _ (show isSpace 125 = false from rfl)]
  | @obj inside members h ih =>
      intro fuel rest hfuel _
      obtain ⟨fuel, rfl⟩ := Nat.exists_eq_succ_of_ne_zero (Nat.ne_zero_of_lt hfuel)
      have htext : 123 :: (inside ++ [125]) ++ rest = 123 :: (inside ++ 125 :: rest) := by simp
      simp only [List.length_cons, List.length_append, List.length_nil] at hfuel
      have hread := ih fuel rest (by omega)
      obtain ⟨us, hskip⟩ := skipSpace_members h (125 :: rest)
      rw [← readMembers_skipSpace, hskip] at hread
      rw [htext]
      simp only [readValue, skipSpace_of_not _ (show isSpace 123 = false from rfl), hskip, hread]
      rfl
  | @item before text after v hbefore h hafter ih =>
      intro fuel rest hfuel
      obtain ⟨fuel, rfl⟩ := Nat.exists_eq_succ_of_ne_zero (Nat.ne_zero_of_lt hfuel)
      have hread := ih fuel (after ++ 93 :: rest)
        (by simp only [List.length_append] at hfuel; omega) ((stops_close rest).1.gap hafter)
      simp only [readItems, List.append_assoc, readValue_gap hbefore, hread, Option.bind_some,
        skipSpace_gap hafter, skipSpace_of_not _ (show isSpace 93 = false from rfl)]
  | @itemCons before text after more v items hbefore h hafter hrest ih ihrest =>
      intro fuel rest hfuel
      obtain ⟨fuel, rfl⟩ := Nat.exists_eq_succ_of_ne_zero (Nat.ne_zero_of_lt hfuel)
      simp only [List.length_append, List.length_cons] at hfuel
      have hread := ih fuel (after ++ 44 :: (more ++ 93 :: rest)) (by omega)
        ((stops_mark _).gap hafter)
      have hmore := ihrest fuel rest (by omega)
      simp only [readItems, List.append_assoc, List.cons_append, readValue_gap hbefore, hread,
        Option.bind_some, skipSpace_gap hafter,
        skipSpace_of_not _ (show isSpace 44 = false from rfl), hmore]
      rfl
  | @member before inside key between start text after v hbefore hkey hbetween hstart h hafter ih =>
      intro fuel rest hfuel
      obtain ⟨fuel, rfl⟩ := Nat.exists_eq_succ_of_ne_zero (Nat.ne_zero_of_lt hfuel)
      simp only [List.length_append, List.length_cons] at hfuel
      have hread := ih fuel (after ++ 125 :: rest) (by omega) ((stops_close rest).2.gap hafter)
      simp only [readMembers, List.append_assoc, List.cons_append, skipSpace_gap hbefore,
        skipSpace_of_not _ (show isSpace 34 = false from rfl), readString_text hkey,
        Option.bind_some, skipSpace_gap hbetween,
        skipSpace_of_not _ (show isSpace 58 = false from rfl), readValue_gap hstart, hread,
        skipSpace_gap hafter, skipSpace_of_not _ (show isSpace 125 = false from rfl)]
  | @memberCons before inside key between start text after more v members hbefore hkey hbetween
      hstart h hafter hrest ih ihrest =>
      intro fuel rest hfuel
      obtain ⟨fuel, rfl⟩ := Nat.exists_eq_succ_of_ne_zero (Nat.ne_zero_of_lt hfuel)
      simp only [List.length_append, List.length_cons] at hfuel
      have hread := ih fuel (after ++ 44 :: (more ++ 125 :: rest)) (by omega)
        ((stops_mark _).gap hafter)
      have hmore := ihrest fuel rest (by omega)
      simp only [readMembers, List.append_assoc, List.cons_append, skipSpace_gap hbefore,
        skipSpace_of_not _ (show isSpace 34 = false from rfl), readString_text hkey,
        Option.bind_some, skipSpace_gap hbetween,
        skipSpace_of_not _ (show isSpace 58 = false from rfl), readValue_gap hstart, hread,
        skipSpace_gap hafter, skipSpace_of_not _ (show isSpace 44 = false from rfl), hmore]
      rfl

/-- The reader accepts exactly the values of the grammar. -/
theorem parse_iff {v : Value Number} : parse text = some v
    ↔ ∃ before used after, text = before ++ (used ++ after) ∧ Gap isSpace before
      ∧ Spells used (.value v) ∧ Gap isSpace after := by
  constructor
  · intro h
    rw [parse] at h
    obtain ⟨⟨v', rest⟩, hread, h⟩ := Option.bind_eq_some_iff.1 h
    obtain ⟨before, used, htext, hbefore, hused⟩ := (sound _).value hread
    split at h
    case isTrue hrest => cases h; exact ⟨before, used, rest, htext, hbefore, hused,
      skipSpace_eq_nil_iff.1 hrest⟩
    case isFalse => cases h
  · rintro ⟨before, used, after, rfl, hbefore, hused, hafter⟩
    have hstops : Stops after := by
      simpa using Stops.gap hafter (show Stops [] from trivial)
    have hread := hused.reads ((before ++ (used ++ after)).length + 1) after
      (by simp only [List.length_append]; omega) hstops
    rw [parse, readValue_gap hbefore, hread, Option.bind_some,
      if_pos (skipSpace_eq_nil_iff.2 hafter)]

/-! ## 16-bit texts -/

theorem hexDigit?_lt {u n : Nat} (h : hexDigit? u = some n) : n < 16 := by
  unfold hexDigit? at h
  split_ifs at h <;> cases h <;> omega

theorem StringText.over (h : StringText inside s) (hinside : ∀ u ∈ inside, u < 0x10000) :
    ∀ u ∈ s, u < 0x10000 := by
  induction h with
  | nil => simp
  | @hex a b c d u text s hhex _ ih =>
      simp only [List.forall_mem_cons] at hinside
      have hu : u < 0x10000 := by
        simp only [readHex, Option.bind_eq_some_iff, Option.map_eq_some_iff] at hhex
        obtain ⟨a', ha, b', hb, c', hc, d', hd, rfl⟩ := hhex
        have hdigits := And.intro (hexDigit?_lt ha) (And.intro (hexDigit?_lt hb)
          (And.intro (hexDigit?_lt hc) (hexDigit?_lt hd)))
        omega
      exact List.forall_mem_cons.2 ⟨hu, ih hinside.2.2.2.2.2.2⟩
  | @short e u text s hshort _ ih =>
      simp only [List.forall_mem_cons] at hinside
      have hu : u < 0x10000 := by
        unfold shortEscape? at hshort
        split_ifs at hshort <;> cases hshort <;> decide
      exact List.forall_mem_cons.2 ⟨hu, ih hinside.2.2⟩
  | plain _ _ _ _ ih =>
      rw [List.forall_mem_cons] at hinside
      exact List.forall_mem_cons.2 ⟨hinside.1, ih hinside.2⟩

/-- A part whose strings are of 16-bit units. -/
def Part.Over : Part → Prop
  | .value v => v.Over (· < 0x10000)
  | .items vs => Value.OverItems (· < 0x10000) vs
  | .members ms => Value.OverMembers (· < 0x10000) ms

theorem Spells.over {part : Part} (h : Spells text part) (htext : ∀ u ∈ text, u < 0x10000) :
    part.Over := by
  induction h with
  | null | yes | no | num | emptyArr | emptyObj => trivial
  | str h => exact h.over fun u hu => htext u (by simp [hu])
  | arr _ ih => exact ih fun u hu => htext u (by simp [hu])
  | obj _ ih => exact ih fun u hu => htext u (by simp [hu])
  | item _ _ _ ih => exact ⟨ih fun u hu => htext u (by simp [hu]), trivial⟩
  | itemCons _ _ _ _ ih ihrest =>
      exact ⟨ih fun u hu => htext u (by simp [hu]), ihrest fun u hu => htext u (by simp [hu])⟩
  | member _ hkey _ _ _ _ ih =>
      exact ⟨hkey.over fun u hu => htext u (by simp [hu]), ih fun u hu => htext u (by simp [hu]),
        trivial⟩
  | memberCons _ hkey _ _ _ _ _ ih ihrest =>
      exact ⟨hkey.over fun u hu => htext u (by simp [hu]), ih fun u hu => htext u (by simp [hu]),
        ihrest fun u hu => htext u (by simp [hu])⟩

/-- What is read of a text of 16-bit units is of such units. -/
theorem parse_over {v : Value Number} (h : parse text = some v) (htext : ∀ u ∈ text, u < 0x10000) :
    v.Over (· < 0x10000) := by
  obtain ⟨before, used, after, rfl, -, hused, -⟩ := parse_iff.1 h
  exact hused.over fun u hu => htext u (by simp [hu])

end JsonText
