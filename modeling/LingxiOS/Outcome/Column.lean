-- SUMMARY: Values in a JSONB column: what is stored and read back.
import LingxiOS.Base.TextCoding
import LingxiOS.Protocol.Jsonb
import LingxiOS.Protocol.Workspace

/-! # Values in a Column

A value is written to a JSONB column as `JSON.stringify` writes it and read from it by
`JSON.parse`. The column keeps the members of an object in an order of its own. -/

namespace LingxiOS.Jsonb

/-! ## Order of keys -/

theorem keyOrder_iff {a b : String} : keyOrder a b = true
    ↔ a.utf8ByteSize < b.utf8ByteSize ∨ a.utf8ByteSize = b.utf8ByteSize ∧ a ≤ b := by
  simp [keyOrder]

theorem keyOrder_total (a b : String) : keyOrder a b = true ∨ keyOrder b a = true := by
  rw [keyOrder_iff, keyOrder_iff]
  rcases Nat.lt_trichotomy a.utf8ByteSize b.utf8ByteSize with hlt | heq | hgt
  · exact .inl (.inl hlt)
  · rcases String.le_total a b with hle | hle
    · exact .inl (.inr ⟨heq, hle⟩)
    · exact .inr (.inr ⟨heq.symm, hle⟩)
  · exact .inr (.inl hgt)

theorem keyOrder_trans {a b c : String} (hab : keyOrder a b = true) (hbc : keyOrder b c = true) :
    keyOrder a c = true := by
  rw [keyOrder_iff] at hab hbc ⊢
  rcases hab with hab | ⟨hab, hle⟩
  · rcases hbc with hbc | ⟨hbc, -⟩
    · exact .inl (hab.trans hbc)
    · exact .inl (hbc ▸ hab)
  · rcases hbc with hbc | ⟨hbc, hle'⟩
    · exact .inl (hab ▸ hbc)
    · exact .inr ⟨hab.trans hbc, String.le_trans hle hle'⟩

theorem keyOrder_antisymm {a b : String} (hab : keyOrder a b = true) (hba : keyOrder b a = true) :
    a = b := by
  rw [keyOrder_iff] at hab hba
  rcases hab with hab | ⟨heq, hle⟩
  · rcases hba with hba | ⟨heq, -⟩
    · exact absurd hba hab.asymm
    · exact absurd heq hab.ne'
  · rcases hba with hba | ⟨-, hle'⟩
    · exact absurd heq hba.ne'
    · exact String.le_antisymm hle hle'

end LingxiOS.Jsonb

namespace LingxiOS.Column

open JsonText Stringify

/-! ## What can be stored -/

/-- No half of a pair stands alone. -/
def isPaired : Units → Bool
  | [] => true
  | [u] => !isHigh u && !isLow u
  | u :: w :: rest =>
      if isHigh u && isLow w then isPaired rest
      else !isHigh u && !isLow u && isPaired (w :: rest)

/-- PostgreSQL stores every text but one with U+0000 or half a pair. -/
def storableText (s : Units) : Bool := !s.contains 0 && isPaired s

mutual

def storable : Value Number → Bool
  | .str s => storableText s
  | .arr items => storableItems items
  | .obj members => storableMembers members
  | _ => true

def storableItems : List (Value Number) → Bool
  | [] => true
  | v :: rest => storable v && storableItems rest

def storableMembers : List (Units × Value Number) → Bool
  | [] => true
  | (k, v) :: rest => storableText k && storable v && storableMembers rest

end

theorem storableItems_iff {items : List (Value Number)} :
    storableItems items = true ↔ ∀ v ∈ items, storable v = true := by
  induction items with
  | nil => simp [storableItems]
  | cons v rest ih => simp [storableItems, ih]

theorem storableMembers_iff {members : List (Units × Value Number)} :
    storableMembers members = true
      ↔ ∀ m ∈ members, storableText m.1 = true ∧ storable m.2 = true := by
  induction members with
  | nil => simp [storableMembers]
  | cons m rest ih => simp [storableMembers, ih, and_assoc]

theorem wellPaired_of_isPaired {s : Units} (h : isPaired s = true) (hs : ∀ u ∈ s, u < 0x10000) :
    TextCoding.WellPaired s := by
  have hplain {u : Nat} (hu : (!isHigh u && !isLow u) = true) (hlt : u < 0x10000) :
      u < 0xD800 ∨ (0xE000 ≤ u ∧ u < 0x10000) := by
    simp only [isHigh, isLow, Bool.and_eq_true, Bool.not_eq_true', Bool.and_eq_false_iff,
      decide_eq_false_iff_not] at hu
    omega
  induction s using isPaired.induct with
  | case1 => exact .nil
  | case2 u => exact .unit (hplain h (hs u List.mem_cons_self)) .nil
  | case3 u w rest hpair ih =>
      rw [isPaired, if_pos hpair] at h
      rw [Bool.and_eq_true] at hpair
      refine .pair hpair.1 hpair.2 (ih h fun x hx => hs x ?_)
      exact List.mem_cons_of_mem _ (List.mem_cons_of_mem _ hx)
  | case4 u w rest hpair ih =>
      rw [isPaired, if_neg hpair, Bool.and_eq_true] at h
      exact .unit (hplain h.1 (hs u List.mem_cons_self))
        (ih h.2 fun x hx => hs x (List.mem_cons_of_mem _ hx))

/-! ## Order of names -/

/-- A name as the column holds it. -/
def key (name : Units) : String := .ofList (TextCoding.scalars name)

/-- The order of an object's names once it is read: indices come first, and the others as the
    column keeps them. -/
def readOrder (a b : Units) : Bool :=
  match Live.arrayIndex? a, Live.arrayIndex? b with
  | some i, some j => i ≤ j
  | some _, none => true
  | none, some _ => false
  | none, none => Jsonb.keyOrder (key a) (key b)

theorem key_injective {a b : Units} (ha : ∀ u ∈ a, u < 0x10000) (hb : ∀ u ∈ b, u < 0x10000)
    (hpaired : isPaired a = true) (hpaired' : isPaired b = true) (h : key a = key b) : a = b := by
  have hscalars := String.ofList_injective h
  rw [← TextCoding.units_scalars (wellPaired_of_isPaired hpaired ha), hscalars,
    TextCoding.units_scalars (wellPaired_of_isPaired hpaired' hb)]

/-- The digits of an index, the last first. -/
theorem digits_of_arrayIndex {name : Units} {i : Nat} (h : Live.arrayIndex? name = some i) :
    (∀ u ∈ name, 48 ≤ u) ∧
      (name = [48] ∧ i = 0 ∨ (name.map (· - 48)).reverse = Nat.digits 10 i ∧ name ≠ []) := by
  unfold Live.arrayIndex? at h
  split at h
  · cases h
    exact ⟨by simp, .inl ⟨rfl, rfl⟩⟩
  · dsimp only at h
    split at h
    case isFalse => cases h
    case isTrue hname =>
      simp only [Bool.and_eq_true, List.all_eq_true, decide_eq_true_eq] at hname
      obtain ⟨⟨hhead, hdigits⟩, -⟩ := hname
      obtain rfl := Option.some.inj h
      have hvalue : name.foldl (fun n u => 10 * n + (u - 48)) 0
          = Nat.ofDigits 10 (name.map (· - 48)).reverse := by
        rw [← Double.foldl_reverse_digits, List.reverse_reverse, List.foldl_map]
        simp only [Nat.mul_comm]
      cases name with
      | nil => cases hhead
      | cons u rest =>
          refine ⟨fun v hv => (hdigits v hv).1, .inr ⟨?_, List.cons_ne_nil _ _⟩⟩
          rw [hvalue]
          refine (Nat.digits_ofDigits 10 (by norm_num) _ ?_ ?_).symm
          · intro digit hdigit
            obtain ⟨v, hv, rfl⟩ := List.mem_map.1 (List.mem_reverse.1 hdigit)
            have hbounds := hdigits v hv
            omega
          · intro _
            have hfirst : 49 ≤ u := by simpa using hhead
            rw [List.getLast_reverse]
            simp only [List.map_cons, List.head_cons]
            omega

theorem arrayIndex_injective {a b : Units} {i : Nat} (ha : Live.arrayIndex? a = some i)
    (hb : Live.arrayIndex? b = some i) : a = b := by
  obtain ⟨hlow, ha⟩ := digits_of_arrayIndex ha
  obtain ⟨hlow', hb⟩ := digits_of_arrayIndex hb
  have hback {name : Units} (h : ∀ u ∈ name, 48 ≤ u) : (name.map (· - 48)).map (· + 48) = name := by
    rw [List.map_map]
    refine (List.map_congr_left fun u hu => ?_).trans name.map_id
    exact Nat.sub_add_cancel (h u hu)
  rcases ha with ⟨rfl, rfl⟩ | ⟨ha, hne⟩
  · rcases hb with ⟨rfl, -⟩ | ⟨hb, hne⟩
    · rfl
    · simp [hne] at hb
  · rcases hb with ⟨rfl, rfl⟩ | ⟨hb, -⟩
    · simp [hne] at ha
    · rw [← hback hlow, ← hback hlow', List.reverse_injective (ha.trans hb.symm)]

theorem readOrder_antisymm {a b : Units} (ha : ∀ u ∈ a, u < 0x10000) (hb : ∀ u ∈ b, u < 0x10000)
    (hpaired : isPaired a = true) (hpaired' : isPaired b = true) (hab : readOrder a b = true)
    (hba : readOrder b a = true) : a = b := by
  cases hi : Live.arrayIndex? a with
  | some i =>
      cases hj : Live.arrayIndex? b with
      | some j =>
          simp only [readOrder, hi, hj, decide_eq_true_eq] at hab hba
          exact arrayIndex_injective hi (hj.trans (congrArg some (Nat.le_antisymm hba hab)))
      | none => simp [readOrder, hi, hj] at hba
  | none =>
      cases hj : Live.arrayIndex? b with
      | some j => simp [readOrder, hi, hj] at hab
      | none =>
          simp only [readOrder, hi, hj] at hab hba
          exact key_injective ha hb hpaired hpaired' (Jsonb.keyOrder_antisymm hab hba)

/-! ## Members -/

section Members

variable {α β : Type} {members others : List (Units × α)}

/-- The members of an object as the column keeps them. -/
def arrange (members : List (Units × α)) : List (Units × α) :=
  members.insertionSort fun a b => Jsonb.keyOrder (key a.1) (key b.1)

/-- The members of an object in the order a program lists them in. -/
def indicesFirst (members : List (Units × α)) : List (Units × α) :=
  (members.filter fun m => (Live.arrayIndex? m.1).isSome).insertionSort
      (fun a b => (Live.arrayIndex? a.1).getD 0 ≤ (Live.arrayIndex? b.1).getD 0)
    ++ members.filter fun m => (Live.arrayIndex? m.1).isNone

theorem fromEntries_eq (members : List (Units × Live)) :
    Live.fromEntries members = .obj (indicesFirst members) := rfl

theorem arrange_perm (members : List (Units × α)) : (arrange members).Perm members :=
  List.perm_insertionSort _ members

theorem indicesFirst_perm (members : List (Units × α)) : (indicesFirst members).Perm members := by
  refine ((List.perm_insertionSort _ _).append_right _).trans ?_
  have hsplit := List.filter_append_perm (fun m => (Live.arrayIndex? m.1).isSome) members
  simpa only [Bool.not_eq_true, Option.isNone_iff_eq_none, Option.not_isSome] using hsplit

theorem readOrder_perm (members : List (Units × α)) :
    (indicesFirst (arrange members)).Perm members :=
  (indicesFirst_perm _).trans (arrange_perm members)

theorem arrange_pairwise (members : List (Units × α)) :
    (arrange members).Pairwise fun a b => Jsonb.keyOrder (key a.1) (key b.1) :=
  have : Std.Total fun a b : Units × α => Jsonb.keyOrder (key a.1) (key b.1) = true :=
    ⟨fun _ _ => Jsonb.keyOrder_total _ _⟩
  have : IsTrans (Units × α) fun a b => Jsonb.keyOrder (key a.1) (key b.1) = true :=
    ⟨fun _ _ _ => Jsonb.keyOrder_trans⟩
  List.pairwise_insertionSort _ members

/-- What is read stands in the order of reading. -/
theorem read_pairwise (members : List (Units × α)) :
    (indicesFirst (arrange members)).Pairwise fun a b => readOrder a.1 b.1 := by
  let index (m : Units × α) : Nat := (Live.arrayIndex? m.1).getD 0
  have htotal : Std.Total fun a b : Units × α => index a ≤ index b := ⟨fun a b => le_total _ _⟩
  have htrans : IsTrans (Units × α) fun a b => index a ≤ index b := ⟨fun _ _ _ => le_trans⟩
  have hindex {m : Units × α} (hm : m ∈ ((arrange members).filter fun m =>
      (Live.arrayIndex? m.1).isSome).insertionSort fun a b => index a ≤ index b) :
      ∃ i, Live.arrayIndex? m.1 = some i := by
    have hm := (List.mem_filter.1 ((List.perm_insertionSort _ _).mem_iff.1 hm)).2
    exact Option.isSome_iff_exists.1 hm
  have hname {m : Units × α} (hm : m ∈ (arrange members).filter fun m =>
      (Live.arrayIndex? m.1).isNone) : Live.arrayIndex? m.1 = none :=
    Option.isNone_iff_eq_none.1 (List.mem_filter.1 hm).2
  refine List.pairwise_append.2 ⟨?indices, ?names, ?across⟩
  case indices =>
    refine (List.pairwise_insertionSort (fun a b => index a ≤ index b) _).imp_of_mem ?_
    intro a b ha hb hab
    obtain ⟨i, hi⟩ := hindex ha
    obtain ⟨j, hj⟩ := hindex hb
    simpa [index, readOrder, hi, hj] using hab
  case names =>
    refine ((arrange_pairwise members).filter _).imp_of_mem ?_
    intro a b ha hb hab
    simpa [readOrder, hname ha, hname hb] using hab
  case across =>
    intro a ha b hb
    obtain ⟨i, hi⟩ := hindex ha
    simp [readOrder, hi, hname hb]

/-- Members come back in their order exactly when it is the order of reading. -/
theorem read_eq_self_iff (hnodup : (members.map Prod.fst).Nodup)
    (hnames : ∀ m ∈ members, (∀ u ∈ m.1, u < 0x10000) ∧ isPaired m.1 = true) :
    indicesFirst (arrange members) = members
      ↔ members.Pairwise fun a b => readOrder a.1 b.1 := by
  constructor
  · intro h
    have hread := read_pairwise members
    rwa [h] at hread
  · intro h
    have hperm := readOrder_perm members
    refine List.Perm.eq_of_pairwise ?_ (read_pairwise members) h hperm
    intro a b ha hb hab hba
    have ha := hperm.mem_iff.1 ha
    obtain ⟨hunits, hpaired⟩ := hnames a ha
    obtain ⟨hunits', hpaired'⟩ := hnames b hb
    exact List.inj_on_of_nodup_map hnodup ha hb
      (readOrder_antisymm hunits hunits' hpaired hpaired' hab hba)

theorem map_eq_self_iff {f : α → α} {l : List α} : l.map f = l ↔ ∀ a ∈ l, f a = a := by
  have hsame : l.map f = l.map id ↔ ∀ a ∈ l, f a = id a := List.map_inj_left
  rwa [List.map_id] at hsame

/-- What stands under the names has no part in their order. -/
theorem read_map {f : Units × α → Units × β} (hf : ∀ m, (f m).1 = m.1)
    (members : List (Units × α)) :
    indicesFirst (arrange (members.map f)) = (indicesFirst (arrange members)).map f := by
  have harrange : arrange (members.map f) = (arrange members).map f :=
    (List.map_insertionSort _ _ f members fun a _ b _ => by rw [hf, hf]).symm
  rw [harrange, indicesFirst, indicesFirst, List.map_append, List.filter_map, List.filter_map]
  congr 1
  · simp only [Function.comp_def, hf]
    exact (List.map_insertionSort _ _ f _ fun a _ b _ => by rw [hf, hf]).symm
  · simp only [Function.comp_def, hf]

end Members

/-! ## Reading -/

mutual

/-- What `JSON.parse` reads of a stored value. -/
def read : Value Number → Live
  | .null => .null
  | .bool b => .bool b
  -- The column keeps a number exactly, and what reads it rounds to the same one.
  | .num n => .num n
  | .str s => .str s
  | .arr items => .arr (readItems items)
  | .obj members => Live.fromEntries (arrange (readMembers members))

def readItems : List (Value Number) → List Live
  | [] => []
  | v :: rest => read v :: readItems rest

def readMembers : List (Units × Value Number) → List (Units × Live)
  | [] => []
  | (k, v) :: rest => (k, read v) :: readMembers rest

end

theorem readItems_eq_map (items : List (Value Number)) : readItems items = items.map read := by
  induction items with
  | nil => rfl
  | cons v rest ih => rw [readItems, ih, List.map_cons]

theorem readMembers_eq_map (members : List (Units × Value Number)) :
    readMembers members = members.map fun m => (m.1, read m.2) := by
  induction members with
  | nil => rfl
  | cons m rest ih => rw [readMembers, ih, List.map_cons]

theorem read_obj (members : List (Units × Value Number)) :
    read (.obj members) = .obj ((indicesFirst (arrange members)).map fun m => (m.1, read m.2)) := by
  rw [read, readMembers_eq_map, fromEntries_eq,
    read_map (f := fun m : Units × Value Number => (m.1, read m.2)) fun _ => rfl]

/-- What is written of a stored value when it was read. -/
def rewritten (w : Value Number) : Value Number := (read w).serialize.getD .null

/-- A value that was read can be written. -/
theorem serialize_read (w : Value Number) : (read w).serialize = some (rewritten w) := by
  rw [rewritten]
  cases w <;> rfl

theorem rewritten_arr (items : List (Value Number)) :
    rewritten (.arr items) = .arr (items.map rewritten) := by
  rw [rewritten, read, Live.serialize, Live.serializeItems_eq_map, readItems_eq_map, List.map_map]
  rfl

theorem rewritten_obj (members : List (Units × Value Number)) : rewritten (.obj members)
    = .obj ((indicesFirst (arrange members)).map fun m => (m.1, rewritten m.2)) := by
  rw [rewritten, read_obj, Live.serialize, Live.serializeMembers_eq_filterMap, List.filterMap_map]
  simp only [Function.comp_def, serialize_read, Option.map_some, List.filterMap_eq_map',
    Option.getD_some]

theorem rewritten_over {p : Nat → Prop} {w : Value Number} (h : w.Over p) :
    (rewritten w).Over p := by
  induction w using Value.induct with
  | null | bool | num | str => exact h
  | arr items ih =>
      have hitems := overItems_iff.1 h
      rw [rewritten_arr]
      exact overItems_iff.2 (List.forall_mem_map.2 fun v hv => ih v hv (hitems v hv))
  | obj members ih =>
      have hmembers := overMembers_iff.1 h
      rw [rewritten_obj]
      refine overMembers_iff.2 (List.forall_mem_map.2 fun m hm => ?_)
      have hm := (readOrder_perm members).mem_iff.1 hm
      exact ⟨(hmembers m hm).1, ih m hm (hmembers m hm).2⟩

mutual

/-- The names of each object stand in the order of reading. -/
def inOrder : Value Number → Bool
  | .arr items => itemsInOrder items
  | .obj members =>
      decide (members.Pairwise fun a b => readOrder a.1 b.1 = true) && membersInOrder members
  | _ => true

def itemsInOrder : List (Value Number) → Bool
  | [] => true
  | v :: rest => inOrder v && itemsInOrder rest

def membersInOrder : List (Units × Value Number) → Bool
  | [] => true
  | (_, v) :: rest => inOrder v && membersInOrder rest

end

theorem itemsInOrder_iff {items : List (Value Number)} :
    itemsInOrder items = true ↔ ∀ v ∈ items, inOrder v = true := by
  induction items with
  | nil => simp [itemsInOrder]
  | cons v rest ih => simp [itemsInOrder, ih]

theorem membersInOrder_iff {members : List (Units × Value Number)} :
    membersInOrder members = true ↔ ∀ m ∈ members, inOrder m.2 = true := by
  induction members with
  | nil => simp [membersInOrder]
  | cons m rest ih => simp [membersInOrder, ih]

/-- A stored value comes back as it was exactly when its names stand in order. -/
theorem rewritten_eq_self_iff {w : Value Number} (hdistinct : Distinct w)
    (hover : w.Over (· < 0x10000)) (hstorable : storable w = true) :
    rewritten w = w ↔ inOrder w = true := by
  induction w using Value.induct with
  | null | bool | num | str => exact iff_of_true rfl rfl
  | arr items ih =>
      have hover := overItems_iff.1 hover
      have hstorable := storableItems_iff.1 hstorable
      cases hdistinct with
      | arr hitems =>
          rw [rewritten_arr, Value.arr.injEq, inOrder, itemsInOrder_iff]
          constructor
          · intro h v hv
            refine (ih v hv (hitems v hv) (hover v hv) (hstorable v hv)).1 ?_
            exact map_eq_self_iff.1 h v hv
          · intro h
            refine map_eq_self_iff.2 fun v hv => ?_
            exact (ih v hv (hitems v hv) (hover v hv) (hstorable v hv)).2 (h v hv)
  | obj members ih =>
      have hover := overMembers_iff.1 hover
      have hstorable := storableMembers_iff.1 hstorable
      cases hdistinct with
      | obj hnodup hmembers =>
          have hread := read_eq_self_iff hnodup fun m hm =>
            ⟨(hover m hm).1, (Bool.and_eq_true_iff.1 (hstorable m hm).1).2⟩
          have hmember (m : Units × Value Number) (hm : m ∈ members) :
              rewritten m.2 = m.2 ↔ inOrder m.2 = true :=
            ih m hm (hmembers m hm) (hover m hm).2 (hstorable m hm).2
          rw [rewritten_obj, Value.obj.injEq, inOrder, Bool.and_eq_true, decide_eq_true_eq,
            membersInOrder_iff]
          constructor
          · intro h
            have hperm := readOrder_perm members
            -- A member that is read has the name of one that was written, so it is that one.
            have hsame : ∀ m ∈ members, rewritten m.2 = m.2 := by
              intro m hm
              have hback : (m.1, rewritten m.2) ∈ members := by
                conv => rw [← h]
                exact List.mem_map.2 ⟨m, hperm.mem_iff.2 hm, rfl⟩
              exact congrArg Prod.snd (List.inj_on_of_nodup_map hnodup hback hm rfl)
            refine ⟨hread.1 ?_, fun m hm => (hmember m hm).1 (hsame m hm)⟩
            refine (map_eq_self_iff.2 fun m hm => ?_).symm.trans h
            exact Prod.ext rfl (hsame m (hperm.mem_iff.1 hm))
          · rintro ⟨hpairwise, hinner⟩
            rw [hread.2 hpairwise]
            exact map_eq_self_iff.2 fun m hm =>
              Prod.ext rfl ((hmember m hm).2 (hinner m hm))

/-! ## Values of a program -/

section Stored

variable {v : Live} {w : Value Number}

/-- A value that is written to the column and read from it, if it can be stored. -/
def readBack (v : Live) : Option Live :=
  v.serialize.bind fun w => if storable w then some (read w) else none

/-- What a value is within one that was stored: undefined, if nothing was written of it. -/
def stored (v : Live) : Live := (v.serialize.map read).getD .undefined

theorem stored_of_serialize (h : v.serialize = some w) : stored v = read w := by
  rw [stored, h]
  rfl

theorem stored_of_none (h : v.serialize = none) : stored v = .undefined := by
  rw [stored, h]
  rfl

theorem readBack_eq_some {v' : Live} (h : readBack v = some v') :
    ∃ w, v.serialize = some w ∧ storable w = true ∧ v' = stored v := by
  obtain ⟨w, hw, h⟩ := Option.bind_eq_some_iff.1 h
  split at h
  case isFalse => cases h
  case isTrue hstorable =>
    exact ⟨w, hw, hstorable, (Option.some.inj h).symm.trans (stored_of_serialize hw).symm⟩

theorem written_name (m : Units × Live) (n : Units × Value Number)
    (h : m.2.serialize.map (m.1, ·) = some n) : n.1 = m.1 := by
  obtain ⟨w, -, rfl⟩ := Option.map_eq_some_iff.1 h
  rfl

theorem nodup_serializeMembers {members : List (Units × Live)}
    (h : (members.map Prod.fst).Nodup) : ((Live.serializeMembers members).map Prod.fst).Nodup := by
  rw [Live.serializeMembers_eq_filterMap]
  exact JsMap.nodup_filterMap ⟨members, h⟩ written_name

theorem mem_serializeMembers {members : List (Units × Live)} {k : Units} :
    (k, w) ∈ Live.serializeMembers members ↔ ∃ v, (k, v) ∈ members ∧ v.serialize = some w := by
  rw [Live.serializeMembers_eq_filterMap, List.mem_filterMap]
  constructor
  · rintro ⟨m, hm, hw⟩
    obtain ⟨w', hw', heq⟩ := Option.map_eq_some_iff.1 hw
    cases heq
    exact ⟨m.2, hm, hw'⟩
  · rintro ⟨v, hv, hw⟩
    exact ⟨(k, v), hv, by rw [hw, Option.map_some]⟩

theorem distinct_of_serialize (v : Live) : v.Proper → ∀ w, v.serialize = some w → Distinct w := by
  induction v using Live.induct with
  | atom v harr hobj =>
      intro _ w hw
      cases v with
      | arr items => exact absurd rfl (harr items)
      | obj members => exact absurd rfl (hobj members)
      | undefined | hole => cases hw
      | date iso =>
          cases iso <;> cases hw
          · exact .null
          · exact .str _
      | null | bool | num | nonFinite | str =>
          cases hw
          constructor
  | arr items ih =>
      intro hproper w hw
      cases hw
      have hproper := Live.properItems_iff.1 hproper
      refine .arr fun w hw => ?_
      rw [Live.serializeItems_eq_map] at hw
      obtain ⟨v, hv, rfl⟩ := List.mem_map.1 hw
      cases hs : v.serialize with
      | none => exact .null
      | some w => exact ih v hv (hproper v hv) w hs
  | obj members ih =>
      intro hproper w hw
      cases hw
      obtain ⟨hnodup, hproper⟩ := hproper
      have hproper := Live.properMembers_iff.1 hproper
      refine .obj (nodup_serializeMembers hnodup) fun n hn => ?_
      obtain ⟨v, hv, hw⟩ := mem_serializeMembers.1 hn
      exact ih _ hv (hproper _ hv).2 n.2 hw

/-! ## Properties -/

theorem property_of_mem {members : List (Units × Live)} {name : String}
    (hnodup : (members.map Prod.fst).Nodup) (h : (literal name, v) ∈ members) :
    Workspace.property (.obj members) name = v := by
  cases hfind : members.find? fun m => m.1 = literal name with
  | none => simpa using List.find?_eq_none.1 hfind _ h
  | some m =>
      have hname : m.1 = literal name := by simpa using List.find?_some hfind
      have hsame := List.inj_on_of_nodup_map hnodup (List.mem_of_find?_eq_some hfind) h hname
      rw [Workspace.property, hfind, hsame]
      rfl

theorem property_eq_undefined {members : List (Units × Live)} {name : String}
    (h : ∀ m ∈ members, m.1 ≠ literal name) :
    Workspace.property (.obj members) name = .undefined := by
  have hfind : members.find? (fun m => m.1 = literal name) = none :=
    List.find?_eq_none.2 fun m hm => by simpa using h m hm
  rw [Workspace.property, hfind]
  rfl

/-- The member a property is, if the value has it. -/
theorem property_cases (members : List (Units × Live)) (name : String) :
    (∀ m ∈ members, m.1 ≠ literal name) ∨
      (literal name, Workspace.property (.obj members) name) ∈ members := by
  cases hfind : members.find? fun m => m.1 = literal name with
  | none => exact .inl fun m hm => by simpa using List.find?_eq_none.1 hfind m hm
  | some m =>
      have hname : m.1 = literal name := by simpa using List.find?_some hfind
      have hproperty : Workspace.property (.obj members) name = m.2 := by
        rw [Workspace.property, hfind]
        rfl
      rw [hproperty, ← hname]
      exact .inr (List.mem_of_find?_eq_some hfind)

theorem stored_obj (members : List (Units × Live)) : stored (.obj members) = .obj
    ((indicesFirst (arrange (Live.serializeMembers members))).map fun m => (m.1, read m.2)) := by
  rw [stored, Live.serialize, Option.map_some, read_obj]
  rfl

theorem mem_stored {members : List (Units × Live)} {m : Units × Live} :
    m ∈ (indicesFirst (arrange (Live.serializeMembers members))).map (fun m => (m.1, read m.2))
      ↔ ∃ v w, (m.1, v) ∈ members ∧ v.serialize = some w ∧ m.2 = read w := by
  constructor
  · intro hm
    obtain ⟨n, hn, rfl⟩ := List.mem_map.1 hm
    obtain ⟨v, hv, hw⟩ := mem_serializeMembers.1 ((readOrder_perm _).mem_iff.1 hn)
    exact ⟨v, n.2, hv, hw, rfl⟩
  · rintro ⟨v, w, hv, hw, heq⟩
    refine List.mem_map.2 ⟨(m.1, w), (readOrder_perm _).mem_iff.2 ?_, Prod.ext rfl heq.symm⟩
    exact mem_serializeMembers.2 ⟨v, hv, hw⟩

/-- A property of what was stored is what was stored of the property. -/
theorem property_stored (hproper : v.Proper) (name : String) :
    Workspace.property (stored v) name = stored (Workspace.property v name) := by
  cases v with
  | obj members =>
      obtain ⟨hnodup, -⟩ := hproper
      rw [stored_obj]
      have hnodup' : (((indicesFirst (arrange (Live.serializeMembers members))).map
          fun m => (m.1, read m.2)).map Prod.fst).Nodup := by
        rw [List.map_map]
        exact ((readOrder_perm _).map Prod.fst).nodup_iff.2 (nodup_serializeMembers hnodup)
      have habsent (h : ∀ v w, (literal name, v) ∈ members → v.serialize ≠ some w) :
          Workspace.property (.obj ((indicesFirst (arrange (Live.serializeMembers members))).map
            fun m => (m.1, read m.2))) name = .undefined := by
        refine property_eq_undefined fun m hm hname => ?_
        obtain ⟨v, w, hv, hw, -⟩ := mem_stored.1 hm
        exact h v w (hname ▸ hv) hw
      rcases property_cases members name with hnone | hmem
      · rw [habsent fun v w hv => absurd rfl (hnone _ hv), property_eq_undefined hnone]
        rfl
      · cases hw : (Workspace.property (.obj members) name).serialize with
        | none =>
            rw [stored_of_none hw]
            refine habsent fun v w hv hsome => ?_
            rw [property_of_mem hnodup hv, hsome] at hw
            cases hw
        | some w =>
            rw [stored_of_serialize hw]
            exact property_of_mem hnodup' (mem_stored.2 ⟨_, w, hmem, hw, rfl⟩)
  | date iso => cases iso <;> rfl
  | _ => rfl

/-- What is stored of a property can be stored for itself. -/
theorem storable_property (name : String) {x : Value Number} (hw : v.serialize = some w)
    (hstorable : storable w = true) (hx : (Workspace.property v name).serialize = some x) :
    storable x = true := by
  cases v with
  | obj members =>
      obtain rfl := Option.some.inj hw
      rcases property_cases members name with hnone | hmem
      · rw [property_eq_undefined hnone] at hx
        cases hx
      · have hmem := mem_serializeMembers.2 ⟨_, hmem, hx⟩
        exact (storableMembers_iff.1 hstorable _ hmem).2
  | _ => cases hx

end Stored

end LingxiOS.Column
