-- SUMMARY: Double-precision numbers: rounding, JSON literals and integers.
import LingxiOS.Base.JsonText
import Mathlib.Data.Int.Log
import Mathlib.Data.Nat.Digits.Lemmas
import Mathlib.Data.Rat.Floor

/-! # Double Precision

A literal stands for the double nearest to its value, and of two for the one with the even
significand. The sign of a zero is left out, and so is what is no number. -/

open JsonText

inductive Double where
  | finite (value : ℚ)
  | infinity (negative : Bool)
  deriving DecidableEq

namespace Double

/-- The nearest integer, the even one of two. -/
def roundEven (q : ℚ) : ℤ :=
  let rest := q - ⌊q⌋
  if rest < 1 / 2 then ⌊q⌋
  else if 1 / 2 < rest then ⌊q⌋ + 1
  else if ⌊q⌋ % 2 = 0 then ⌊q⌋ else ⌊q⌋ + 1

/-- The exponent of the last place of a value. -/
def lastPlace (q : ℚ) : ℤ := max (Int.log 2 |q|) (-1022) - 52

/-- The nearest double. -/
def round (q : ℚ) : Double :=
  let rounded := roundEven (q / 2 ^ lastPlace q) * (2 : ℚ) ^ lastPlace q
  if (2 : ℚ) ^ (1024 : ℤ) ≤ |rounded| then .infinity (q < 0) else .finite rounded

/-! ## Literals -/

/-- The number some digits stand for, after those read so far. -/
def digitsValue (read : ℕ) (digits : List (Fin 10)) : ℕ :=
  digits.foldl (fun read digit => read * 10 + digit.val) read

def wholeValue : Whole → ℕ
  | .zero => 0
  | .positive head tail => digitsValue (head.val + 1) tail

def fractionValue : Option Digits → ℚ
  | none => 0
  | some digits => digitsValue digits.head.val digits.tail / (10 : ℚ) ^ (digits.tail.length + 1)

def exponentValue : Option Exponent → ℤ
  | none => 0
  | some exponent =>
      let magnitude : ℤ := digitsValue exponent.digits.head.val exponent.digits.tail
      if exponent.sign = some true then -magnitude else magnitude

def literalValue (number : Number) : ℚ :=
  let magnitude := (wholeValue number.whole + fractionValue number.fraction)
    * (10 : ℚ) ^ exponentValue number.exponent
  if number.negative then -magnitude else magnitude

/-- The number a literal stands for. -/
def ofLiteral (number : Number) : Double := round (literalValue number)

def ofInt (n : ℤ) : Double := .finite n

/-- The integer a number is, if it is one. -/
def integer? : Double → Option ℤ
  | .finite q => if q.den = 1 then some q.num else none
  | .infinity _ => none

/-- The integer a number is, if `Number.isSafeInteger` holds of it. -/
def safeInteger? (x : Double) : Option ℤ := x.integer?.filter fun n => n.natAbs < 2 ^ 53

/-! ## Integers -/

theorem integer?_ofInt (n : ℤ) : (ofInt n).integer? = some n := by
  simp [ofInt, integer?]

theorem roundEven_intCast (n : ℤ) : roundEven n = n := by
  simp [roundEven]

/-- An integer with at most 53 binary digits is a double. -/
theorem round_intCast {n : ℤ} (h : |n| < 2 ^ 53) : round n = ofInt n := by
  have hbits : |(n : ℚ)| < 2 ^ (53 : ℤ) := by exact_mod_cast h
  have hplace : lastPlace n ≤ 0 := by
    by_cases hzero : n = 0
    case pos => simp [lastPlace, hzero]
    case neg =>
      have hlog : Int.log 2 |(n : ℚ)| < 53 := by
        have habs : (0 : ℚ) < |(n : ℚ)| := abs_pos.2 (Int.cast_ne_zero.2 hzero)
        exact (Int.lt_zpow_iff_log_lt (by norm_num) habs).1 (by exact_mod_cast hbits)
      unfold lastPlace
      omega
  obtain ⟨k, hk⟩ := Int.eq_ofNat_of_zero_le (Int.neg_nonneg_of_nonpos hplace)
  have hplace' : lastPlace n = -(k : ℤ) := by omega
  have hscaled : (n : ℚ) / 2 ^ lastPlace n = ((n * 2 ^ k : ℤ) : ℚ) := by
    rw [hplace', zpow_neg, div_inv_eq_mul, zpow_natCast]
    push_cast
    rfl
  have hrounded : (roundEven ((n : ℚ) / 2 ^ lastPlace n) : ℚ) * 2 ^ lastPlace n = n := by
    rw [hscaled, roundEven_intCast, ← hscaled]
    exact div_mul_cancel₀ _ (zpow_ne_zero _ (by norm_num))
  have hsmall : ¬ (2 : ℚ) ^ (1024 : ℤ) ≤ |(n : ℚ)| :=
    not_le.2 (hbits.trans_le (zpow_le_zpow_right₀ (by norm_num) (by norm_num)))
  simp only [round, hrounded, if_neg hsmall, ofInt]

theorem foldl_reverse_digits (digits : List ℕ) :
    digits.reverse.foldl (fun read digit => read * 10 + digit) 0 = Nat.ofDigits 10 digits := by
  induction digits with
  | nil => rfl
  | cons digit digits ih =>
      rw [List.reverse_cons, List.foldl_append, ih, Nat.ofDigits_cons]
      simp only [List.foldl_cons, List.foldl_nil]
      ring

theorem digitsValue_map (read : ℕ) {digits : List ℕ} (h : ∀ digit ∈ digits, digit < 10) :
    digitsValue read (digits.map (Fin.ofNat 10)) =
      digits.foldl (fun read digit => read * 10 + digit) read := by
  induction digits generalizing read with
  | nil => rfl
  | cons digit digits ih =>
      obtain ⟨hdigit, hdigits⟩ := List.forall_mem_cons.1 h
      have hval : (Fin.ofNat 10 digit).val = digit := Nat.mod_eq_of_lt hdigit
      rw [List.map_cons, List.foldl_cons, ← ih _ hdigits, digitsValue, List.foldl_cons, hval]
      rfl

theorem wholeValue_ofNat (n : ℕ) : wholeValue (.ofNat n) = n := by
  have hvalue : (Nat.digits 10 n).reverse.foldl (fun read digit => read * 10 + digit) 0 = n := by
    rw [foldl_reverse_digits, Nat.ofDigits_digits]
  unfold Whole.ofNat
  split
  case h_1 hnil =>
    rw [hnil] at hvalue
    exact hvalue
  case h_2 first rest hdigits =>
    have hmem {digit : ℕ} (h : digit ∈ first :: rest) : digit < 10 := by
      rw [← hdigits, List.mem_reverse] at h
      exact Nat.digits_lt_base (by norm_num) h
    have hfirst : 0 < first := by
      have hne : Nat.digits 10 n ≠ [] := by
        intro hnil
        rw [hnil] at hdigits
        cases hdigits
      have hlast := Nat.getLast_digit_ne_zero 10 (m := n) (by
        rintro rfl
        exact hne (Nat.digits_zero 10))
      have hhead : (Nat.digits 10 n).getLast hne = first := by
        rw [List.getLast_eq_head_reverse]
        simp only [hdigits, List.head_cons]
      rw [hhead] at hlast
      exact Nat.pos_of_ne_zero hlast
    have hnine := hmem List.mem_cons_self
    have hback : (first - 1) % 9 + 1 = first := by omega
    rw [hdigits, List.foldl_cons, Nat.zero_mul, Nat.zero_add] at hvalue
    rw [wholeValue, hback, digitsValue_map first fun digit hdigit => hmem (List.mem_cons_of_mem _ hdigit)]
    exact hvalue

/-- What is written for an integer stands for it, if it has at most 53 binary digits. -/
theorem ofLiteral_ofInt {n : ℤ} (h : |n| < 2 ^ 53) : ofLiteral (.ofInt n) = ofInt n := by
  have hvalue : literalValue (.ofInt n) = n := by
    simp only [literalValue, Number.ofInt, wholeValue_ofNat, fractionValue, exponentValue, zpow_zero,
      add_zero, mul_one]
    have habs : ((n.natAbs : ℕ) : ℚ) = ((n.natAbs : ℤ) : ℚ) := (Int.cast_natCast _).symm
    rw [habs]
    split
    case isTrue hneg =>
      rw [decide_eq_true_eq] at hneg
      rw [show (n.natAbs : ℤ) = -n by omega, Int.cast_neg, neg_neg]
    case isFalse hneg =>
      rw [decide_eq_true_eq] at hneg
      rw [show (n.natAbs : ℤ) = n by omega]
  rw [ofLiteral, hvalue, round_intCast h]

/-! ## Order -/

/-- The number among the rationals and the infinities. -/
def extended : Double → WithBot (WithTop ℚ)
  | .finite q => ((q : WithTop ℚ) : WithBot (WithTop ℚ))
  | .infinity true => ⊥
  | .infinity false => ((⊤ : WithTop ℚ) : WithBot (WithTop ℚ))

theorem extended_injective : Function.Injective extended := by
  rintro (a | _ | _) (b | _ | _) h <;> simp_all [extended]

instance : LinearOrder Double := LinearOrder.lift' extended extended_injective

theorem finite_le_finite {a b : ℚ} : finite a ≤ finite b ↔ a ≤ b := by
  show extended _ ≤ extended _ ↔ _
  simp [extended]

theorem finite_lt_finite {a b : ℚ} : finite a < finite b ↔ a < b := by
  rw [← not_le, finite_le_finite, not_le]

theorem max_finite (a b : ℚ) : max (finite a) (finite b) = finite (max a b) :=
  (Monotone.map_max fun _ _ h => finite_le_finite.2 h).symm

theorem le_infinity {negative : Bool} (h : negative = false) (x : Double) :
    x ≤ infinity negative := by
  subst h
  show extended _ ≤ extended _
  cases x with
  | finite q => simp [extended]
  | infinity negative => cases negative <;> simp [extended]

/-- Between two rationals there is no infinity. -/
theorem finite_of_le {x : Double} {a b : ℚ} (ha : finite a ≤ x) (hb : x ≤ finite b) :
    ∃ q, x = finite q := by
  match x with
  | .finite q => exact ⟨q, rfl⟩
  | .infinity true =>
      change extended _ ≤ extended _ at ha
      simp [extended] at ha
  | .infinity false =>
      change extended _ ≤ extended _ at hb
      simp [extended] at hb

/-! ## Arithmetic -/

/-- `Math.floor`. -/
def floor : Double → Double
  | .finite q => ofInt ⌊q⌋
  | .infinity negative => .infinity negative

/-- The product with a number above zero. -/
def scale (x : Double) (factor : ℚ) : Double :=
  match x with
  | .finite q => round (q * factor)
  | .infinity negative => .infinity negative

/-- The sum with a finite number. -/
def plus (x : Double) (q : ℚ) : Double :=
  match x with
  | .finite p => round (p + q)
  | .infinity negative => .infinity negative

/-- The sum. Opposite infinities, whose sum is no number, do not meet here. -/
def add (x : Double) : Double → Double
  | .finite q => x.plus q
  | .infinity negative => .infinity negative

def neg : Double → Double
  | .finite q => .finite (-q)
  | .infinity negative => .infinity (!negative)

theorem plus_ofInt {m n : ℤ} (h : |m + n| < 2 ^ 53) : (ofInt m).plus n = ofInt (m + n) := by
  rw [ofInt, plus, ← Int.cast_add, round_intCast h]

theorem floor_le_roundEven (q : ℚ) : ⌊q⌋ ≤ roundEven q := by
  dsimp only [roundEven]
  split_ifs <;> omega

/-- An integer of more than 53 binary digits is rounded to a number that has as many. -/
theorem le_round {n : ℤ} (h : 2 ^ 53 ≤ n) : finite (2 ^ 53) ≤ round n := by
  have hlarge : (2 : ℚ) ^ (53 : ℤ) ≤ n := by exact_mod_cast h
  have hpos : (0 : ℚ) < n := lt_of_lt_of_le (by positivity) hlarge
  have habs : |(n : ℚ)| = n := abs_of_pos hpos
  have hlog : 53 ≤ Int.log 2 (n : ℚ) :=
    (Int.zpow_le_iff_le_log (by norm_num) hpos).1 (by exact_mod_cast hlarge)
  have hplace : lastPlace n = Int.log 2 (n : ℚ) - 52 := by
    rw [lastPlace, habs, max_eq_left (by omega)]
  have hunit : (0 : ℚ) < 2 ^ lastPlace n := zpow_pos (by norm_num) _
  have hsignificand : (2 : ℚ) ^ 52 ≤ roundEven (n / 2 ^ lastPlace n) := by
    have hdigits : (2 : ℚ) ^ (52 : ℤ) * 2 ^ lastPlace n ≤ n := by
      rw [← zpow_add₀ (by norm_num), hplace, add_sub_cancel]
      exact_mod_cast Int.zpow_log_le_self (by norm_num : 1 < 2) hpos
    have hfloor : (2 : ℤ) ^ 52 ≤ ⌊n / (2 : ℚ) ^ lastPlace n⌋ := by
      rw [Int.le_floor, le_div_iff₀ hunit]
      exact_mod_cast hdigits
    exact_mod_cast hfloor.trans (floor_le_roundEven _)
  have hplaces : (2 : ℚ) ≤ 2 ^ lastPlace n := by
    calc (2 : ℚ) = 2 ^ (1 : ℤ) := (zpow_one 2).symm
      _ ≤ 2 ^ lastPlace n := zpow_le_zpow_right₀ (by norm_num) (by omega)
  have hrounded : (2 : ℚ) ^ 53 ≤ roundEven (n / 2 ^ lastPlace n) * 2 ^ lastPlace n := by
    calc (2 : ℚ) ^ 53 = 2 ^ 52 * 2 := by norm_num
      _ ≤ (roundEven (n / 2 ^ lastPlace n) : ℚ) * 2 ^ lastPlace n :=
        mul_le_mul hsignificand hplaces (by norm_num) (le_trans (by norm_num) hsignificand)
  rw [round]
  split
  case isTrue => exact le_infinity (decide_eq_false (not_lt.2 hpos.le)) _
  case isFalse => exact finite_le_finite.2 hrounded

/-- A sum that is no more than an integer below 2⁵³ is exact. -/
theorem plus_le_ofInt {m n bound : ℤ} (hsum : 0 ≤ m + n) (hbound : bound < 2 ^ 53)
    (h : (ofInt m).plus n ≤ ofInt bound) :
    (ofInt m).plus n = ofInt (m + n) ∧ m + n ≤ bound := by
  rcases lt_or_ge (m + n) (2 ^ 53) with hexact | hlarge
  · have hplus : (ofInt m).plus n = ofInt (m + n) := plus_ofInt (by rwa [abs_of_nonneg hsum])
    rw [hplus, ofInt, ofInt, finite_le_finite, Int.cast_le] at h
    exact ⟨hplus, h⟩
  · have hround := le_round hlarge
    rw [ofInt, plus, ← Int.cast_add] at h
    have hle := hround.trans h
    rw [ofInt, finite_le_finite] at hle
    exact absurd hbound (not_lt.2 (by exact_mod_cast hle))

/-- A difference below 2⁵³ that lies between zero and the number is exact. -/
def minus (x : Double) (n : ℕ) : Double :=
  match x with
  | .finite q => .finite (q - n)
  | .infinity negative => .infinity negative

end Double
