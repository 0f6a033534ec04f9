import Mathlib.Data.Nat.Log
import Mathlib.Data.String.Basic
import SettlementRouter.Rounding

/-! # Decimal numerals

A `Numeral` is a finite `decimal.Decimal` without a sign: the same value can be
written with several coefficients and exponents.

* `str` prints a numeral, and `parse` reads it as `Decimal(text)` does.  Reading what
  was printed gives back the numeral itself (`parse_str`), in plain and in scientific
  notation, so the text determines the numeral.
* `normalize` rounds to the digits of a context and strips the trailing zeros.  The
  result is the only numeral of its value without trailing zeros (`normalize_eq_iff`).
-/
namespace Decimal

/-- A nonnegative decimal, as its digits and its exponent spell it. -/
structure Numeral where
  coefficient : ℕ
  exponent : ℤ
  deriving DecidableEq

namespace Numeral

/-- The number it stands for. -/
def value (d : Numeral) : ℚ := d.coefficient * 10 ^ d.exponent

/-- `str(d)`. -/
def str (d : Numeral) : String := display d.coefficient d.exponent

/-! ## Reading -/

/-- The number that a nonempty sequence of digits writes. -/
def readDigits (digits : List Char) : Option ℕ :=
  if digits ≠ [] ∧ digits.all Char.isDigit then some (Nat.ofDigitChars 10 digits 0) else none

/-- The power of ten after the `E`, and zero where there is none. -/
def readPower : List Char → Option ℤ
  | [] => some 0
  | _ :: '+' :: digits => (readDigits digits).map fun n : ℕ => (n : ℤ)
  | _ :: '-' :: digits => (readDigits digits).map fun n : ℕ => -(n : ℤ)
  | _ :: digits => (readDigits digits).map fun n : ℕ => (n : ℤ)

/-- `Decimal(text)`, for the numbers without a sign: digits with at most one point
among them, and a power of ten. -/
def parse (text : String) : Option Numeral :=
  let number := text.toList.takeWhile fun c => c ≠ 'E' ∧ c ≠ 'e'
  let power := text.toList.dropWhile fun c => c ≠ 'E' ∧ c ≠ 'e'
  let whole := number.takeWhile (· ≠ '.')
  let fraction := (number.dropWhile (· ≠ '.')).drop 1
  match readDigits (whole ++ fraction), readPower power with
  | some coefficient, some exponent => some ⟨coefficient, exponent - fraction.length⟩
  | _, _ => none

/-! ## The parts of a printed numeral -/

/-- The digits of the coefficient. -/
def digits (d : Numeral) : List Char := Nat.toDigits 10 d.coefficient

/-- Where the point stands, counted from the first digit. -/
def dotPlace (d : Numeral) : ℤ :=
  if d.exponent ≤ 0 ∧ -6 < d.exponent + d.digits.length then d.exponent + d.digits.length else 1

/-- What is printed before the point. -/
def whole (d : Numeral) : List Char :=
  if d.dotPlace ≤ 0 then ['0'] else d.digits.take d.dotPlace.toNat

/-- What is printed after the point. -/
def fraction (d : Numeral) : List Char :=
  if d.dotPlace ≤ 0 then List.replicate (-d.dotPlace).toNat '0' ++ d.digits
  else d.digits.drop d.dotPlace.toNat

/-- The power of ten that is written after the digits. -/
def power (d : Numeral) : ℤ := d.exponent + d.digits.length - d.dotPlace

/-- The point and what follows it, if anything does. -/
def pointed (fraction : List Char) : List Char := if fraction = [] then [] else '.' :: fraction

/-- The power of ten as it is printed, if it is. -/
def powerText (power : ℤ) : List Char :=
  if power = 0 then []
  else if 0 < power then 'E' :: '+' :: Nat.toDigits 10 power.toNat
  else 'E' :: '-' :: Nat.toDigits 10 (-power).toNat

variable {d d' : Numeral} {c : Char} {n : ℕ}

theorem digits_length_pos : 0 < d.digits.length := Nat.length_toDigits_pos

theorem isDigit_of_mem_digits (h : c ∈ d.digits) : c.isDigit :=
  Nat.isDigit_of_mem_toDigits (by norm_num) le_rfl h

theorem dotPlace_le : d.dotPlace ≤ d.digits.length := by
  have hpos : (1 : ℤ) ≤ d.digits.length := by exact_mod_cast digits_length_pos
  unfold dotPlace
  split_ifs with h
  · omega
  · exact hpos

theorem fraction_length : (d.fraction.length : ℤ) = d.digits.length - d.dotPlace := by
  have hle : d.dotPlace ≤ d.digits.length := dotPlace_le
  unfold fraction
  split_ifs with h
  · rw [List.length_append, List.length_replicate]
    omega
  · rw [List.length_drop]
    omega

theorem isDigit_of_mem_whole (h : c ∈ d.whole) : c.isDigit := by
  unfold whole at h
  split_ifs at h
  · obtain rfl := List.mem_singleton.mp h
    rfl
  · exact isDigit_of_mem_digits (List.mem_of_mem_take h)

theorem isDigit_of_mem_fraction (h : c ∈ d.fraction) : c.isDigit := by
  unfold fraction at h
  split_ifs at h
  · rcases List.mem_append.mp h with h | h
    · rw [List.eq_of_mem_replicate h]
      rfl
    · exact isDigit_of_mem_digits h
  · exact isDigit_of_mem_digits (List.mem_of_mem_drop h)

theorem whole_ne_nil : d.whole ≠ [] := by
  have hpos : 0 < d.digits.length := digits_length_pos
  unfold whole
  split_ifs with h
  · exact List.cons_ne_nil _ _
  · refine List.ne_nil_of_length_pos ?_
    rw [List.length_take]
    omega

/-- The digits on both sides of the point write the coefficient. -/
theorem ofDigitChars_parts : Nat.ofDigitChars 10 (d.whole ++ d.fraction) 0 = d.coefficient := by
  unfold whole fraction
  split_ifs with h
  · rw [Nat.ofDigitChars_append, Nat.ofDigitChars_append]
    simp [digits, Nat.ofDigitChars_cons]
  · rw [List.take_append_drop]
    exact Nat.ofDigitChars_ten_toDigits

theorem toList_powerString (power : ℤ) :
    (if power = 0 then "" else if 0 < power then s!"E+{power}" else s!"E{power}").toList =
      powerText power := by
  unfold powerText
  split_ifs with hzero hpos
  · rfl
  · simp only [String.toList_append, Int.toString_eq_repr, Int.repr_eq_if, hpos.le, if_true,
      Nat.toList_repr]
    rfl
  · have hneg : ¬ 0 ≤ power := by omega
    simp only [String.toList_append, Int.toString_eq_repr, Int.repr_eq_if, hneg, if_false,
      Nat.toList_repr]
    rfl

theorem pointed_drop (fraction : List Char) : (pointed fraction).drop 1 = fraction := by
  unfold pointed
  split_ifs with h
  · exact h.symm
  · rfl

theorem mem_pointed {fraction : List Char} (h : c ∈ pointed fraction) : c = '.' ∨ c ∈ fraction := by
  unfold pointed at h
  split_ifs at h
  · cases h
  · exact List.mem_cons.mp h

theorem head_pointed {fraction : List Char} (h : c ∈ (pointed fraction).head?) : c = '.' := by
  unfold pointed at h
  split_ifs at h
  · cases h
  · exact (Option.some.inj h).symm

/-- **What is printed**: digits, a point where a fraction follows, and the power. -/
theorem toList_str : d.str.toList = d.whole ++ pointed d.fraction ++ powerText d.power := by
  have hlength : (d.fraction.length : ℤ) = d.digits.length - d.dotPlace := fraction_length
  have hpos : 0 < d.digits.length := digits_length_pos
  rw [str, display, String.toList_append, toList_powerString, String.toList_ofList]
  change (if d.dotPlace ≤ 0 then '0' :: '.' :: (List.replicate (-d.dotPlace).toNat '0' ++ d.digits)
    else if d.digits.length ≤ d.dotPlace then
      d.digits ++ List.replicate (d.dotPlace - d.digits.length).toNat '0'
    else d.digits.take d.dotPlace.toNat ++ '.' :: d.digits.drop d.dotPlace.toNat) ++
      powerText d.power = _
  congr 1
  by_cases hfraction : d.fraction = []
  · -- all digits stand before the point
    rw [hfraction, List.length_nil] at hlength
    have hplace : d.dotPlace = d.digits.length := by omega
    have hzero : ¬ d.dotPlace ≤ 0 := by omega
    rw [if_neg hzero, if_pos hplace.ge, pointed, if_pos hfraction, whole, if_neg hzero, hplace]
    simp
  · have hlt : d.dotPlace < d.digits.length := by
      have := List.length_pos_iff.mpr hfraction
      omega
    rw [if_neg hlt.not_ge, pointed, if_neg hfraction, whole, fraction]
    split_ifs <;> rfl

/-! ## Reading what was printed -/

theorem readDigits_eq {text : List Char} (hne : text ≠ []) (hdigits : ∀ c ∈ text, c.isDigit) :
    readDigits text = some (Nat.ofDigitChars 10 text 0) := by
  have hall : text.all Char.isDigit := List.all_eq_true.mpr hdigits
  rw [readDigits, if_pos ⟨hne, hall⟩]

theorem readDigits_toDigits : readDigits (Nat.toDigits 10 n) = some n := by
  rw [readDigits_eq Nat.toDigits_ne_nil fun c hc =>
    Nat.isDigit_of_mem_toDigits (by norm_num) le_rfl hc, Nat.ofDigitChars_ten_toDigits]

theorem readPower_powerText (power : ℤ) : readPower (powerText power) = some power := by
  unfold powerText
  split_ifs with hzero hpos
  · rw [hzero]
    rfl
  · change (readDigits (Nat.toDigits 10 power.toNat)).map (fun n : ℕ => (n : ℤ)) = some power
    rw [readDigits_toDigits, Option.map_some, Int.toNat_of_nonneg hpos.le]
  · change (readDigits (Nat.toDigits 10 (-power).toNat)).map (fun n : ℕ => -(n : ℤ)) = some power
    rw [readDigits_toDigits, Option.map_some, Int.toNat_of_nonneg (by omega), neg_neg]

theorem ne_of_isDigit {c c' : Char} (h : c.isDigit) (h' : c'.isDigit = false) : c ≠ c' := by
  rintro rfl
  rw [h] at h'
  cases h'

/-- A list is cut where the characters that are kept end. -/
theorem cut_append {keep : Char → Bool} {l m : List Char} (hl : ∀ c ∈ l, keep c)
    (hm : ∀ c ∈ m.head?, ¬ keep c) :
    (l ++ m).takeWhile keep = l ∧ (l ++ m).dropWhile keep = m := by
  rw [List.takeWhile_append_of_pos hl, List.dropWhile_append_of_pos hl]
  cases m with
  | nil => simp
  | cons c m =>
    have hc : ¬ keep c := hm c rfl
    simp [hc]

theorem mem_powerText {power : ℤ} (h : c ∈ powerText power) : c ∈ ['E', '+', '-'] ∨ c.isDigit := by
  have hdigit {n : ℕ} (h : c ∈ Nat.toDigits 10 n) : c.isDigit :=
    Nat.isDigit_of_mem_toDigits (by norm_num) le_rfl h
  unfold powerText at h
  split_ifs at h
  · cases h
  · rcases List.mem_cons.mp h with rfl | h
    · exact .inl (by simp)
    · rcases List.mem_cons.mp h with rfl | h
      · exact .inl (by simp)
      · exact .inr (hdigit h)
  · rcases List.mem_cons.mp h with rfl | h
    · exact .inl (by simp)
    · rcases List.mem_cons.mp h with rfl | h
      · exact .inl (by simp)
      · exact .inr (hdigit h)

theorem head_powerText {power : ℤ} (h : c ∈ (powerText power).head?) : c = 'E' := by
  unfold powerText at h
  split_ifs at h
  · cases h
  · exact (Option.some.inj h).symm
  · exact (Option.some.inj h).symm

theorem ne_e_of_mem (h : c ∈ d.whole ++ pointed d.fraction) : c ≠ 'E' ∧ c ≠ 'e' := by
  rcases List.mem_append.mp h with h | h
  · have hdigit := isDigit_of_mem_whole h
    exact ⟨ne_of_isDigit hdigit rfl, ne_of_isDigit hdigit rfl⟩
  · rcases mem_pointed h with rfl | h
    · decide
    · have hdigit := isDigit_of_mem_fraction h
      exact ⟨ne_of_isDigit hdigit rfl, ne_of_isDigit hdigit rfl⟩

/-- **Reading what was printed gives back the numeral.** -/
theorem parse_str (d : Numeral) : parse d.str = some d := by
  have hdigits : ∀ c ∈ d.whole ++ d.fraction, c.isDigit := fun c hc =>
    (List.mem_append.mp hc).elim isDigit_of_mem_whole isDigit_of_mem_fraction
  -- the number ends before the `E`, and its whole part before the point
  have hnumber : ∀ c ∈ d.whole ++ pointed d.fraction, decide (c ≠ 'E' ∧ c ≠ 'e') = true :=
    fun c hc => decide_eq_true (ne_e_of_mem hc)
  have hpower : ∀ c ∈ (powerText d.power).head?, ¬ decide (c ≠ 'E' ∧ c ≠ 'e') = true :=
    fun c hc => by simp [head_powerText hc]
  have hwhole : ∀ c ∈ d.whole, decide (c ≠ '.') = true :=
    fun c hc => decide_eq_true (ne_of_isDigit (isDigit_of_mem_whole hc) rfl)
  have hpoint : ∀ c ∈ (pointed d.fraction).head?, ¬ decide (c ≠ '.') = true :=
    fun c hc => by simp [head_pointed hc]
  have hread : readDigits (d.whole ++ d.fraction) = some d.coefficient := by
    rw [readDigits_eq (List.append_ne_nil_of_left_ne_nil whole_ne_nil _) hdigits,
      ofDigitChars_parts]
  have hexponent : d.power - d.fraction.length = d.exponent := by
    rw [fraction_length, power]
    omega
  unfold parse
  rw [toList_str, (cut_append hnumber hpower).1, (cut_append hnumber hpower).2]
  dsimp only
  rw [(cut_append hwhole hpoint).1, (cut_append hwhole hpoint).2, pointed_drop, hread,
    readPower_powerText]
  dsimp only
  rw [hexponent]

theorem str_injective : Function.Injective str := by
  intro d d' h
  have hread := parse_str d'
  rw [← h, parse_str d] at hread
  exact Option.some.inj hread

/-- What a printed numeral is made of. -/
theorem mem_str (h : c ∈ d.str.toList) : c.isDigit ∨ c ∈ ['.', 'E', '+', '-'] := by
  rw [toList_str] at h
  rcases List.mem_append.mp h with h | h
  · rcases List.mem_append.mp h with h | h
    · exact .inl (isDigit_of_mem_whole h)
    · rcases mem_pointed h with rfl | h
      · exact .inr (by simp)
      · exact .inl (isDigit_of_mem_fraction h)
  · rcases mem_powerText h with h | h
    · exact .inr (List.mem_cons_of_mem _ h)
    · exact .inl h

/-! ## Rounding and stripping zeros -/

/-- The numeral rounded to `prec` digits, half to even. -/
def fix (prec : ℕ) (d : Numeral) : Numeral :=
  let excess := Nat.log 10 d.coefficient + 1 - prec
  ⟨(roundHalfEven (d.coefficient / 10 ^ excess)).toNat, d.exponent + excess⟩

/-- `d.normalize()`, in a context of `prec` digits. -/
def normalize (prec : ℕ) (d : Numeral) : Numeral :=
  let fixed := d.fix prec
  let (coefficient, exponent) := Decimal.normalize fixed.coefficient fixed.exponent
  ⟨coefficient, exponent⟩

/-- No zero is left at the end of the coefficient, and zero is written `0`. -/
def Stripped (d : Numeral) : Prop :=
  if d.coefficient = 0 then d.exponent = 0 else d.coefficient % 10 ≠ 0

theorem log_value (hpos : 0 < d.coefficient) :
    Int.log 10 d.value = Nat.log 10 d.coefficient + d.exponent := by
  have hcoefficient : (0 : ℚ) < d.coefficient := by exact_mod_cast hpos
  have hvalue : 0 < d.value := mul_pos hcoefficient (zpow_pos (by norm_num) _)
  rw [← Int.log_natCast (R := ℚ)]
  refine eq_of_forall_le_iff fun k => ?_
  rw [← Int.zpow_le_iff_le_log (by norm_num) hvalue, ← sub_le_iff_le_add,
    ← Int.zpow_le_iff_le_log (by norm_num) hcoefficient, value, Nat.cast_ofNat,
    zpow_sub₀ (by norm_num), div_le_iff₀ (zpow_pos (by norm_num) _)]

theorem value_nonneg : 0 ≤ d.value := mul_nonneg (Nat.cast_nonneg _) (zpow_nonneg (by norm_num) _)

theorem value_fix (prec : ℕ) : (d.fix prec).value = roundDigits prec d.value := by
  rcases Nat.eq_zero_or_pos d.coefficient with hzero | hpos
  · have hround : roundHalfEven 0 = 0 := roundHalfEven_intCast 0
    simp [fix, value, hzero, hround]
  have hulp : ulp prec d.value = 10 ^ (Nat.log 10 d.coefficient + d.exponent + 1 - prec) := by
    rw [ulp, abs_of_nonneg value_nonneg, log_value hpos]
  rcases Nat.le_total (Nat.log 10 d.coefficient + 1) prec with hfits | hlong
  · -- the numeral has no more digits than are kept
    obtain ⟨spare, hspare⟩ := Nat.exists_eq_add_of_le hfits
    have hfix : d.fix prec = d := by
      have hround : roundHalfEven (d.coefficient : ℚ) = d.coefficient :=
        roundHalfEven_intCast d.coefficient
      simp [fix, Nat.sub_eq_zero_of_le hfits, hround]
    have hmultiple : d.value = ((d.coefficient * 10 ^ spare : ℤ) : ℚ) * ulp prec d.value := by
      rw [hulp, value]
      push_cast
      rw [mul_assoc, ← zpow_natCast, ← zpow_add₀ (by norm_num)]
      congr 2
      omega
    rw [hfix, roundDigits_of_multiple hmultiple]
  · obtain ⟨excess, hexcess⟩ := Nat.exists_eq_add_of_le hlong
    have hfix : d.fix prec =
        ⟨(roundHalfEven (d.coefficient / 10 ^ excess)).toNat, d.exponent + excess⟩ := by
      simp [fix, hexcess]
    have hunit : ulp prec d.value = 10 ^ (d.exponent + excess) := by
      rw [hulp]
      congr 1
      omega
    have hquotient : d.value / ulp prec d.value = d.coefficient / 10 ^ excess := by
      rw [hunit, value, zpow_add₀ (by norm_num), zpow_natCast]
      field_simp
    have hnonneg : 0 ≤ roundHalfEven (d.coefficient / 10 ^ excess) := by
      rw [← roundHalfEven_intCast 0, Int.cast_zero]
      exact roundHalfEven_mono (by positivity)
    have hcast : (((roundHalfEven (d.coefficient / 10 ^ excess)).toNat : ℕ) : ℚ) =
        roundHalfEven (d.coefficient / 10 ^ excess) := by
      exact_mod_cast congrArg (Int.cast (R := ℚ)) (Int.toNat_of_nonneg hnonneg)
    rw [hfix, roundDigits_eq, hquotient, hunit, value, hcast]

theorem normalize_spec (coefficient : ℕ) (exponent : ℤ) :
    Stripped ⟨(Decimal.normalize coefficient exponent).1,
      (Decimal.normalize coefficient exponent).2⟩ ∧
    value ⟨(Decimal.normalize coefficient exponent).1,
      (Decimal.normalize coefficient exponent).2⟩ = value ⟨coefficient, exponent⟩ := by
  induction coefficient using Nat.strong_induction_on generalizing exponent with
  | _ coefficient ih =>
    unfold Decimal.normalize
    split_ifs with hzero hmod
    · rw [hzero]
      exact ⟨rfl, by simp [value]⟩
    · obtain ⟨hstripped, hvalue⟩ := ih (coefficient / 10) (by omega) (exponent + 1)
      refine ⟨hstripped, hvalue.trans ?_⟩
      have hten : coefficient = coefficient / 10 * 10 := by omega
      have hcast : (coefficient : ℚ) = (coefficient / 10 : ℕ) * 10 := by exact_mod_cast hten
      rw [value, value, hcast, zpow_add_one₀ (by norm_num)]
      ring
    · refine ⟨?_, rfl⟩
      rw [Stripped, if_neg hzero]
      exact hmod

/-- A numeral without trailing zeros has the greatest exponent of its value. -/
theorem Stripped.exponent_le (h : d.Stripped) (hpos : 0 < d.coefficient)
    (hvalue : d.value = d'.value) : d'.exponent ≤ d.exponent := by
  by_contra hlt
  obtain ⟨m, hm⟩ := Int.exists_add_of_le (show d.exponent + 1 ≤ d'.exponent by omega)
  rw [Stripped, if_neg hpos.ne'] at h
  refine h (Nat.mod_eq_zero_of_dvd ⟨d'.coefficient * 10 ^ m, ?_⟩)
  have hten : (10 : ℚ) ^ d.exponent ≠ 0 := zpow_ne_zero _ (by norm_num)
  have hcast : (d.coefficient : ℚ) = 10 * (d'.coefficient * 10 ^ m) := by
    refine mul_right_cancel₀ hten (hvalue.trans ?_)
    rw [value, hm, zpow_add₀ (by norm_num), zpow_add_one₀ (by norm_num), zpow_natCast]
    ring
  exact_mod_cast hcast

/-- **A value has one numeral without trailing zeros.** -/
theorem Stripped.eq_of_value (h : d.Stripped) (h' : d'.Stripped) (hvalue : d.value = d'.value) :
    d = d' := by
  have hten (e : ℤ) : (10 : ℚ) ^ e ≠ 0 := zpow_ne_zero _ (by norm_num)
  obtain ⟨c, e⟩ := d
  obtain ⟨c', e'⟩ := d'
  have hcoefficients : c = 0 ↔ c' = 0 := by
    have hzero := congrArg (· = 0) hvalue
    simpa [value, hten] using hzero
  rcases Nat.eq_zero_or_pos c with rfl | hpos
  · obtain rfl := hcoefficients.mp rfl
    rw [Stripped, if_pos rfl] at h h'
    exact congrArg _ (h.trans h'.symm)
  · have hpos' : 0 < c' := Nat.pos_of_ne_zero fun hzero => hpos.ne' (hcoefficients.mpr hzero)
    obtain rfl : e = e' :=
      le_antisymm (h'.exponent_le hpos' hvalue.symm) (h.exponent_le hpos hvalue)
    have hcast : (c : ℚ) = c' := mul_right_cancel₀ (hten e) hvalue
    obtain rfl : c = c' := by exact_mod_cast hcast
    rfl

theorem value_normalize (prec : ℕ) : (d.normalize prec).value = roundDigits prec d.value :=
  (normalize_spec _ _).2.trans (value_fix prec)

/-- **Normalizing decides equality of values**, of numerals that the context does not
round. -/
theorem normalize_eq_iff {prec : ℕ} (hd : roundDigits prec d.value = d.value)
    (hd' : roundDigits prec d'.value = d'.value) :
    d.normalize prec = d'.normalize prec ↔ d.value = d'.value := by
  constructor
  · intro heq
    rw [← hd, ← hd', ← value_normalize, ← value_normalize, heq]
  · intro heq
    refine Stripped.eq_of_value (normalize_spec _ _).1 (normalize_spec _ _).1 ?_
    rw [value_normalize, value_normalize, heq]

example : (normalize 28 ⟨1500000, -4⟩).str = "1.5E+2" := by decide +kernel

end Numeral

end Decimal
