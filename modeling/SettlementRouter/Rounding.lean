import Mathlib.Data.List.Induction
import SettlementRouter.Decimal

/-! # Rounding is monotone

When a rounded value reaches a bound, in terms of the exact value: the nearest
integer is at least `k` from `k - 1 / 2` on, where half to even and half away from
zero differ in the tie only.  So both are monotone, and so is rounding to a number
of significant digits, though the unit it rounds to changes with the value.
-/
namespace Decimal

section Integers
variable {k : ℤ} {x y : ℚ}

theorem le_roundHalfEven :
    k ≤ roundHalfEven x ↔ (k : ℚ) - 1 / 2 < x ∨ (k : ℚ) - 1 / 2 = x ∧ k % 2 = 0 := by
  have hle := Int.floor_le x
  have hlt := Int.lt_floor_add_one x
  -- the integers below `x` are all reached; above it only the next one can be
  have hbelow : k ≤ ⌊x⌋ → (k : ℚ) ≤ ⌊x⌋ := fun h => by exact_mod_cast h
  have habove : ⌊x⌋ + 2 ≤ k → (⌊x⌋ : ℚ) + 2 ≤ k := fun h => by exact_mod_cast h
  rcases lt_trichotomy k (⌊x⌋ + 1) with hk | rfl | hk
  · have hkx := hbelow (Int.lt_add_one_iff.mp hk)
    refine iff_of_true ?_ (.inl (by linarith))
    unfold roundHalfEven
    dsimp only
    split_ifs <;> omega
  · unfold roundHalfEven
    push_cast
    split_ifs with hlow hhigh heven
    · refine iff_of_false (by omega) ?_
      rintro (h | ⟨h, -⟩) <;> linarith
    · exact iff_of_true le_rfl (.inl (by linarith))
    · refine iff_of_false (by omega) ?_
      rintro (h | ⟨-, h⟩)
      · linarith
      · omega
    · exact iff_of_true le_rfl (.inr ⟨by linarith, by omega⟩)
  · have hkx := habove (by omega)
    refine iff_of_false ?_ ?_
    · unfold roundHalfEven
      dsimp only
      split_ifs <;> omega
    · rintro (h | ⟨h, -⟩) <;> linarith

theorem roundHalfEven_mono (h : x ≤ y) : roundHalfEven x ≤ roundHalfEven y := by
  rw [le_roundHalfEven]
  rcases le_roundHalfEven.mp (le_refl (roundHalfEven x)) with hx | ⟨hx, heven⟩
  · exact .inl (hx.trans_le h)
  · rcases h.lt_or_eq with hlt | rfl
    · exact .inl (hx.trans_lt hlt)
    · exact .inr ⟨hx, heven⟩

@[simp] theorem roundHalfEven_intCast (k : ℤ) : roundHalfEven k = k := by
  simp [roundHalfEven]

theorem roundHalfEven_neg (x : ℚ) : roundHalfEven (-x) = -roundHalfEven x := by
  refine eq_of_forall_le_iff fun k => ?_
  have hflip : k ≤ -roundHalfEven x ↔ ¬ -k + 1 ≤ roundHalfEven x := by omega
  rw [hflip, le_roundHalfEven, le_roundHalfEven]
  push_cast
  rcases lt_trichotomy (-(k : ℚ) + 1 / 2) x with hlt | heq | hgt
  · refine iff_of_false ?_ (not_not.mpr (.inl (by linarith)))
    rintro (h | ⟨h, -⟩) <;> linarith
  · -- the tie: of `k` and `-k + 1` exactly one is even
    have hlow : ¬ (k : ℚ) - 1 / 2 < -x := by linarith
    have hhigh : ¬ -(k : ℚ) + 1 - 1 / 2 < x := by linarith
    have htie : (k : ℚ) - 1 / 2 = -x := by linarith
    have htie' : -(k : ℚ) + 1 - 1 / 2 = x := by linarith
    rw [or_iff_right hlow, or_iff_right hhigh, and_iff_right htie, and_iff_right htie']
    omega
  · refine iff_of_true (.inl (by linarith)) ?_
    rintro (h | ⟨h, -⟩) <;> linarith

theorem le_roundHalfAway (hk : 0 < k) : k ≤ roundHalfAway x ↔ (k : ℚ) - 1 / 2 ≤ x := by
  have hk' : (1 : ℚ) ≤ k := by exact_mod_cast hk
  unfold roundHalfAway
  split_ifs with hx
  · rw [Int.le_floor]
    constructor <;> intro h <;> linarith
  · have hfloor : 0 ≤ ⌊-x + 1 / 2⌋ := Int.floor_nonneg.mpr (by linarith)
    exact iff_of_false (by omega) (by linarith)

@[simp] theorem roundHalfAway_intCast (k : ℤ) : roundHalfAway k = k := by
  have hhalf : ⌊(1 / 2 : ℚ)⌋ = 0 := by norm_num
  unfold roundHalfAway
  split_ifs
  · rw [Int.floor_intCast_add, hhalf, add_zero]
  · rw [← Int.cast_neg, Int.floor_intCast_add, hhalf, add_zero, neg_neg]

end Integers

section Digits
variable {n : ℕ} {p q h : ℚ}

/-- The unit of the last of `n` significant digits. -/
def ulp (n : ℕ) (q : ℚ) : ℚ := 10 ^ (Int.log 10 |q| + 1 - n)

theorem ulp_pos : 0 < ulp n q := zpow_pos (by norm_num) _

theorem ulp_eq (hq : 0 < q) : ulp n q = 10 ^ (Int.log 10 q + 1 - n) := by
  rw [ulp, abs_of_pos hq]

theorem roundDigits_eq : roundDigits n q = roundHalfEven (q / ulp n q) * ulp n q := rfl

/-- The value is at least halfway from the multiple of the unit below the least one
that is not below `h`, where it is even, or more than halfway. -/
def Reaches (n : ℕ) (q h : ℚ) : Prop :=
  (⌈h / ulp n q⌉ : ℚ) - 1 / 2 < q / ulp n q ∨
    (⌈h / ulp n q⌉ : ℚ) - 1 / 2 = q / ulp n q ∧ ⌈h / ulp n q⌉ % 2 = 0

/-- When the rounded value reaches a bound. -/
theorem le_roundDigits : h ≤ roundDigits n q ↔ Reaches n q h := by
  rw [roundDigits_eq, ← div_le_iff₀ ulp_pos, ← Int.ceil_le, le_roundHalfEven, Reaches]

/-- A multiple of the unit is not rounded. -/
theorem roundDigits_of_multiple {k : ℤ} (hq : q = k * ulp n q) : roundDigits n q = q := by
  have hdiv : q / ulp n q = k := by
    rw [div_eq_iff ulp_pos.ne']
    exact hq
  rw [roundDigits_eq, hdiv, roundHalfEven_intCast, ← hq]

/-- Rounding keeps a positive value between two powers of ten. -/
theorem zpow_log_le_roundDigits (hn : 1 ≤ n) (hq : 0 < q) :
    10 ^ Int.log 10 q ≤ roundDigits n q := by
  have hle : (10 : ℚ) ^ Int.log 10 q ≤ q := by
    exact_mod_cast Int.zpow_log_le_self (b := 10) (by norm_num) hq
  have hunits : (10 : ℚ) ^ Int.log 10 q / ulp n q = ((10 ^ (n - 1) : ℤ) : ℚ) := by
    rw [ulp_eq hq, ← zpow_sub₀ (by norm_num)]
    push_cast
    rw [← zpow_natCast]
    congr 1
    omega
  rw [le_roundDigits, Reaches, hunits, Int.ceil_intCast]
  have hdiv : (10 : ℚ) ^ Int.log 10 q / ulp n q ≤ q / ulp n q :=
    div_le_div_of_nonneg_right hle ulp_pos.le
  rw [hunits] at hdiv
  exact .inl (by linarith)

theorem roundDigits_le_zpow_log (hq : 0 < q) : roundDigits n q ≤ 10 ^ (Int.log 10 q + 1) := by
  have hle : q ≤ (10 : ℚ) ^ (Int.log 10 q + 1) := by
    exact_mod_cast (Int.lt_zpow_succ_log_self (b := 10) (by norm_num) q).le
  have hunits : (10 : ℚ) ^ (Int.log 10 q + 1) = ((10 ^ n : ℤ) : ℚ) * ulp n q := by
    rw [ulp_eq hq]
    push_cast
    rw [← zpow_natCast, ← zpow_add₀ (by norm_num)]
    congr 1
    omega
  have hround : roundHalfEven (q / ulp n q) ≤ 10 ^ n := by
    rw [← roundHalfEven_intCast (10 ^ n)]
    refine roundHalfEven_mono ((div_le_iff₀ ulp_pos).mpr ?_)
    rwa [← hunits]
  rw [roundDigits_eq, hunits]
  exact mul_le_mul_of_nonneg_right (by exact_mod_cast hround) ulp_pos.le

/-- **Rounding to significant digits is monotone.** -/
theorem roundDigits_mono (hn : 1 ≤ n) (hp : 0 < p) (hpq : p ≤ q) :
    roundDigits n p ≤ roundDigits n q := by
  have hq := hp.trans_le hpq
  rcases (Int.log_mono_right (b := 10) hp hpq).lt_or_eq with hlt | heq
  · -- there is a power of ten between the two
    calc roundDigits n p ≤ 10 ^ (Int.log 10 p + 1) := roundDigits_le_zpow_log hp
      _ ≤ 10 ^ Int.log 10 q := zpow_le_zpow_right₀ (by norm_num) hlt
      _ ≤ roundDigits n q := zpow_log_le_roundDigits hn hq
  · have hulp : ulp n p = ulp n q := by rw [ulp_eq hp, ulp_eq hq, heq]
    rw [roundDigits_eq, roundDigits_eq, hulp]
    refine mul_le_mul_of_nonneg_right ?_ ulp_pos.le
    exact_mod_cast roundHalfEven_mono (div_le_div_of_nonneg_right hpq ulp_pos.le)

theorem roundDigits_pos (hn : 1 ≤ n) (hq : 0 < q) : 0 < roundDigits n q :=
  (zpow_pos (by norm_num) _).trans_le (zpow_log_le_roundDigits hn hq)

@[simp] theorem roundDigits_zero : roundDigits n 0 = 0 := by
  rw [roundDigits_eq, zero_div, show (0 : ℚ) = (0 : ℤ) from rfl, roundHalfEven_intCast,
    Int.cast_zero, zero_mul]

theorem roundDigits_neg : roundDigits n (-q) = -roundDigits n q := by
  have hulp : ulp n (-q) = ulp n q := by rw [ulp, ulp, abs_neg]
  rw [roundDigits_eq, roundDigits_eq, hulp, neg_div, roundHalfEven_neg, Int.cast_neg, neg_mul]

theorem roundDigits_nonneg (hn : 1 ≤ n) (hq : 0 ≤ q) : 0 ≤ roundDigits n q := by
  rcases hq.eq_or_lt with rfl | hpos
  · rw [roundDigits_zero]
  · exact (roundDigits_pos hn hpos).le

/-- Whatever the signs. -/
theorem roundDigits_monotone (hn : 1 ≤ n) : Monotone (roundDigits n) := by
  intro p q hpq
  rcases lt_or_ge 0 p with hp | hp
  · exact roundDigits_mono hn hp hpq
  · rcases lt_or_ge q 0 with hq | hq
    · have hneg := roundDigits_mono hn (neg_pos.mpr hq) (neg_le_neg hpq)
      rw [roundDigits_neg, roundDigits_neg] at hneg
      exact neg_le_neg_iff.mp hneg
    · have hp' := roundDigits_nonneg hn (neg_nonneg.mpr hp)
      rw [roundDigits_neg] at hp'
      exact (neg_nonneg.mp hp').trans (roundDigits_nonneg hn hq)

theorem abs_roundHalfEven_sub_le (x : ℚ) : |roundHalfEven x - x| ≤ 1 / 2 := by
  have hle := Int.floor_le x
  have hlt := Int.lt_floor_add_one x
  unfold roundHalfEven
  dsimp only
  rw [abs_le]
  split_ifs <;> push_cast <;> constructor <;> linarith

/-- The unit of the last digit is small beside the value. -/
theorem ulp_mul_le (hn : 1 ≤ n) (hq : 0 < q) : ulp n q * 10 ^ (n - 1) ≤ q := by
  have hpower : ulp n q * 10 ^ (n - 1) = 10 ^ Int.log 10 q := by
    rw [ulp_eq hq, ← zpow_natCast, ← zpow_add₀ (by norm_num)]
    congr 1
    omega
  rw [hpower]
  exact_mod_cast Int.zpow_log_le_self (b := 10) (by norm_num) hq

/-- **The relative error of rounding**: half a unit of the last digit. -/
theorem abs_roundDigits_sub_le (hn : 1 ≤ n) (hq : 0 < q) :
    |roundDigits n q - q| ≤ q / (2 * 10 ^ (n - 1)) := by
  have hulp : 0 < ulp n q := ulp_pos
  have hsub : roundDigits n q - q = (roundHalfEven (q / ulp n q) - q / ulp n q) * ulp n q := by
    rw [roundDigits_eq, sub_mul, div_mul_cancel₀ q hulp.ne']
  rw [hsub, abs_mul, abs_of_pos hulp, le_div_iff₀ (by positivity)]
  calc |(roundHalfEven (q / ulp n q) : ℚ) - q / ulp n q| * ulp n q * (2 * 10 ^ (n - 1))
      ≤ 1 / 2 * ulp n q * (2 * 10 ^ (n - 1)) := by
        gcongr
        exact abs_roundHalfEven_sub_le _
    _ = ulp n q * 10 ^ (n - 1) := by ring
    _ ≤ q := ulp_mul_le hn hq

/-- What a column of `n` digits holds is not rounded. -/
theorem roundDigits_ofColumn {scale : ℕ} {units : ℤ} (hunits : Fits n units) :
    roundDigits n (ofColumn scale units) = ofColumn scale units := by
  obtain rfl | hne := eq_or_ne units 0
  · rw [ofColumn, Int.cast_zero, zero_div, roundDigits_zero]
  set q := ofColumn scale units with hq
  have hpos : 0 < |q| := abs_pos.mpr (div_ne_zero (Int.cast_ne_zero.mpr hne) (by positivity))
  have hlog : Int.log 10 |q| < n - scale := by
    refine (Int.lt_zpow_iff_log_lt (by norm_num) hpos).mp ?_
    rw [hq, ofColumn, abs_div, abs_of_pos (by positivity : (0 : ℚ) < 10 ^ scale), Nat.cast_ofNat,
      zpow_sub₀ (by norm_num), zpow_natCast, zpow_natCast]
    refine div_lt_div_of_pos_right ?_ (by positivity)
    exact_mod_cast hunits
  -- the unit it rounds to divides that of the column
  obtain ⟨m, hm⟩ : ∃ m : ℕ, (m : ℤ) = -scale - (Int.log 10 |q| + 1 - n) :=
    ⟨_, Int.toNat_of_nonneg (by omega)⟩
  have hmultiple : q = ((units * 10 ^ m : ℤ) : ℚ) * ulp n q := by
    push_cast
    rw [ulp, mul_assoc, ← zpow_natCast, ← zpow_add₀ (by norm_num), hm, sub_add_cancel, zpow_neg,
      zpow_natCast, ← div_eq_mul_inv]
    exact hq
  exact roundDigits_of_multiple hmultiple

end Digits

/-- Products of values that are not negative grow with the factors, and are not negative. -/
theorem Context.mul_le_mul {c : Context} (hround : Monotone c.round) (hzero : c.round 0 = 0)
    {a a' b b' : ℚ} (ha : 0 ≤ a) (haa : a ≤ a') (hb : 0 ≤ b) (hbb : b ≤ b') :
    0 ≤ c.mul a b ∧ c.mul a b ≤ c.mul a' b' := by
  constructor
  · exact hzero.symm.le.trans (hround (mul_nonneg ha hb))
  · have ha' := ha.trans haa
    exact hround (by gcongr)

section Columns
variable {n scale : ℕ}

theorem toColumn_eq_some {q : ℚ} {units : ℤ} :
    toColumn n scale q = some units ↔ units = roundHalfAway (q * 10 ^ scale) ∧ Fits n units := by
  unfold toColumn
  dsimp only
  split_ifs with hfits
  · constructor
    · rintro ⟨⟩
      exact ⟨rfl, hfits⟩
    · rintro ⟨rfl, -⟩
      rfl
  · refine iff_of_false nofun ?_
    rintro ⟨rfl, hunits⟩
    exact hfits hunits

/-- What is stored of a value the column holds is the value. -/
theorem toColumn_ofColumn {units : ℤ} (h : Fits n units) :
    toColumn n scale (ofColumn scale units) = some units := by
  have hmul : ofColumn scale units * 10 ^ scale = units :=
    div_mul_cancel₀ _ (pow_ne_zero _ (by norm_num))
  rw [toColumn_eq_some, hmul, roundHalfAway_intCast]
  exact ⟨rfl, h⟩

theorem ofColumn_add (a b : ℤ) : ofColumn scale (a + b) = ofColumn scale a + ofColumn scale b := by
  rw [ofColumn, Int.cast_add, add_div]
  rfl

theorem ofColumn_injective : Function.Injective (ofColumn scale) := by
  intro a b h
  unfold ofColumn at h
  rw [div_left_inj' (by positivity)] at h
  exact_mod_cast h

/-- **A sum is exact** while no running sum is rounded. -/
theorem Context.total_eq_of_exact {units : List ℤ}
    (hexact : ∀ earlier, earlier <+: units →
      roundDigits n (ofColumn scale earlier.sum) = ofColumn scale earlier.sum) :
    (prec n).total (units.map (ofColumn scale)) = ofColumn scale units.sum := by
  induction units using List.reverseRecOn with
  | nil => simp [total, ofColumn]
  | append_singleton units unit ih =>
    have hsum := ih fun earlier hearlier =>
      hexact earlier (hearlier.trans (List.prefix_append _ _))
    rw [total, List.map_append, List.foldl_append, ← total, hsum, List.sum_append]
    simp only [List.map_cons, List.map_nil, List.foldl_cons, List.foldl_nil, List.sum_cons,
      List.sum_nil, add_zero]
    rw [add, ← ofColumn_add]
    have hlast := hexact _ (List.prefix_refl _)
    rwa [List.sum_append, List.sum_singleton] at hlast

/-- The same value added `m` times. -/
theorem Context.foldl_add_replicate {start step : ℤ} (m : ℕ)
    (hfits : ∀ k : ℕ, k ≤ m → Fits n (start + k * step)) :
    (List.replicate m (ofColumn scale step)).foldl (prec n).add (ofColumn scale start) =
      ofColumn scale (start + m * step) := by
  induction m with
  | zero => simp
  | succ m ih =>
    have hsum := ih fun k hk => hfits k (hk.trans (Nat.le_succ m))
    have hnext : start + m * step + step = start + (m + 1 : ℕ) * step := by
      push_cast
      ring
    rw [List.replicate_succ', List.foldl_append, hsum, List.foldl_cons, List.foldl_nil, add,
      ← ofColumn_add, hnext]
    exact roundDigits_ofColumn (hfits _ le_rfl)

end Columns

end Decimal
