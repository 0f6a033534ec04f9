import SettlementRouter.Numerals
import SettlementRouter.RoutingRounds
import SettlementRouter.SystemRuns

/-! # The request fingerprint

`request_fingerprint` hashes the owner, the normalized amount and the currency, joined
by bars.  The owner may contain bars itself.  Still the text tells all requests apart
and none twice (`fingerprints_separate`): neither a printed number nor a currency
contains a bar, so the two fields are cut off from the right, and a value has one
normalized numeral.
-/
namespace SettlementRouter

/-- A command with its amount as the caller wrote it: with any number of trailing
zeros, or with an exponent. -/
structure WrittenCommand where
  command : SettlementCreate
  amount : Decimal.Numeral
  amount_eq : amount.value = Decimal.ofColumn 8 command.amountUsd

namespace WrittenCommand
variable (written : WrittenCommand)

/-- The context of 28 digits does not round the amount. -/
theorem roundDigits_amount : Decimal.roundDigits 28 written.amount.value = written.amount.value := by
  rw [written.amount_eq]
  exact Decimal.roundDigits_ofColumn (written.command.amount_fits.mono (by norm_num))

end WrittenCommand

/-- The string that `request_fingerprint` hashes, in the default context of 28 digits. -/
def fingerprintText (ownerId : String) (written : WrittenCommand) : String :=
  ownerId ++ "|" ++ (written.amount.normalize 28).str ++ "|" ++ written.command.targetCurrency.value

/-- The fingerprint does not depend on how the amount was written. -/
theorem requestFingerprint_eq (sha256 : String → String) (ownerId : String)
    (written : WrittenCommand) :
    requestFingerprint sha256 ownerId written.command =
      sha256 (fingerprintText ownerId written) := by
  obtain ⟨units, hunits⟩ := Int.eq_ofNat_of_zero_le written.command.amount_positive.le
  have hspec := Decimal.Numeral.normalize_spec written.command.amountUsd.toNat (-8)
  have hwritten := Decimal.Numeral.normalize_spec (written.amount.fix 28).coefficient
    (written.amount.fix 28).exponent
  have hnormal : written.amount.normalize 28 =
      ⟨(Decimal.normalize written.command.amountUsd.toNat (-8)).1,
        (Decimal.normalize written.command.amountUsd.toNat (-8)).2⟩ := by
    refine hwritten.1.eq_of_value hspec.1 ?_
    rw [hspec.2, hwritten.2]
    refine (Decimal.Numeral.value_fix 28).trans ?_
    rw [written.roundDigits_amount, written.amount_eq, hunits]
    simp [Decimal.ofColumn, Decimal.Numeral.value, zpow_neg, div_eq_mul_inv]
  rw [fingerprintText, hnormal]
  rfl

/-! ## Cutting the text from the right -/

/-- Lists that end in fields without the separator are cut before the last one alike. -/
theorem cut_last {α : Type*} {x : α} {l l' m m' : List α} (hm : x ∉ m) (hm' : x ∉ m')
    (h : l ++ x :: m = l' ++ x :: m') : l = l' ∧ m = m' := by
  rcases List.append_eq_append_iff.mp h with ⟨a, ha, hm₁⟩ | ⟨a, ha, hm₁⟩
  · cases a with
    | nil => exact ⟨by simpa using ha.symm, by simpa using hm₁⟩
    | cons y a =>
      obtain ⟨rfl, htail⟩ := List.cons.inj hm₁
      exact absurd (htail ▸ List.mem_append_right _ List.mem_cons_self) hm
  · cases a with
    | nil => exact ⟨by simpa using ha, by simpa using hm₁.symm⟩
    | cons y a =>
      obtain ⟨rfl, htail⟩ := List.cons.inj hm₁
      exact absurd (htail ▸ List.mem_append_right _ List.mem_cons_self) hm'

theorem bar_notMem_value (currency : Currency) : '|' ∉ currency.value.toList := by
  cases currency <;> decide

theorem bar_notMem_str (d : Decimal.Numeral) : '|' ∉ d.str.toList := by
  intro h
  rcases Decimal.Numeral.mem_str h with h | h
  · exact absurd h (by decide)
  · exact absurd h (by decide)

theorem fingerprintText_inj {ownerId ownerId' : String} {written written' : WrittenCommand}
    (h : fingerprintText ownerId written = fingerprintText ownerId' written') :
    ownerId = ownerId' ∧ written.amount.normalize 28 = written'.amount.normalize 28 ∧
      written.command.targetCurrency = written'.command.targetCurrency := by
  have hlists : (ownerId.toList ++ '|' :: (written.amount.normalize 28).str.toList) ++
      '|' :: written.command.targetCurrency.value.toList =
      (ownerId'.toList ++ '|' :: (written'.amount.normalize 28).str.toList) ++
        '|' :: written'.command.targetCurrency.value.toList := by
    simpa [fingerprintText] using congrArg String.toList h
  obtain ⟨hrest, hcurrency⟩ := cut_last (bar_notMem_value _) (bar_notMem_value _) hlists
  obtain ⟨howner, hamount⟩ := cut_last (bar_notMem_str _) (bar_notMem_str _) hrest
  exact ⟨String.toList_inj.mp howner, Decimal.Numeral.str_injective (String.toList_inj.mp hamount),
    Currency.value_injective (String.toList_inj.mp hcurrency)⟩

theorem fingerprintText_eq_iff {ownerId ownerId' : String} {written written' : WrittenCommand} :
    fingerprintText ownerId written = fingerprintText ownerId' written' ↔
      ownerId = ownerId' ∧ written.amount.value = written'.amount.value ∧
        written.command.targetCurrency = written'.command.targetCurrency := by
  have hnormal := Decimal.Numeral.normalize_eq_iff written.roundDigits_amount
    written'.roundDigits_amount
  constructor
  · intro h
    obtain ⟨howner, hamount, hcurrency⟩ := fingerprintText_inj h
    exact ⟨howner, hnormal.mp hamount, hcurrency⟩
  · rintro ⟨rfl, hamount, hcurrency⟩
    rw [fingerprintText, fingerprintText, hnormal.mpr hamount, hcurrency]

/-- A request is told apart from the one that took its key by the fingerprints alone. -/
theorem replay_conflicts_iff (existing : Sigma Settlement) (fingerprint : String) :
    replay existing fingerprint = .raise .idempotencyConflict ↔
      existing.2.requestFingerprint ≠ fingerprint := by
  unfold replay
  split_ifs with hdifferent hreserved
  · exact iff_of_true rfl hdifferent
  · exact iff_of_false nofun hdifferent
  · exact iff_of_false nofun hdifferent

/-- **The fingerprint separates exactly the different requests.**  For a hash without
collisions, a request that follows another with its key conflicts with it if and only
if the amount or the currency is another one. -/
theorem fingerprints_separate (ownerId ownerId' : String) (written written' : WrittenCommand) :
    (fingerprintText ownerId written = fingerprintText ownerId' written' ↔
      ownerId = ownerId' ∧ written.amount.value = written'.amount.value ∧
        written.command.targetCurrency = written'.command.targetCurrency) ∧
    ∀ sha256, Function.Injective sha256 → ∀ existing : Sigma Settlement,
      existing.2.requestFingerprint = requestFingerprint sha256 ownerId written.command →
      (replay existing (requestFingerprint sha256 ownerId written'.command) =
          .raise .idempotencyConflict ↔
        ¬ (written.amount.value = written'.amount.value ∧
          written.command.targetCurrency = written'.command.targetCurrency)) := by
  refine ⟨fingerprintText_eq_iff, fun sha256 hsha256 existing hexisting => ?_⟩
  rw [replay_conflicts_iff, hexisting, requestFingerprint_eq, requestFingerprint_eq, ne_eq,
    hsha256.eq_iff, fingerprintText_eq_iff, and_iff_right rfl]

/-- A hundred dollars, with a trailing zero. -/
def hundredPlain : WrittenCommand := ⟨sampleCommand, ⟨1000, -1⟩, by decide +kernel⟩

/-- And in exponent form. -/
def hundredScientific : WrittenCommand := ⟨sampleCommand, ⟨1, 2⟩, by decide +kernel⟩

theorem fingerprints_separate_hundred :
    fingerprintText "ada" hundredPlain = fingerprintText "ada" hundredScientific ∧
    replay ⟨7, sampleRow .success⟩ (requestFingerprint id "ada" hundredScientific.command) ≠
      .raise .idempotencyConflict := by
  have hvalue : hundredPlain.amount.value = hundredScientific.amount.value := by decide +kernel
  have hseparate := fingerprints_separate "ada" "ada" hundredPlain hundredScientific
  refine ⟨hseparate.1.mpr ⟨rfl, hvalue, rfl⟩, fun hconflict => ?_⟩
  exact (hseparate.2 id Function.injective_id ⟨7, sampleRow .success⟩ rfl).mp hconflict
    ⟨hvalue, rfl⟩

end SettlementRouter
