import SettlementRouter.Models

/-! # Requests and responses

`app/schemas.py`: the command a caller sends, its fingerprint, and the view of a
settlement that is returned.
-/
namespace SettlementRouter

/-- A command that passed validation: a positive amount of at most 16 integer
digits and 8 decimals. -/
structure SettlementCreate where
  amountUsd : Units
  targetCurrency : Currency
  amount_positive : 0 < amountUsd
  amount_fits : Decimal.Fits 24 amountUsd

/-- `request_fingerprint`, for a hash function `sha256`. -/
def requestFingerprint (sha256 : String → String) (ownerId : String)
    (command : SettlementCreate) : String :=
  let (coefficient, exponent) := Decimal.normalize command.amountUsd.toNat (-8)
  sha256 (ownerId ++ "|" ++ Decimal.display coefficient exponent ++ "|" ++
    command.targetCurrency.value)

/-- `SettlementRead`, as the service returns it. -/
structure SettlementRead where
  id : UUID
  status : SettlementStatus
  amountUsd : Units
  targetCurrency : Currency
  quotedAmount : Units
  aggregateRate : Units
  snapshotVersion : ℤ
  route : List RouteHop

/-- `SettlementRead.from_orm_settlement`. -/
def SettlementRead.fromOrmSettlement {id : UUID} (settlement : Settlement id) :
    SettlementRead where
  id := id
  status := settlement.status
  amountUsd := settlement.amountUsd
  targetCurrency := settlement.targetCurrency
  quotedAmount := settlement.quotedAmount
  aggregateRate := settlement.aggregateRate
  snapshotVersion := settlement.snapshotVersion
  route := settlement.route

/-- A claim on a settlement's payout, fenced by its token. -/
structure PayoutClaim where
  settlement : SettlementRead
  attemptToken : ℕ

end SettlementRouter
