import SettlementRouter.Models

/-! # The payout provider

`app/provider.py`: what a provider answers, and what the service may assume of
it.  A provider keeps at most one operation for each settlement id; the outcome
it has recorded for it, if any, is what its answers are judged by.
-/
namespace SettlementRouter

/-- What `initiate` answers. -/
inductive ProviderResult where
  | paid
  | unpaid
  | ambiguous
  deriving DecidableEq

/-- What `lookup` answers. -/
inductive ProviderLookup where
  | paid
  | unpaid
  | unknown
  | notFound
  | processing
  | unavailable
  deriving DecidableEq

/-- Which answers a provider may give about an operation, by the outcome it has
recorded for it.  An answer of `none` is an exception or a timeout. -/
structure ProviderLaw where
  initiate : Option ProviderLookup → Option ProviderResult → Prop
  lookup : Option ProviderLookup → Option ProviderLookup → Prop

/-- The contract of `PayoutProvider`: paid and unpaid are only ever answered when
they are the recorded outcome. -/
def ProviderLaw.contract : ProviderLaw where
  initiate recorded answer :=
    (answer = some .paid → recorded = some .paid) ∧
      (answer = some .unpaid → recorded = some .unpaid)
  lookup recorded answer :=
    (answer = some .paid → recorded = some .paid) ∧
      (answer = some .unpaid → recorded = some .unpaid)

/-- An answer, as the caller of the provider sees it. -/
def answered {α : Type} : Option α → Except ServiceError α
  | some a => .ok a
  | none => .error .providerError

end SettlementRouter
