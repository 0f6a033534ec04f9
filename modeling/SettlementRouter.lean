import SettlementRouter.TableTotals
import SettlementRouter.Runs
import SettlementRouter.BestWalks
import SettlementRouter.Decimal
import SettlementRouter.Routing
import SettlementRouter.RoutingRounds
import SettlementRouter.RouteOptimality
import SettlementRouter.Ledger
import SettlementRouter.Programs
import SettlementRouter.Provider
import SettlementRouter.Schemas
import SettlementRouter.Transactions
import SettlementRouter.Service
import SettlementRouter.System
import SettlementRouter.Lifecycle
import SettlementRouter.Writes
import SettlementRouter.JournalEvents
import SettlementRouter.AttemptTokens
import SettlementRouter.LedgerBalance
import SettlementRouter.DueBatch
import SettlementRouter.Replies
import SettlementRouter.CallConduct
import SettlementRouter.ProviderAgreement
import SettlementRouter.PayoutDiscipline
import SettlementRouter.IdempotentCreation
import SettlementRouter.LedgerTriggers
import SettlementRouter.LedgerGuards
import SettlementRouter.StatusOrder
import SettlementRouter.Insertions
import SettlementRouter.FailedCreation
import SettlementRouter.SoloRuns
import SettlementRouter.Completion
import SettlementRouter.QuotedAmount
import SettlementRouter.RateBook
import SettlementRouter.RoundedRoutes
import SettlementRouter.MockProvider
import SettlementRouter.MockRegistry
import SettlementRouter.MockContract
import SettlementRouter.MockPositions
import SettlementRouter.LockOrder
import SettlementRouter.Locking
import SettlementRouter.LedgerInvariants
import SettlementRouter.Seeding
import SettlementRouter.BetterMarkets
import SettlementRouter.Fingerprint
import SettlementRouter.StoredRoute
import SettlementRouter.RateStream
import SettlementRouter.Auditor
import SettlementRouter.RowOrder
import SettlementRouter.Reseeding
import SettlementRouter.Api
import SettlementRouter.AtomicTransactions
import SettlementRouter.Interleaving
import SettlementRouter.Deployment
import SettlementRouter.Solvency
import SettlementRouter.BatchQueue
import SettlementRouter.Escrow
import SettlementRouter.EscrowHistory
import SettlementRouter.PostedJournals
import SettlementRouter.Migration
import SettlementRouter.Lifespan
