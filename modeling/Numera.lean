import Numera.Foundation.Async
import Numera.Foundation.Table
import Numera.Foundation.Journal
import Numera.Foundation.Text
import Numera.Foundation.Json
import Numera.Admin.MetadataHash
import Numera.Chain.Log
import Numera.Chain.Database
import Numera.Chain.EventProcessor
import Numera.Chain.Ledger
import Numera.Chain.Refinement
import Numera.Chain.CashConservation
import Numera.Chain.PotConservation
import Numera.Chain.Indexer
import Numera.Chain.Replay
import Numera.Chain.Rescan
import Numera.Chain.CommittedCopy
import Numera.Chain.IndexerRuns
import Numera.Pool.Indexer
import Numera.Pool.LeafMirror
import Numera.Auth.Store
import Numera.Foundation.Interleaving
import Numera.Auth.Service
import Numera.Auth.Rotation
import Numera.Pool.Synced
import Numera.Chain.ShareConservation
import Numera.Chain.Register
import Numera.Chain.Registration
import Numera.Chain.Resolutions
import Numera.Chain.SettledRow
import Numera.Api.Views
import Numera.Chain.Winnings
import Numera.Api.StoredValues
import Numera.Relay.Wire
import Numera.Relay.Calls
import Numera.Relay.Service
import Numera.Relay.Footprint
import Numera.Relay.Destinations
import Numera.Relay.Refusals
import Numera.Foundation.Mempool
import Numera.Relay.Withdrawals
import Numera.Foundation.Histories
import Numera.Relay.Allowance
import Numera.Relay.DailyCap
import Numera.Chain.BatchAdmission
import Numera.Chain.CostBasis
import Numera.Chain.ShortBundle
import Numera.Relay.AssociationRoots
import Numera.Unlink.Identity
import Numera.Unlink.Permanence
import Numera.Relay.Settlement
import Numera.Relay.SettlementBackoff
import Numera.Relay.SettlementPass
import Numera.Relay.FailureClasses
import Numera.Relay.RateWindow
import Numera.Relay.Separation
import Numera.Relay.Answered
import Numera.Auth.Nonces
import Numera.Auth.SessionStages
import Numera.Auth.SessionFamily
import Numera.Relay.Boot
import Numera.Relay.Sending
import Numera.Relay.SpendCounter
import Numera.Admin.Operations
import Numera.Api.Candles
import Numera.Auth.Expiry
import Numera.Admin.Access
import Numera.Foundation.Promises
import Numera.Relay.PromiseQueue
import Numera.Relay.BalanceReads
import Numera.Redis.Subscriptions
import Numera.Chain.Mirror
import Numera.Chain.CatchUp
import Numera.Realtime.Channels
import Numera.Realtime.Gateway
import Numera.Pool.State
import Numera.Foundation.Polling
import Numera.Runtime.Loops
import Numera.Chain.Announcements
import Numera.Foundation.Exchanges
import Numera.Redis.Cache
import Numera.Markets.Views
import Numera.Markets.Cache
import Numera.Admin.Drafts
import Numera.Api.CandleSeries
import Numera.Foundation.Budget
import Numera.Relay.SingleSend
import Numera.Foundation.Doubles
