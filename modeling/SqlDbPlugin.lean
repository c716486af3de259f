import SqlDbPlugin.Consumer.Capacity
import SqlDbPlugin.Consumer.Shutdown
import SqlDbPlugin.Database.Effects
import SqlDbPlugin.Mirror.ContractFilter
import SqlDbPlugin.Mirror.FailedTraces
import SqlDbPlugin.Mirror.Redelivery
import SqlDbPlugin.Mirror.Undecodable
import SqlDbPlugin.Lib.LastWrite
import SqlDbPlugin.Mirror.DerivedTables
import SqlDbPlugin.Mirror.AbiStore
import SqlDbPlugin.Consumer.Lifetime
import SqlDbPlugin.Consumer.Wakeups
import SqlDbPlugin.Database.Faults
import SqlDbPlugin.Mirror.FailedStatements
import SqlDbPlugin.Mirror.Payloads
import SqlDbPlugin.Mirror.HiddenTraces
import SqlDbPlugin.Api.Controller
import SqlDbPlugin.Api.Tokens
import SqlDbPlugin.Api.TokenLists
import SqlDbPlugin.Api.Proposals
import SqlDbPlugin.Api.ProposalLists
import SqlDbPlugin.Mirror.Startup
import SqlDbPlugin.Mirror.Resync
import SqlDbPlugin.Mirror.Recreated
import SqlDbPlugin.Api.KnownTokens
import SqlDbPlugin.Api.TokenPages
import SqlDbPlugin.Lib.Decimal
import SqlDbPlugin.Api.Amounts
import SqlDbPlugin.Lib.Quoted
import SqlDbPlugin.Api.ProposalSearch
import SqlDbPlugin.Api.BrokenProposals
import SqlDbPlugin.Mirror.Multisig
import SqlDbPlugin.Api.StillPending
import SqlDbPlugin.Mirror.BlockPath
import SqlDbPlugin.Api.TableWalk
import SqlDbPlugin.Lib.Leases
import SqlDbPlugin.Database.SessionPool
import SqlDbPlugin.Database.SessionLimits
import SqlDbPlugin.Lib.Temporal
import SqlDbPlugin.Lib.Refinement
import SqlDbPlugin.Consumer.Exclusion
import SqlDbPlugin.Consumer.Progress
import SqlDbPlugin.Consumer.Delivery
import SqlDbPlugin.System.Replica
import SqlDbPlugin.System.Node
import SqlDbPlugin.System.Reference
import SqlDbPlugin.System.Options
import SqlDbPlugin.System.Replay
import SqlDbPlugin.Lib.Listing
import SqlDbPlugin.System.Listings
import SqlDbPlugin.System.Sessions
import SqlDbPlugin.System.PendingProposals
import SqlDbPlugin.Api.Resources
import SqlDbPlugin.Mirror.WiderFilter
import SqlDbPlugin.Mirror.Changes
import SqlDbPlugin.Mirror.Omissions
