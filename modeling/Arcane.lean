import Arcane.Lib.Evm
import Arcane.Lib.Run
import Arcane.Lib.Machine
import Arcane.Lib.Mapping
import Arcane.Lib.Text
import Arcane.Lib.TopK
import Arcane.Lib.Utf8
import Arcane.Lib.Json
import Arcane.Lib.JsonRoundTrip
import Arcane.Lib.Dict
import Arcane.Lib.JsonValue
import Arcane.Lib.JsonText
import Arcane.Lib.Merkle
import Arcane.Lib.Sha256
import Arcane.Lib.Base64
import Arcane.Lib.Python
import Arcane.Lib.Token
import Arcane.Lib.ProRata
import Arcane.Lib.Parimutuel
import Arcane.Colosseum.Defs
import Arcane.Colosseum.Effect
import Arcane.Colosseum.WellFormed
import Arcane.Colosseum.Frame
import Arcane.Colosseum.Book
import Arcane.Colosseum.Solvency
import Arcane.Colosseum.Payout
import Arcane.Colosseum.Liveness
import Arcane.Colosseum.Registration
import Arcane.Colosseum.Escrow
import Arcane.Colosseum.Bounties
import Arcane.Colosseum.Stranded
import Arcane.Colosseum.Phases
import Arcane.BondVault.Defs
import Arcane.BondVault.Effect
import Arcane.BondVault.Solvency
import Arcane.BondVault.Exits
import Arcane.PerformanceOracle.Defs
import Arcane.PerformanceOracle.Settlement
import Arcane.PerformanceOracle.Verdict
import Arcane.PerformanceOracle.Effect
import Arcane.PerformanceOracle.Backing
import Arcane.PerformanceOracle.Burn
import Arcane.X402.Types
import Arcane.X402.Gateway
import Arcane.X402.Signer
import Arcane.X402.BatchClient
import Arcane.X402.Effect
import Arcane.X402.Conservation
import Arcane.X402.Shutdown
import Arcane.X402.Header
import Arcane.Memory.Service
import Arcane.Memory.Archive
import Arcane.Memory.History
import Arcane.Memory.Live
import Arcane.Memory.Lookup
import Arcane.Memory.Query
import Arcane.Memory.PinnedRoot
import Arcane.Memory.PinnedSet
import Arcane.Memory.RoundTrip
import Arcane.Registry.Advice
import Arcane.Registry.AllOrNothing
import Arcane.Registry.Publish
import Arcane.DarkPool.NonceStore
import Arcane.DarkPool.Payment
import Arcane.DarkPool.RateLimiter
import Arcane.DarkPool.Server
import Arcane.DarkPool.TypedData
import Arcane.DarkPool.Signature
import Arcane.DarkPool.Stores
import Arcane.DarkPool.Effect
import Arcane.DarkPool.Client
import Arcane.DarkPool.Agreement
import Arcane.DarkPool.Replay
import Arcane.DarkPool.Burn
import Arcane.DarkPool.Pinned
import Arcane.Lib.Abi
import Arcane.Constitution.Registry
import Arcane.Constitution.Rules
import Arcane.Constitution.Validator
import Arcane.Constitution.Hook
import Arcane.Constitution.Executor
import Arcane.Constitution.Suite
import Arcane.Constitution.Agreement
import Arcane.Constitution.Coverage
import Arcane.Constitution.Content
import Arcane.Lib.Log
import Arcane.MemoryAnchor.Defs
import Arcane.MemoryAnchor.History
import Arcane.MemoryAnchor.LatestRoot
import Arcane.Constitution.Fallback
import Arcane.Constitution.Allowlist
import Arcane.Constitution.Forwarding
import Arcane.PerformanceOracle.Exact
import Arcane.Constitution.Outflow
import Arcane.Lib.Py
import Arcane.Arena.Injections
import Arcane.Arena.Runner
import Arcane.Arena.Arena
import Arcane.Colosseum.Counters
import Arcane.Colosseum.Shield
import Arcane.Arena.Frame
import Arcane.Arena.Polling
import Arcane.Arena.Delivery
import Arcane.Arena.Books
import Arcane.Lib.LittleEndian
import Arcane.Lib.Clock
import Arcane.Lib.Sql
import Arcane.Lib.TokenBucket
import Arcane.Memory.Exact
import Arcane.DarkPool.RateBound
import Arcane.DarkPool.RetryAfter
import Arcane.Memory.Decay
import Arcane.Constitution.Adapters
import Arcane.Constitution.DriftOrder
import Arcane.Constitution.Declined
import Arcane.Constitution.AdapterCaps
import Arcane.Lib.Windows
import Arcane.Web.LogScan
import Arcane.X402.Amounts
import Arcane.Lib.Decimal
import Arcane.Lib.FirstMatch
import Arcane.Constitution.Bob
import Arcane.Lib.Digits
import Arcane.Lib.Traverse
import Arcane.Constitution.Forecast
import Arcane.Lib.SortKey
import Arcane.Agents.Bob
import Arcane.Agents.Descent
import Arcane.Agents.Pins
import Arcane.Agents.Clone
import Arcane.Lib.Failure
import Arcane.Lib.NdArray
import Arcane.Memory.Loader
import Arcane.Memory.Admission
import Arcane.AgentRegistry.Defs
import Arcane.AgentRegistry.Directory
import Arcane.AgentRegistry.Feed
import Arcane.Lib.Keccak
import Arcane.Lib.Eip712
import Arcane.Lib.Doubles
import Arcane.Lib.Hex
import Arcane.AgentRegistry.Wire
import Arcane.Registry.OnChain
import Arcane.Lib.GroupBy
import Arcane.Web.Chain
import Arcane.Web.Standings
import Arcane.PerformanceOracle.Reputation
import Arcane.Registry.Reputation
import Arcane.Registry.Listing
import Arcane.Web.Reputation
import Arcane.Lib.Feed
import Arcane.Web.Stream
import Arcane.Web.LiveFeed
import Arcane.Web.Chaos
import Arcane.Web.Duel
import Arcane.Arena.Duelist
import Arcane.Arena.Recall
