import VerdantBackend.Lib.Prog
import VerdantBackend.Lib.Table
import VerdantBackend.Lib.Log
import VerdantBackend.Lib.Replay
import VerdantBackend.Lib.RowChange
import VerdantBackend.Lib.TwoRuns
import VerdantBackend.Lib.Guarantee
import VerdantBackend.Lib.Register
import VerdantBackend.Ids
import VerdantBackend.Config
import VerdantBackend.Json
import VerdantBackend.Indexer.Model
import VerdantBackend.Schema
import VerdantBackend.Indexer.Projections
import VerdantBackend.Indexer.Rows
import VerdantBackend.Indexer.Chain
import VerdantBackend.Indexer.Service
import VerdantBackend.Indexer.IngestTerms
import VerdantBackend.Indexer.Ingest
import VerdantBackend.Indexer.Run
import VerdantBackend.Indexer.RawStore
import VerdantBackend.Indexer.Finality
import VerdantBackend.Indexer.Rounds
import VerdantBackend.Indexer.Acceptance
import VerdantBackend.Indexer.Passes
import VerdantBackend.Indexer.Reach
import VerdantBackend.Indexer.EarlyReturn
import VerdantBackend.Indexer.Poison
import VerdantBackend.Indexer.History
import VerdantBackend.Indexer.ProjectionReplay
import VerdantBackend.Indexer.EscrowReplay
import VerdantBackend.Indexer.Isolation
import VerdantBackend.Indexer.Reorg
import VerdantBackend.Indexer.Forks
import VerdantBackend.Indexer.Concurrent
import VerdantBackend.Indexer.FinalOnly
import VerdantBackend.Auth.Model
import VerdantBackend.Auth.Service
import VerdantBackend.Auth.SingleUse
import VerdantBackend.Farmers.Model
import VerdantBackend.Farmers.Service
import VerdantBackend.Farmers.Outcomes
import VerdantBackend.Farmers.Profile
import VerdantBackend.Farmers.AllOrNothing
import VerdantBackend.Auth.Authenticity
import VerdantBackend.Auth.FailedVerify
import VerdantBackend.Indexer.Identity
import VerdantBackend.Indexer.IdentityReplay
import VerdantBackend.Indexer.Overlap
import VerdantBackend.Indexer.Reads
import VerdantBackend.Auth.Extractor
import VerdantBackend.Farmers.Ledger
import VerdantBackend.Farmers.Ownership
import VerdantBackend.Farmers.Readable
import VerdantBackend.Indexer.EscrowStatus
import VerdantBackend.Indexer.FinancingColumns
import VerdantBackend.Indexer.Registration
import VerdantBackend.Indexer.PayloadFields
import VerdantBackend.Indexer.Rpc
import VerdantBackend.Indexer.RpcOrder
import VerdantBackend.Indexer.RpcValues
import VerdantBackend.Indexer.RpcFidelity
import VerdantBackend.Indexer.WirePayloads
import VerdantBackend.Indexer.RpcPaging
import VerdantBackend.Indexer.Projected
import VerdantBackend.Indexer.RpcIndexer
import VerdantBackend.Indexer.StubSource
import VerdantBackend.Routes.Projections
import VerdantBackend.Routes.ProjectionPages
import VerdantBackend.Routes.CounterIds
import VerdantBackend.Routes.PageArithmetic
import VerdantBackend.Farmers.SearchPages
import VerdantBackend.Farmers.SearchText
import VerdantBackend.Farmers.CanonicalBytes
import VerdantBackend.Auth.SignedText
import VerdantBackend.Routes.Served
import VerdantBackend.Routes.FromChain
import VerdantBackend.Farmers.Directory
import VerdantBackend.Auth.Lifetime
import VerdantBackend.Auth.Provenance
import VerdantBackend.Farmers.Races
import VerdantBackend.Server
