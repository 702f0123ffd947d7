import BrainstormServer.Conc.Prog
import BrainstormServer.Conc.TxTable
import BrainstormServer.Postgres
import BrainstormServer.Billing.Decision
import BrainstormServer.Billing.Store
import BrainstormServer.Billing.Service
import BrainstormServer.Billing.Frame
import BrainstormServer.Billing.Alone
import BrainstormServer.Billing.Standing
import BrainstormServer.Billing.Release
import BrainstormServer.Billing.Fallback
import BrainstormServer.Conc.Log
import BrainstormServer.Billing.Interleaving
import BrainstormServer.Billing.History
import BrainstormServer.Billing.Converge
import BrainstormServer.Billing.Sweep
import BrainstormServer.Billing.Reconcile
import BrainstormServer.Conc.Crash
import BrainstormServer.Nsec.KeyFile
import BrainstormServer.Nsec.Rotation
import BrainstormServer.Nsec.AbortSafety
import BrainstormServer.Publish.Plan
import BrainstormServer.Publish.Upload
import BrainstormServer.Publish.Orphans
import BrainstormServer.Publish.Gap
import BrainstormServer.Billing.Authority
import BrainstormServer.Billing.Commands
import BrainstormServer.Billing.Claims
import BrainstormServer.Billing.Batch
import BrainstormServer.Billing.Waiting
import BrainstormServer.Billing.Candidates
import BrainstormServer.Billing.Holders
import BrainstormServer.Billing.Receive
import BrainstormServer.Pricing.Plans
import BrainstormServer.Python
import BrainstormServer.Pricing.Page
import BrainstormServer.Conc.Machine
import BrainstormServer.Queue.System
import BrainstormServer.Queue.Window
import BrainstormServer.Queue.Reliable
import BrainstormServer.Queue.Pipeline
import BrainstormServer.Conc.Places
import BrainstormServer.Relay.Delivery
import BrainstormServer.Relay.Publisher
import BrainstormServer.Scores.Write
import BrainstormServer.Conc.Rely
import BrainstormServer.Nsec.Creation
import BrainstormServer.Graph.Handlers
import BrainstormServer.Graph.Lists
import BrainstormServer.Graph.Reports
import BrainstormServer.Conc.Latest
import BrainstormServer.Tagging.Parse
import BrainstormServer.Tagging.Store
import BrainstormServer.Tagging.Order
import BrainstormServer.Tagging.Stance
import BrainstormServer.TrustedList.Build
import BrainstormServer.TrustedList.Retraction
import BrainstormServer.Conc.Paging
import BrainstormServer.Transfer.Loop
import BrainstormServer.Transfer.Sync
import BrainstormServer.SelfMap.Keys
import BrainstormServer.SelfMap.Check
import BrainstormServer.SelfMap.Specific
import BrainstormServer.SelfMap.ShouldSay
import BrainstormServer.Conc.Expiring
import BrainstormServer.Scheduling.Leader
import BrainstormServer.Billing.Choose
import BrainstormServer.Billing.Dedupe
import BrainstormServer.Vault.Webauthn
import BrainstormServer.Vault.Service
import BrainstormServer.Vault.Owner
import BrainstormServer.Vault.Replay
import BrainstormServer.Support.System
import BrainstormServer.Support.Cap
import BrainstormServer.Support.Poll
import BrainstormServer.Scheduling.Default
import BrainstormServer.Graph.Backfill
import BrainstormServer.Billing.Abandon
import BrainstormServer.Billing.Fetch
import BrainstormServer.Billing.Unread
import BrainstormServer.Queue.Envelope
import BrainstormServer.Billing.Unattributed
import BrainstormServer.SelfMap.Covers
import BrainstormServer.SelfMap.Greedy
import BrainstormServer.SelfMap.Probes
import BrainstormServer.Billing.Backlog
import BrainstormServer.SelfMap.Entries
import BrainstormServer.SelfMap.Lines
import BrainstormServer.Conc.Tables
import BrainstormServer.TrustedList.Monotone
import BrainstormServer.Graph.Canonical
import BrainstormServer.Conc.Bisect
import BrainstormServer.Publish.Audit
import BrainstormServer.Network.Alerts
import BrainstormServer.Conc.Cypher
import BrainstormServer.Network.Tiers
import BrainstormServer.Conc.Keyset
import BrainstormServer.Network.Connections
import BrainstormServer.Network.Paging
import BrainstormServer.Conc.Shares
import BrainstormServer.Scheduling.Admission
import BrainstormServer.Scheduling.Cycle
import BrainstormServer.Limits.Quota
import BrainstormServer.Conc.Counter
import BrainstormServer.Limits.RateLimit
import BrainstormServer.SelfMap.Total
import BrainstormServer.Auth.Sessions
import BrainstormServer.Conc.Unique
import BrainstormServer.Limits.Window
import BrainstormServer.Links.Codes
import BrainstormServer.Links.Create
import BrainstormServer.Conc.Layered
import BrainstormServer.Network.Paths
import BrainstormServer.Graph.Rebuild
import BrainstormServer.SelfMap.Upkeep
import BrainstormServer.Conc.Newest
import BrainstormServer.SelfMap.Press
import BrainstormServer.Scheduling.Requests
import BrainstormServer.Auth.Login
import BrainstormServer.Graph.Onboarding
