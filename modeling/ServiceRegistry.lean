import ServiceRegistry.Announcing.Publisher
import ServiceRegistry.Announcing.Roster
import ServiceRegistry.Catalog
import ServiceRegistry.Client
import ServiceRegistry.Client.Endpoint
import ServiceRegistry.Client.Settings
import ServiceRegistry.Daemon
import ServiceRegistry.Daemon.Config
import ServiceRegistry.Decimal
import ServiceRegistry.Deployment
import ServiceRegistry.Deployment.Host
import ServiceRegistry.Deployment.Journal
import ServiceRegistry.Deployment.Operation
import ServiceRegistry.Deployment.Turns
import ServiceRegistry.Dict
import ServiceRegistry.Directory.Follower
import ServiceRegistry.InstanceId
import ServiceRegistry.InstanceId.Source
import ServiceRegistry.Jobs.Board
import ServiceRegistry.Jobs.PathBuild
import ServiceRegistry.Jobs.Runner
import ServiceRegistry.Json.Quote
import ServiceRegistry.Json.Read
import ServiceRegistry.Main
import ServiceRegistry.Pool
import ServiceRegistry.Proofs.Announcing.Admission
import ServiceRegistry.Proofs.Announcing.Calls
import ServiceRegistry.Proofs.Announcing.Changes
import ServiceRegistry.Proofs.Announcing.Convergence
import ServiceRegistry.Proofs.Announcing.ForeignNodes
import ServiceRegistry.Proofs.Announcing.Replacement
import ServiceRegistry.Proofs.Announcing.Rosters
import ServiceRegistry.Proofs.Announcing.Tenure
import ServiceRegistry.Proofs.Announcing.Visits
import ServiceRegistry.Proofs.Catalog.Drawing
import ServiceRegistry.Proofs.Catalog.Editions
import ServiceRegistry.Proofs.Catalog.Partition
import ServiceRegistry.Proofs.Catalog.Reuse
import ServiceRegistry.Proofs.Catalog.Serving
import ServiceRegistry.Proofs.Client.Agreement
import ServiceRegistry.Proofs.Client.Desk
import ServiceRegistry.Proofs.Client.Finding
import ServiceRegistry.Proofs.Client.Following
import ServiceRegistry.Proofs.Client.Pinning
import ServiceRegistry.Proofs.Client.Removals
import ServiceRegistry.Proofs.Client.Resolving
import ServiceRegistry.Proofs.Client.Silence
import ServiceRegistry.Proofs.Client.Visits
import ServiceRegistry.Proofs.Daemon.Startup
import ServiceRegistry.Proofs.Deployment.Advancing
import ServiceRegistry.Proofs.Deployment.Newcomers
import ServiceRegistry.Proofs.Deployment.Roots
import ServiceRegistry.Proofs.Directory.Quarantine
import ServiceRegistry.Proofs.Directory.Reading
import ServiceRegistry.Proofs.Directory.Republishing
import ServiceRegistry.Proofs.Directory.Tidy
import ServiceRegistry.Proofs.Jobs.Attempts
import ServiceRegistry.Proofs.Jobs.Chronicle
import ServiceRegistry.Proofs.Jobs.Errands
import ServiceRegistry.Proofs.Jobs.LifeCycle
import ServiceRegistry.Proofs.Jobs.PathBuilding
import ServiceRegistry.Proofs.Jobs.Queueing
import ServiceRegistry.Proofs.Jobs.Rebuilding
import ServiceRegistry.Proofs.Jobs.Tallies
import ServiceRegistry.Proofs.Jobs.Watching
import ServiceRegistry.Proofs.Json.Grammar
import ServiceRegistry.Proofs.Json.RoundTrip
import ServiceRegistry.Proofs.Json.Tokens
import ServiceRegistry.Proofs.Record.Changes
import ServiceRegistry.Proofs.Record.NodeNames
import ServiceRegistry.Proofs.Record.Payloads
import ServiceRegistry.Proofs.Record.RoundTrip
import ServiceRegistry.Proofs.Record.Values
import ServiceRegistry.Proofs.Ring.Order
import ServiceRegistry.Proofs.Ring.Points
import ServiceRegistry.Proofs.Ring.Removal
import ServiceRegistry.Proofs.Ring.Succession
import ServiceRegistry.Proofs.Script.Amid
import ServiceRegistry.Proofs.Script.Answers
import ServiceRegistry.Proofs.Script.Executions
import ServiceRegistry.Proofs.Script.Mirror
import ServiceRegistry.Proofs.Script.Steps
import ServiceRegistry.Proofs.Script.Timed
import ServiceRegistry.Proofs.Script.Turns
import ServiceRegistry.Proofs.ServiceUri.Grammar
import ServiceRegistry.Proofs.Store.Addresses
import ServiceRegistry.Proofs.Store.Calls
import ServiceRegistry.Proofs.Store.Chains
import ServiceRegistry.Proofs.Store.Exactness
import ServiceRegistry.Proofs.Store.Failures
import ServiceRegistry.Proofs.Store.Growth
import ServiceRegistry.Proofs.Store.Lifetimes
import ServiceRegistry.Proofs.Store.Orphans
import ServiceRegistry.Proofs.Store.Paths
import ServiceRegistry.Proofs.Store.Ready
import ServiceRegistry.Proofs.Store.Sessions
import ServiceRegistry.Proofs.Store.Watches
import ServiceRegistry.Proofs.Url.Authority
import ServiceRegistry.Proofs.Url.Hosts
import ServiceRegistry.Proofs.Worker.Deeds
import ServiceRegistry.Proofs.Worker.Gating
import ServiceRegistry.Proofs.Worker.Ownership
import ServiceRegistry.Proofs.Worker.Passes
import ServiceRegistry.Proofs.Worker.Readers
import ServiceRegistry.Proofs.Worker.Retries
import ServiceRegistry.Proofs.Worker.Runs
import ServiceRegistry.Proofs.Worker.Scans
import ServiceRegistry.Proofs.Worker.Tasks
import ServiceRegistry.Proofs.Worker.Watching
import ServiceRegistry.Record
import ServiceRegistry.Record.Codec
import ServiceRegistry.Rehearsal
import ServiceRegistry.Ring
import ServiceRegistry.Ring.Blake3
import ServiceRegistry.Script
import ServiceRegistry.ServiceUri
import ServiceRegistry.Store
import ServiceRegistry.Store.Error
import ServiceRegistry.Store.Path
import ServiceRegistry.Text.Blank
import ServiceRegistry.Text.Bytes
import ServiceRegistry.Text.Cut
import ServiceRegistry.Text.Punycode
import ServiceRegistry.Text.Quoted
import ServiceRegistry.Text.Unseen
import ServiceRegistry.Toml
import ServiceRegistry.Toml.Number
import ServiceRegistry.Toml.Read
import ServiceRegistry.Toml.Text
import ServiceRegistry.Toml.Value
import ServiceRegistry.Url
import ServiceRegistry.Url.Host
import ServiceRegistry.Url.Label
import ServiceRegistry.Url.Label.Alphabet
import ServiceRegistry.Url.Percent
import ServiceRegistry.Worker
import ServiceRegistry.Worker.Survey
