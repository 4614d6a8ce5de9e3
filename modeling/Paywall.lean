import Paywall.Assignment.Delivery
import Paywall.Assignment.Draw
import Paywall.Assignment.Record
import Paywall.Assignment.Session
import Paywall.Assignment.Store
import Paywall.Cache.Key
import Paywall.Cache.Session
import Paywall.Cache.SingleFlight
import Paywall.Campaign
import Paywall.Campaign.Codec
import Paywall.Campaign.Elapsed
import Paywall.Campaign.Experiment
import Paywall.Campaign.Occurrence
import Paywall.Campaign.Resource
import Paywall.CommandLine.Arguments
import Paywall.CommandLine.Decide
import Paywall.Decision.Context
import Paywall.Decision.Outcome
import Paywall.Decision.Preload
import Paywall.Decision.Present
import Paywall.Decision.Refresh
import Paywall.Decision.Request
import Paywall.Decision.Run
import Paywall.Error
import Paywall.Event
import Paywall.Expression
import Paywall.Expression.Clause
import Paywall.Expression.Connective
import Paywall.Expression.Scope
import Paywall.FilePath
import Paywall.Folder
import Paywall.Host
import Paywall.Json
import Paywall.Json.Decode
import Paywall.Json.Number
import Paywall.Json.Reader
import Paywall.Json.Token
import Paywall.Json.Writer
import Paywall.Main
import Paywall.Proofs.Assignment.Adoption
import Paywall.Proofs.Assignment.Choice
import Paywall.Proofs.Assignment.Coverage
import Paywall.Proofs.Assignment.Drawing
import Paywall.Proofs.Assignment.Durability
import Paywall.Proofs.Assignment.Exclusion
import Paywall.Proofs.Assignment.Failure
import Paywall.Proofs.Assignment.Likeness
import Paywall.Proofs.Assignment.Lookups
import Paywall.Proofs.Assignment.Record
import Paywall.Proofs.Assignment.Repetition
import Paywall.Proofs.Assignment.Reporting
import Paywall.Proofs.Assignment.Retention
import Paywall.Proofs.Assignment.Scan
import Paywall.Proofs.Assignment.Stickiness
import Paywall.Proofs.Assignment.Store
import Paywall.Proofs.Assignment.Triggers
import Paywall.Proofs.Assignment.Weighing
import Paywall.Proofs.Cache.Callers
import Paywall.Proofs.Cache.Contents
import Paywall.Proofs.Cache.Flights
import Paywall.Proofs.Cache.History
import Paywall.Proofs.Cache.Isolation
import Paywall.Proofs.Cache.Mirror
import Paywall.Proofs.Cache.Numbering
import Paywall.Proofs.Cache.Renumbering
import Paywall.Proofs.Cache.SingleFlight
import Paywall.Proofs.Cache.Soundness
import Paywall.Proofs.Campaign.Advance
import Paywall.Proofs.Campaign.Codec
import Paywall.Proofs.Campaign.Elapsed
import Paywall.Proofs.Campaign.Equality
import Paywall.Proofs.Campaign.Months
import Paywall.Proofs.Campaign.Outdated
import Paywall.Proofs.Campaign.Stale
import Paywall.Proofs.Campaign.Window
import Paywall.Proofs.Decision.Accounting
import Paywall.Proofs.Decision.Coherence
import Paywall.Proofs.Decision.Commitment
import Paywall.Proofs.Decision.Endings
import Paywall.Proofs.Decision.Forgetting
import Paywall.Proofs.Decision.Ledger
import Paywall.Proofs.Decision.Naming
import Paywall.Proofs.Decision.Precedence
import Paywall.Proofs.Decision.Preloading
import Paywall.Proofs.Decision.Provision
import Paywall.Proofs.Decision.Refreshing
import Paywall.Proofs.Decision.Request
import Paywall.Proofs.Decision.Speculation
import Paywall.Proofs.Decision.Stages
import Paywall.Proofs.Decision.Throttling
import Paywall.Proofs.Decision.Transparency
import Paywall.Proofs.Expression.Comparison
import Paywall.Proofs.Expression.Connective
import Paywall.Proofs.Expression.Enclosed
import Paywall.Proofs.Expression.Evaluation
import Paywall.Proofs.Expression.Faults
import Paywall.Proofs.Expression.Literal
import Paywall.Proofs.Expression.Number
import Paywall.Proofs.Expression.Scope
import Paywall.Proofs.Host
import Paywall.Proofs.Json.Decode
import Paywall.Proofs.Json.Quote
import Paywall.Proofs.Json.Reader
import Paywall.Proofs.Random.Range
import Paywall.Proofs.Rule.Counting
import Paywall.Proofs.Rule.Elapsed
import Paywall.Proofs.Rule.Exhaustion
import Paywall.Proofs.Rule.Matching
import Paywall.Proofs.Rule.Selection
import Paywall.Proofs.Rule.Survival
import Paywall.Proofs.Text.Base64
import Paywall.Proofs.Text.Blank
import Paywall.Proofs.Text.Numeral
import Paywall.Proofs.Text.Split
import Paywall.Proofs.Time.Calendar
import Paywall.Proofs.Time.Notation
import Paywall.Proofs.Value.Double
import Paywall.Proofs.Value.Nearest
import Paywall.Proofs.Value.Plain
import Paywall.Proofs.Value.Units
import Paywall.Proofs.Value.Wire
import Paywall.Random.Source
import Paywall.Random.Stream
import Paywall.Rule.History
import Paywall.Rule.Matching
import Paywall.Settings
import Paywall.Settings.Codec
import Paywall.Settings.Environment
import Paywall.Settings.Load
import Paywall.Settings.Path
import Paywall.Settings.Toml
import Paywall.Settings.Toml.DateTime
import Paywall.Settings.Toml.Draft
import Paywall.Settings.Toml.Scalar
import Paywall.Settings.Toml.Value
import Paywall.Settings.Tree
import Paywall.Table
import Paywall.Table.Lemmas
import Paywall.Text.Base64
import Paywall.Text.Blank
import Paywall.Text.LowerCase
import Paywall.Text.Numeral
import Paywall.Text.Shortest
import Paywall.Text.Split
import Paywall.Time.Date
import Paywall.Time.Instant
import Paywall.Time.Notation
import Paywall.Value
import Paywall.Value.Plain
import Paywall.Value.Wire
