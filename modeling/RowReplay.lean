import RowReplay.Cache.Basic
import RowReplay.Cache.Entry
import RowReplay.Cache.Error
import RowReplay.Cache.Event
import RowReplay.Cache.Freshness
import RowReplay.Cache.Key
import RowReplay.Cache.Table
import RowReplay.Command.Arguments
import RowReplay.Command.Run
import RowReplay.Config.Basic
import RowReplay.Config.Environment
import RowReplay.Config.Extraction
import RowReplay.Config.Layers
import RowReplay.Config.Printer
import RowReplay.Config.Reader
import RowReplay.Config.Setting
import RowReplay.Config.Validation
import RowReplay.Demo.Basic
import RowReplay.Demo.Exchange
import RowReplay.Demo.Report
import RowReplay.Demo.Rows
import RowReplay.Json.Basic
import RowReplay.Json.Decoding
import RowReplay.Json.Parser
import RowReplay.Json.Printer
import RowReplay.Log.File
import RowReplay.Log.Level
import RowReplay.Log.Line
import RowReplay.Main
import RowReplay.Number.Binary64
import RowReplay.Number.Decimal
import RowReplay.Pipeline.Basic
import RowReplay.Pipeline.Branch
import RowReplay.Pipeline.Emission
import RowReplay.Pipeline.HandOff
import RowReplay.Pipeline.Listener
import RowReplay.Replay.Delivery
import RowReplay.Replay.Outcome
import RowReplay.Replay.Session
import RowReplay.Replay.SessionId
import RowReplay.Row.Basic
import RowReplay.Row.Schema
import RowReplay.Row.Value
import RowReplay.Simulation.Agenda
import RowReplay.Simulation.Loads
import RowReplay.Simulation.Puts
import RowReplay.Simulation.Scenario
import RowReplay.Simulation.Submission
import RowReplay.Simulation.Tasks
import RowReplay.Simulation.Waiters
import RowReplay.Simulation.World
import RowReplay.Text.CaseClass
import RowReplay.Text.Lowercase
import RowReplay.Text.Quoted
import RowReplay.Text.Unprintable
import RowReplay.Time.Span
import RowReplay.Time.Timestamp
import RowReplay.Yaml.BlockScalar
import RowReplay.Yaml.Cursor
import RowReplay.Yaml.LineScalar
import RowReplay.Yaml.Node
import RowReplay.Yaml.Plain
import RowReplay.Yaml.Printer
import RowReplay.Yaml.Reader
import RowReplay.Proofs.Run
import RowReplay.Proofs.Cache.Execution
import RowReplay.Proofs.Cache.Chain
import RowReplay.Proofs.Cache.History
import RowReplay.Proofs.Cache.SingleFlight
import RowReplay.Proofs.Cache.Entries
import RowReplay.Proofs.Cache.Callers
import RowReplay.Proofs.Cache.Staleness
import RowReplay.Proofs.Cache.Sharing
import RowReplay.Proofs.Cache.Availability
import RowReplay.Proofs.Cache.Slots
import RowReplay.Proofs.Cache.Succession
import RowReplay.Proofs.Cache.Reloading
import RowReplay.Proofs.Cache.Restriction
import RowReplay.Proofs.Cache.Independence
import RowReplay.Proofs.Replay.Course
import RowReplay.Proofs.Replay.Closing
import RowReplay.Proofs.Replay.Dialogue
import RowReplay.Proofs.Replay.Feed
import RowReplay.Proofs.Replay.Stopping
import RowReplay.Proofs.Simulation.Quiet
import RowReplay.Proofs.Simulation.Loads
import RowReplay.Proofs.Simulation.Runs
import RowReplay.Proofs.Simulation.Inlets
import RowReplay.Proofs.Simulation.Usage
import RowReplay.Proofs.Simulation.Feeding
import RowReplay.Proofs.Simulation.Producing
import RowReplay.Proofs.Pipeline.HandOff
import RowReplay.Proofs.Replay.Consumer
import RowReplay.Proofs.Replay.ClosedInput
import RowReplay.Proofs.Replay.Retries
import RowReplay.Proofs.Pipeline.Lifecycle
import RowReplay.Proofs.Pipeline.Replacement
import RowReplay.Proofs.Pipeline.Registrations
import RowReplay.Proofs.Replay.Timed
import RowReplay.Proofs.Replay.Readiness
import RowReplay.Proofs.Replay.Draining
import RowReplay.Proofs.Cache.FirstLoad
import RowReplay.Proofs.Cache.Statistics
import RowReplay.Proofs.Service.Calls
import RowReplay.Proofs.Service.FirstCalls
import RowReplay.Proofs.Pipeline.Production
import RowReplay.Proofs.Pipeline.NativeRows
import RowReplay.Proofs.Replay.Substitution
import RowReplay.Proofs.Number.Rounding
import RowReplay.Proofs.Number.Decimals
import RowReplay.Proofs.Cache.RefreshPoint
import RowReplay.Proofs.Config.Policy
import RowReplay.Proofs.Config.Overlay
import RowReplay.Proofs.Config.Fields
import RowReplay.Proofs.Config.Sources
import RowReplay.Proofs.Config.Precedence
import RowReplay.Proofs.Json.Numerals
import RowReplay.Proofs.Json.RoundTrip
import RowReplay.Proofs.Row.Values
import RowReplay.Proofs.Log.Levels
import RowReplay.Proofs.Row.Schemas
import RowReplay.Proofs.Demo.Exchange
import RowReplay.Proofs.Demo.Report
import RowReplay.Proofs.Yaml.LineScalars
import RowReplay.Proofs.Yaml.Scalars
import RowReplay.Proofs.Yaml.Documents
import RowReplay.Proofs.Yaml.Numbers
import RowReplay.Proofs.Config.Printing
import RowReplay.Proofs.Config.Saving
