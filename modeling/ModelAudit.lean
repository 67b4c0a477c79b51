import ModelAudit.Activity.Basic
import ModelAudit.Activity.Perform
import ModelAudit.Cancel
import ModelAudit.Channel
import ModelAudit.Check.Basic
import ModelAudit.Check.Catalog
import ModelAudit.Check.DeadEnds
import ModelAudit.Check.Reachability
import ModelAudit.Check.ReceivedSends
import ModelAudit.Check.Staged
import ModelAudit.CommandLine.Answer
import ModelAudit.CommandLine.Argument
import ModelAudit.CommandLine.Command
import ModelAudit.CommandLine.Failure
import ModelAudit.CommandLine.Files
import ModelAudit.CommandLine.Options
import ModelAudit.CommandLine.Perform
import ModelAudit.Config
import ModelAudit.Decimal.Binary64
import ModelAudit.Decimal.Shortest
import ModelAudit.Digest.Sha256
import ModelAudit.Document.Basic
import ModelAudit.Document.Format
import ModelAudit.Document.Sync
import ModelAudit.Error
import ModelAudit.Json.Fault
import ModelAudit.Json.Layout
import ModelAudit.Json.Printer
import ModelAudit.Json.Reader.Basic
import ModelAudit.Json.Reader.Number
import ModelAudit.Json.Reader.Text
import ModelAudit.Json.Reader.Value
import ModelAudit.Json.Skip
import ModelAudit.Json.Value
import ModelAudit.LogEvent
import ModelAudit.Main
import ModelAudit.Orchestrator.Event
import ModelAudit.Orchestrator.History
import ModelAudit.Orchestrator.Join
import ModelAudit.Orchestrator.Publish
import ModelAudit.Orchestrator.Shared
import ModelAudit.Orchestrator.Start
import ModelAudit.Orchestrator.State
import ModelAudit.Orchestrator.Work
import ModelAudit.Problem
import ModelAudit.Proofs.Activity.Cancellation
import ModelAudit.Proofs.Activity.Conclusion
import ModelAudit.Proofs.Check.Cancellation
import ModelAudit.Proofs.Check.DeadEnds
import ModelAudit.Proofs.Check.Reachability
import ModelAudit.Proofs.Check.ReceivedSends
import ModelAudit.Proofs.Check.Verdicts
import ModelAudit.Proofs.CommandLine.Traces
import ModelAudit.Proofs.Decimal.Rounding
import ModelAudit.Proofs.Decimal.Shortest
import ModelAudit.Proofs.Document.RoundTrip
import ModelAudit.Proofs.Json.Faults
import ModelAudit.Proofs.Json.Layouts
import ModelAudit.Proofs.Json.Members
import ModelAudit.Proofs.Json.Numbers
import ModelAudit.Proofs.Json.Reads
import ModelAudit.Proofs.Json.Texts
import ModelAudit.Proofs.Json.Values
import ModelAudit.Proofs.Json.Zeros
import ModelAudit.Proofs.Orchestrator.Capacity
import ModelAudit.Proofs.Orchestrator.Chronicle
import ModelAudit.Proofs.Orchestrator.Containment
import ModelAudit.Proofs.Orchestrator.Desk
import ModelAudit.Proofs.Orchestrator.EventBlocks
import ModelAudit.Proofs.Orchestrator.Flights
import ModelAudit.Proofs.Orchestrator.Interrupts
import ModelAudit.Proofs.Orchestrator.Joining
import ModelAudit.Proofs.Orchestrator.Lifecycle
import ModelAudit.Proofs.Orchestrator.Origins
import ModelAudit.Proofs.Orchestrator.ProblemEntries
import ModelAudit.Proofs.Orchestrator.Publication
import ModelAudit.Proofs.Orchestrator.Reruns
import ModelAudit.Proofs.Orchestrator.Silence
import ModelAudit.Proofs.Orchestrator.SingleFlight
import ModelAudit.Proofs.Orchestrator.TokenLifetime
import ModelAudit.Proofs.Orchestrator.Turns
import ModelAudit.Proofs.Orchestrator.Undisturbed
import ModelAudit.Proofs.Orchestrator.Verdicts
import ModelAudit.Proofs.Registry.Journal
import ModelAudit.Proofs.Registry.Ledger
import ModelAudit.Proofs.Registry.OneShot
import ModelAudit.Proofs.Registry.TokenTexts
import ModelAudit.Proofs.Report.LineBreaks
import ModelAudit.Proofs.Report.Lines
import ModelAudit.Proofs.Runner.Cancellation
import ModelAudit.Proofs.Runner.ChannelNames
import ModelAudit.Proofs.Runner.Checkers
import ModelAudit.Proofs.Runner.Choice
import ModelAudit.Proofs.Runner.Isolation
import ModelAudit.Proofs.Runner.Registrations
import ModelAudit.Proofs.Runner.Traces
import ModelAudit.Proofs.Search.Closure
import ModelAudit.Proofs.Search.Departures
import ModelAudit.Proofs.Search.ShortestPaths
import ModelAudit.Proofs.Search.WaysBack
import ModelAudit.Proofs.Session.Announcements
import ModelAudit.Proofs.Session.Interruptions
import ModelAudit.Proofs.Session.Operations
import ModelAudit.Proofs.Session.Provenance
import ModelAudit.Proofs.Session.Waiting
import ModelAudit.Proofs.Spec.Digest
import ModelAudit.Proofs.Spec.Format
import ModelAudit.Proofs.Spec.Merge
import ModelAudit.Proofs.Spec.RoundTrip
import ModelAudit.Record
import ModelAudit.Registry.Action
import ModelAudit.Registry.Basic
import ModelAudit.Registry.Invoke
import ModelAudit.Report.Completion
import ModelAudit.Report.Instant
import ModelAudit.Report.Listing
import ModelAudit.Runner.Basic
import ModelAudit.Runner.Staged
import ModelAudit.Search
import ModelAudit.Session.Await
import ModelAudit.Session.Basic
import ModelAudit.Session.History
import ModelAudit.Session.Interrupt
import ModelAudit.Session.Operation
import ModelAudit.Session.Provider
import ModelAudit.Spec.Basic
import ModelAudit.Spec.Canonical
import ModelAudit.Text.Blank
import ModelAudit.Text.Numeral
import ModelAudit.Text.Quoted
import ModelAudit.Text.Unprintable
import ModelAudit.Token
import ModelAudit.Trace
