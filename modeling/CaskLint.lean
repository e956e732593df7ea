import CaskLint.Source.Lines
import CaskLint.Tree.Builders
import CaskLint.Detector
import CaskLint.Document.FromText
import CaskLint.Document.ToJson
import CaskLint.Main
import CaskLint.Proofs.Detection.Exactness
import CaskLint.Proofs.Detection.Selection
import CaskLint.Proofs.Detection.Loops
import CaskLint.Proofs.Document.RoundTrip
import CaskLint.Proofs.Document.Loaded
import CaskLint.Proofs.Detection.Grouping
import CaskLint.Proofs.Command.Outcome
import CaskLint.Proofs.Settings.RoundTrip
import CaskLint.Proofs.Record.Order
import CaskLint.Proofs.Json.Limits
import CaskLint.Proofs.Document.Rearranged
import CaskLint.Proofs.Detection.Pairwise
import CaskLint.Proofs.Text.Lines
import CaskLint.Proofs.Source.Positions
import CaskLint.Proofs.Report.Objects
import CaskLint.Proofs.Report.Entries
import CaskLint.Proofs.Detection.Payload
import CaskLint.Proofs.Command.PrintedSettings
import CaskLint.Proofs.Source.Locations
import CaskLint.Proofs.Check.Lists
import CaskLint.Proofs.Document.Openings
import CaskLint.Proofs.Document.Truncated
import CaskLint.Proofs.Document.Duplicates
import CaskLint.Proofs.Json.Surroundings
import CaskLint.Proofs.Document.Modes
import CaskLint.Proofs.Document.Nodes
import CaskLint.Proofs.Document.Anywhere
