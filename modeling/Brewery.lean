import Brewery.Disk.Change
import Brewery.Import.Prelude
import Brewery.Script.Expansion
import Brewery.Source.Artifact
import Brewery.Source.Classifier
import Brewery.Command.Outcome
import Brewery.Command.Run
import Brewery.Decimal.Binary64
import Brewery.Decimal.Shortest
import Brewery.Import.Registry
import Brewery.Json5.Key
import Brewery.Json5.Reader
import Brewery.Session.Artifacts
import Brewery.Session.Basic
import Brewery.Session.Chain
import Brewery.Session.Event
import Brewery.Session.Execution
import Brewery.Settings.Basic
import Brewery.Settings.Printer
import Brewery.Settings.Reader
import Brewery.Settings.Verbosity
import Brewery.Terminal.Perform
import Brewery.Tree.Burst
import Brewery.Tree.Notice
import Brewery.Proofs.Script.BlockString
import Brewery.Proofs.Script.Cycle
import Brewery.Proofs.Script.Grammar
import Brewery.Proofs.Script.Literal
import Brewery.Proofs.Script.Numbering
import Brewery.Proofs.Script.Offence
import Brewery.Proofs.Script.Rereading
import Brewery.Proofs.Script.Retaining
import Brewery.Proofs.Script.Seam
import Brewery.Proofs.Script.Stripping
import Brewery.Proofs.Script.Truncation
import Brewery.Proofs.Session.Rename
import Brewery.Proofs.Session.Independence
import Brewery.Proofs.Session.Reporting
import Brewery.Proofs.Session.Starting
import Brewery.Proofs.Session.Stepwise
import Brewery.Proofs.Session.Suppression
import Brewery.Proofs.Source.Export
import Brewery.Proofs.Source.Visible
import Brewery.Proofs.Tree.Burst
import Brewery.Proofs.Tree.Incremental
import Brewery.Proofs.Tree.Once
import Brewery.Proofs.Tree.Pruning
import Brewery.Proofs.Coffee.Chunk
import Brewery.Proofs.Coffee.Content
import Brewery.Proofs.Coffee.Parameters
import Brewery.Proofs.Coffee.Property
import Brewery.Proofs.Coffee.Walk
import Brewery.Proofs.Import.Closure
import Brewery.Proofs.Terminal.Atomic
import Brewery.Proofs.Terminal.Showing
import Brewery.Proofs.Watch.Echo
import Brewery.Proofs.Watch.Settling
