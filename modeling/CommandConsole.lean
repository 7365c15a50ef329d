import CommandConsole.Declaration.Reading
import CommandConsole.Samples.Arena
import CommandConsole.Samples.Script
import CommandConsole.Main
import CommandConsole.Proofs.Command.Words
import CommandConsole.Proofs.Text.Lowercase
import CommandConsole.Proofs.Command.Grammar
import CommandConsole.Proofs.Session.Preparation
import CommandConsole.Proofs.Session.TypeSafety
import CommandConsole.Proofs.Session.Refusal
import CommandConsole.Proofs.Session.Aggregation
import CommandConsole.Proofs.Text.Utf8
import CommandConsole.Proofs.Line.HistoryFile
import CommandConsole.Proofs.Line.Capacity
import CommandConsole.Proofs.Text.Order
import CommandConsole.Proofs.Text.Fitting
import CommandConsole.Proofs.Text.Case
import CommandConsole.Proofs.Catalog.Contents
import CommandConsole.Proofs.Catalog.View
import CommandConsole.Proofs.Session.Naming
import CommandConsole.Proofs.Host.Frame
import CommandConsole.Proofs.Host.Lending
import CommandConsole.Proofs.Session.Effect
import CommandConsole.Proofs.Session.Locality
import CommandConsole.Proofs.Session.Snapshot
import CommandConsole.Proofs.Session.Containment
import CommandConsole.Proofs.Shell.Turns
import CommandConsole.Proofs.Terminal.KeyStream
import CommandConsole.Proofs.Shell.Typing
import CommandConsole.Proofs.Shell.Lines
import CommandConsole.Proofs.Line.Completing
import CommandConsole.Proofs.Line.Replacing
import CommandConsole.Proofs.Line.Sides
import CommandConsole.Proofs.Line.Tail
import CommandConsole.Proofs.Session.Offering
import CommandConsole.Proofs.Session.Hinting
import CommandConsole.Proofs.Line.Loading
import CommandConsole.Proofs.Line.Appending
import CommandConsole.Proofs.Line.Navigation
import CommandConsole.Proofs.Line.Cycling
import CommandConsole.Proofs.Line.Growing
import CommandConsole.Proofs.Terminal.Sequences
import CommandConsole.Proofs.Value.Integers
import CommandConsole.Proofs.Value.Singles
import CommandConsole.Proofs.Line.Marking
import CommandConsole.Proofs.Shell.Afresh
import CommandConsole.Proofs.Terminal.Recovery
import CommandConsole.Proofs.Session.Cutting
import CommandConsole.Proofs.Line.Refusing
import CommandConsole.Proofs.Value.Converting
import CommandConsole.Proofs.Session.Readback
import CommandConsole.Proofs.Session.Literals
import CommandConsole.Proofs.Declaration.Options
import CommandConsole.Proofs.Declaration.Signatures
import CommandConsole.Proofs.Declaration.Members
import CommandConsole.Proofs.Session.Casing
import CommandConsole.Proofs.Session.Splitting
import CommandConsole.Proofs.Host.Storage
