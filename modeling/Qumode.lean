import Qumode.Main
import Qumode.Proofs.Analysis.Blame
import Qumode.Proofs.Analysis.Consistency
import Qumode.Proofs.Analysis.Growth
import Qumode.Proofs.Analysis.Reordering
import Qumode.Proofs.Backend.Gaps
import Qumode.Proofs.Circuit.Documents
import Qumode.Proofs.Circuit.Extension
import Qumode.Proofs.Circuit.HybridWires
import Qumode.Proofs.Circuit.Normalization
import Qumode.Proofs.Circuit.Reordering
import Qumode.Proofs.Circuit.Representation
import Qumode.Proofs.Grouping.Growth
import Qumode.Proofs.Grouping.Service
import Qumode.Proofs.Program.Erasure
import Qumode.Proofs.Program.Independence
import Qumode.Proofs.Program.Landmarks
import Qumode.Proofs.Program.Relabelling
import Qumode.Proofs.Program.Reuse
import Qumode.Proofs.Program.Service
import Qumode.Proofs.Readout.Collection
import Qumode.Proofs.Typing.Runs
import Qumode.Proofs.Grouping.Order
import Qumode.Proofs.Grouping.Sharing
import Qumode.Proofs.Grouping.Contents
import Qumode.Proofs.CommandLine.Arguments
import Qumode.Proofs.CommandLine.Emission
import Qumode.Proofs.Grouping.Optimality
import Qumode.Proofs.Typing.Composition
import Qumode.Proofs.Typing.Doubling
import Qumode.Proofs.Analysis.ReadoutTypes
import Qumode.Proofs.Observable.Walk
import Qumode.Proofs.Readout.FirstTouch
import Qumode.Proofs.Program.Stubs
import Qumode.Proofs.Program.Registers
