import JsonTree.CommandLine.Run
import JsonTree.Engine
import JsonTree.History
import JsonTree.Main
import JsonTree.Number.Shortest
import JsonTree.Path.Printer
import JsonTree.Proofs.CommandLine.AllOrNothing
import JsonTree.Proofs.CommandLine.Commands
import JsonTree.Proofs.CommandLine.PatchedTexts
import JsonTree.Proofs.CommandLine.Surfaces
import JsonTree.Proofs.Number.Nearest
import JsonTree.Proofs.Patch.Congruence
import JsonTree.Proofs.Patch.Displacement
import JsonTree.Proofs.Patch.Effect
import JsonTree.Proofs.Patch.Overwriting
import JsonTree.Proofs.Patch.Records
import JsonTree.Proofs.Path.Addresses
import JsonTree.Proofs.Path.PoolRuns
import JsonTree.Proofs.Path.Reprinting
import JsonTree.Proofs.Path.Traversal
import JsonTree.Proofs.Value.Foreign
import JsonTree.Proofs.Value.OneLine
import JsonTree.Proofs.Value.Positions
import JsonTree.Proofs.Value.Rearrangement
import JsonTree.Proofs.Value.RoundTrip
import JsonTree.Proofs.Value.Sharing
import JsonTree.Proofs.Number.Saturation
import JsonTree.Proofs.Number.Integers
import JsonTree.Proofs.Patch.Conservation
import JsonTree.Proofs.Path.Nodes
import JsonTree.Proofs.Number.LeadingDigit
import JsonTree.Proofs.Number.Normalization
import JsonTree.Proofs.Path.Comparators
import JsonTree.Proofs.Path.Indices
import JsonTree.Proofs.Pointer.Faults
import JsonTree.Proofs.Value.Building
import JsonTree.Number.Recognizer
import JsonTree.Proofs.Number.Recognition
import JsonTree.Proofs.Number.Expression
import JsonTree.Proofs.Value.NumberTexts
import JsonTree.Path.Scanner
import JsonTree.Proofs.Path.Scanning
import JsonTree.Proofs.Path.Faults
