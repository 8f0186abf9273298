import Unstack.Assembly
import Unstack.Bytes
import Unstack.CommandLine
import Unstack.CommandLine.Folder
import Unstack.CommandLine.Path
import Unstack.CommandLine.Station
import Unstack.CommandLine.Terminal
import Unstack.Decimal.Binary
import Unstack.Decimal.Shortest
import Unstack.Dump
import Unstack.Effect
import Unstack.Encoding.Decode
import Unstack.Encoding.Encode
import Unstack.Graph
import Unstack.Graph.Leaders
import Unstack.Instruction
import Unstack.Json
import Unstack.Json.Lexeme
import Unstack.Log
import Unstack.Lowered
import Unstack.Lowered.Call
import Unstack.Lowering
import Unstack.Lowering.Forward
import Unstack.Lowering.Traversal
import Unstack.Main
import Unstack.Module
import Unstack.Module.Description
import Unstack.Offset
import Unstack.Opcode
import Unstack.Opcode.Table
import Unstack.OrderedMap
import Unstack.Outcome
import Unstack.Proofs.Acceptance
import Unstack.Proofs.Agreement
import Unstack.Proofs.AssembledCode
import Unstack.Proofs.Assembling
import Unstack.Proofs.AssemblySteps
import Unstack.Proofs.BinarySearch
import Unstack.Proofs.BlockLookup
import Unstack.Proofs.BlockStarts
import Unstack.Proofs.Body
import Unstack.Proofs.CallTargets
import Unstack.Proofs.Colours
import Unstack.Proofs.Construction
import Unstack.Proofs.Contiguous
import Unstack.Proofs.DepthRule
import Unstack.Proofs.Descent
import Unstack.Proofs.Edges
import Unstack.Proofs.Encodable
import Unstack.Proofs.EncodedText
import Unstack.Proofs.EntryDepths
import Unstack.Proofs.FailedSteps
import Unstack.Proofs.Faults
import Unstack.Proofs.Finishing
import Unstack.Proofs.FirstFault
import Unstack.Proofs.FlowQuotient
import Unstack.Proofs.ForwardDepths
import Unstack.Proofs.GraphRules
import Unstack.Proofs.HexText
import Unstack.Proofs.Isolation
import Unstack.Proofs.KnownEffects
import Unstack.Proofs.LabelResolution
import Unstack.Proofs.LabelTable
import Unstack.Proofs.LeaderMap
import Unstack.Proofs.Machine
import Unstack.Proofs.Numerals
import Unstack.Proofs.Partition
import Unstack.Proofs.Prefixes
import Unstack.Proofs.PrintableText
import Unstack.Proofs.Reassembly
import Unstack.Proofs.RegionOrder
import Unstack.Proofs.RegionStarts
import Unstack.Proofs.RegisterCount
import Unstack.Proofs.RoundTrip
import Unstack.Proofs.ShortBranches
import Unstack.Proofs.Simulation
import Unstack.Proofs.SourceOrder
import Unstack.Proofs.StackDiscipline
import Unstack.Proofs.StackEffect
import Unstack.Proofs.TokenText
import Unstack.Proofs.TraversalDepths
import Unstack.Proofs.UnambiguousText
import Unstack.Proofs.Walk
import Unstack.Region
import Unstack.Search
import Unstack.Signature
import Unstack.Stack
import Unstack.Stack.Word
import Unstack.Text.Blank
import Unstack.Text.Lines
import Unstack.Text.Numeral
import Unstack.Token
import Unstack.Writer
