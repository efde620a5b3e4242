import ConAnalysis.IR.Module
import ConAnalysis.IR.Layout
import ConAnalysis.Library.CallSweep
import ConAnalysis.Library.CallSimulation
import ConAnalysis.Dataflow.State
import ConAnalysis.Dataflow.Analysis
import ConAnalysis.Dataflow.Steps
import ConAnalysis.Dataflow.Replay
import ConAnalysis.Library.CallHistory
import ConAnalysis.Dataflow.History
import ConAnalysis.Dataflow.Termination
import ConAnalysis.Dataflow.Growth
import ConAnalysis.Dataflow.FlowSoundness
import ConAnalysis.Dataflow.Arguments
import ConAnalysis.Dataflow.Returns
import ConAnalysis.Dataflow.Derivation
import ConAnalysis.Dataflow.Agreement
import ConAnalysis.Dataflow.Memo
import ConAnalysis.Library.Worklist
import ConAnalysis.Library.Dominance
import ConAnalysis.Dominators.Compute
import ConAnalysis.Dominators.Exactness
import ConAnalysis.Labels.Inst2Int
import ConAnalysis.Labels.DangerOpLabel
import ConAnalysis.Dominators.GetDominators
import ConAnalysis.Library.Rerouting
import ConAnalysis.Library.Search
import ConAnalysis.ControlDependence.PostDominators
import ConAnalysis.ControlDependence.TreeExistence
import ConAnalysis.ControlDependence.Graph
import ConAnalysis.ControlDependence.Dependencies
import ConAnalysis.ControlDependence.Regions
import ConAnalysis.ControlDependence.Influences
import ConAnalysis.Report.GetCorruptedIRs
import ConAnalysis.Report.Files
import ConAnalysis.Report.Isolation
import ConAnalysis.Report.DangerousOps
import ConAnalysis.Library.Regex
import ConAnalysis.Library.Scanf
import ConAnalysis.Library.Positions
import ConAnalysis.Scripts.Records
import ConAnalysis.Scripts.RoundTrip
import ConAnalysis.Scripts.Boundary
import ConAnalysis.Scripts.TsanLines
import ConAnalysis.Scripts.FrameLines
import ConAnalysis.Scripts.CallStacks
import ConAnalysis.Scripts.OverNight
import ConAnalysis.Scripts.SyncLoop
import ConAnalysis.Scripts.Pairing
import ConAnalysis.Scripts.WellFormed
import ConAnalysis.Scripts.StackExtraction
import ConAnalysis.Scripts.PairExtraction
import ConAnalysis.Scripts.ValgrindLines
import ConAnalysis.Scripts.ValgrindSyncLoop
import ConAnalysis.Scripts.ValgrindPairing
import ConAnalysis.Scripts.ValgrindExtraction
import ConAnalysis.Scripts.Converger
import ConAnalysis.Trigger.Addresses
import ConAnalysis.Trigger.Callbacks
import ConAnalysis.Trigger.Bookkeeping
import ConAnalysis.Trigger.Locations
import ConAnalysis.Report.CrossFunction
import ConAnalysis.Dataflow.Resume
import ConAnalysis.Dataflow.FieldTable
import ConAnalysis.SyncLoop.Analysis
import ConAnalysis.SyncLoop.FieldTable
import ConAnalysis.SyncLoop.Stores
import ConAnalysis.SyncLoop.ControlTaint
import ConAnalysis.SyncLoop.Loops
import ConAnalysis.SyncLoop.AdhocSync
import ConAnalysis.Library.BreakLoop
import ConAnalysis.Input.RacyInstructions
import ConAnalysis.Input.InitializeCallStack
import ConAnalysis.Input.CallStackHead
import ConAnalysis.SyncLoop.Initialize
import ConAnalysis.SyncLoop.Override
import ConAnalysis.Labels.LineAgreement
import ConAnalysis.Dataflow.Lockstep
import ConAnalysis.Dominators.PathIntersection
import ConAnalysis.Dominators.GuardedOps
import ConAnalysis.Dominators.Rounds
import ConAnalysis.Dominators.ExecutionPaths
import ConAnalysis.Dataflow.MemoHistory
import ConAnalysis.SyncLoop.Derivation
import ConAnalysis.Trigger.Halt
import ConAnalysis.Trigger.Liveness
import ConAnalysis.ControlDependence.RegionClasses
import ConAnalysis.ControlDependence.Controls
import ConAnalysis.Input.ParseInput
import ConAnalysis.Library.CallFaults
import ConAnalysis.Scripts.ReportFiles
import ConAnalysis.Dataflow.Faults
import ConAnalysis.Input.SourceLines
import ConAnalysis.Report.RunOnModule
import ConAnalysis.SyncLoop.RunOnModule
import ConAnalysis.Report.LogToReport
import ConAnalysis.Scripts.PlainNames
import ConAnalysis.Scripts.ConvergerWrapper
import ConAnalysis.Trigger.Setup
