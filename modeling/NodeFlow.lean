import NodeFlow.Editor.Automatic
import NodeFlow.Editor.Clipboard
import NodeFlow.Editor.Events
import NodeFlow.Json.Printer
import NodeFlow.Json.Reader
import NodeFlow.Service
import NodeFlow.Proofs.Order.Planner
import NodeFlow.Proofs.Order.Plan
import NodeFlow.Proofs.Drift
import NodeFlow.Proofs.Editor.Frame
import NodeFlow.Proofs.Editor.Turns
import NodeFlow.Proofs.Editor.SingleFlight
import NodeFlow.Proofs.Compile.Rank
import NodeFlow.Proofs.Compile.Skeleton
import NodeFlow.Proofs.Table
import NodeFlow.Proofs.Compile.Expansion
import NodeFlow.Proofs.Compile.Inputs
import NodeFlow.Proofs.Compile.DependencyOrder
import NodeFlow.Proofs.Compile.PlainWidgets
import NodeFlow.Proofs.Compile.References
import NodeFlow.Proofs.Numeral
import NodeFlow.Proofs.Load.Names
import NodeFlow.Proofs.Load.Sweep
import NodeFlow.Proofs.Load.Dump
import NodeFlow.Proofs.Load.Patch
import NodeFlow.Proofs.Load.Finish
import NodeFlow.Proofs.Load.Stored
import NodeFlow.Proofs.Load.Entries
import NodeFlow.Proofs.Load.Fixpoint
import NodeFlow.Proofs.Compile.DistinctSteps
import NodeFlow.Proofs.Copy
import NodeFlow.Proofs.Compile.Values
import NodeFlow.Proofs.Compile.Push
import NodeFlow.Proofs.Compile.Prepare
import NodeFlow.Proofs.Compile.Idempotence
import NodeFlow.Proofs.Compile.Flatten
import NodeFlow.Proofs.Compile.FlattenOrder
import NodeFlow.Proofs.Compile.FlattenValues
import NodeFlow.Proofs.Compile.FlattenWrites
import NodeFlow.Proofs.Compile.FlattenCompile
import NodeFlow.Proofs.Edit.Ends
import NodeFlow.Proofs.Edit.Bookkeeping
import NodeFlow.Proofs.Edit.Connect
import NodeFlow.Proofs.Edit.Agreement
import NodeFlow.Proofs.Compile.Consistent
import NodeFlow.Proofs.Compile.Delivery
import NodeFlow.Proofs.Compile.WriteOrder
import NodeFlow.Proofs.Editor.Batches
import NodeFlow.Proofs.Compile.Running
import NodeFlow.Proofs.Load.Blueprint
import NodeFlow.Proofs.Load.Recompile
import NodeFlow.Proofs.Load.Outline
import NodeFlow.Proofs.Load.FreeMembers
import NodeFlow.Proofs.Load.Report
import NodeFlow.Proofs.Load.Ready
import NodeFlow.Proofs.Load.Refusal
import NodeFlow.Proofs.Load.Rejected
import NodeFlow.Proofs.Editor.Idle
import NodeFlow.Proofs.Compile.Obstructed
import NodeFlow.Proofs.Service.CompileReply
import NodeFlow.Proofs.Service.LoadReply
import NodeFlow.Proofs.Load.NewNodes
import NodeFlow.Proofs.Compile.SlotRange
import NodeFlow.Proofs.Load.RoundTrip
import NodeFlow.Proofs.Service.EventReply
import NodeFlow.Proofs.Compile.GroupOutputs
import NodeFlow.Proofs.Editor.Overlap
import NodeFlow.Proofs.Compile.RespellingCompile
import NodeFlow.Proofs.Load.Respelling
import NodeFlow.Proofs.Editor.Changes
import NodeFlow.Proofs.Load.StepInputs
import NodeFlow.Proofs.Editor.Submissions
import NodeFlow.Proofs.Load.DocumentOrder
import NodeFlow.Proofs.Order.Ties
import NodeFlow.Proofs.Compile.Trail
import NodeFlow.Proofs.Decimal.Layout
import NodeFlow.Proofs.Decimal.Rounding
import NodeFlow.Proofs.Widget.ControlRuns
import NodeFlow.Proofs.Compile.Turns
import NodeFlow.Proofs.Edit.Detour
import NodeFlow.Proofs.Edit.Rerouting
import NodeFlow.Proofs.Compile.DetourCompile
import NodeFlow.Proofs.Compile.Rerouting
import NodeFlow.Proofs.Edit.FreeIds
import NodeFlow.Proofs.Load.CleanNames
import NodeFlow.Proofs.Load.Places
import NodeFlow.Proofs.Editor.Refresh
import NodeFlow.Proofs.Compile.Literals
import NodeFlow.Proofs.Editor.Outputs
import NodeFlow.Proofs.Load.FailingExtensions
