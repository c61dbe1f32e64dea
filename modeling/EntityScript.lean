import EntityScript.Action
import EntityScript.Dispatch.Cycle
import EntityScript.Dispatch.Emit
import EntityScript.Dispatch.Execute
import EntityScript.Dispatch.Frame
import EntityScript.Dispatch.Send
import EntityScript.Dispatch.Sweep
import EntityScript.Entity
import EntityScript.Evaluation
import EntityScript.Expr
import EntityScript.Fault
import EntityScript.Host
import EntityScript.Import.FileTree
import EntityScript.Import.Load
import EntityScript.Import.Splice
import EntityScript.Message
import EntityScript.Number.Shape
import EntityScript.Number.Shortest
import EntityScript.Number.Text
import EntityScript.Operation
import EntityScript.Operator
import EntityScript.OrderedMap
import EntityScript.Pool
import EntityScript.Pool.Command
import EntityScript.Program
import EntityScript.Queue
import EntityScript.Record.Blank
import EntityScript.Record.Feature
import EntityScript.Record.Name
import EntityScript.Record.Number
import EntityScript.Record.Quoted
import EntityScript.Record.Value
import EntityScript.ScriptFault
import EntityScript.Settings
import EntityScript.Settings.Text
import EntityScript.Simulation
import EntityScript.Snapshot
import EntityScript.Source.Action
import EntityScript.Source.Expr
import EntityScript.Source.Parse
import EntityScript.Source.Position
import EntityScript.Source.Program
import EntityScript.Source.Scan
import EntityScript.Source.Token
import EntityScript.Subscription
import EntityScript.Table
import EntityScript.Text.Blank
import EntityScript.Text.Hidden
import EntityScript.Text.Line
import EntityScript.Text.NameChar
import EntityScript.Text.Quoted
import EntityScript.Text.Ranges
import EntityScript.Value
import EntityScript.World
import EntityScript.Proofs.Evaluation.Shortcut
import EntityScript.Proofs.Message.Identity
import EntityScript.Proofs.Queue.Tally
import EntityScript.Proofs.Send.Told
import EntityScript.Proofs.Send.Bound
import EntityScript.Proofs.Send.Recursion
import EntityScript.Proofs.Send.FanOut
import EntityScript.Proofs.Send.Reach
import EntityScript.Proofs.Dispatch.Change
import EntityScript.Proofs.Simulation.Request
import EntityScript.Proofs.Queue.Invariant
import EntityScript.Proofs.Call.Machine
import EntityScript.Proofs.Call.Termination
import EntityScript.Proofs.Drain.Order
import EntityScript.Proofs.Call.Mark
import EntityScript.Proofs.Table.Shape
import EntityScript.Proofs.Simulation.Loading
import EntityScript.Proofs.Table.Declare
import EntityScript.Proofs.Sweep.Exact
import EntityScript.Proofs.Number.Double
import EntityScript.Proofs.Number.ReadBack
import EntityScript.Proofs.Snapshot.Literal
import EntityScript.Proofs.Source.Grammar
import EntityScript.Proofs.Source.Reading
import EntityScript.Proofs.Number.Rounding
import EntityScript.Proofs.Number.Scientific
import EntityScript.Proofs.Number.Shortest
import EntityScript.Proofs.Source.Reader
import EntityScript.Proofs.Source.Scanning
import EntityScript.Proofs.Source.Written
import EntityScript.Proofs.Source.Outline
import EntityScript.Proofs.Snapshot.RoundTrip
import EntityScript.Proofs.Simulation.Reloading
import EntityScript.Proofs.Table.History
import EntityScript.Proofs.Source.ProgramGrammar
import EntityScript.Proofs.Source.ProgramReading
import EntityScript.Proofs.Snapshot.Merge
import EntityScript.Proofs.Send.Commute
import EntityScript.Proofs.Subscription.Registration
import EntityScript.Proofs.Subscription.Invariant
import EntityScript.Proofs.Source.Lexemes
import EntityScript.Proofs.Source.LongestMatch
import EntityScript.Proofs.Source.Tokens
import EntityScript.Proofs.Send.Fault
import EntityScript.Proofs.Import.Walk
import EntityScript.Proofs.Import.Splice
import EntityScript.Proofs.Simulation.Pulse
import EntityScript.Proofs.Dispatch.Faults
import EntityScript.Proofs.Drain.Faults
import EntityScript.Proofs.Simulation.Settling
import EntityScript.Proofs.Subscription.OwnEvents
import EntityScript.Proofs.Number.Index
import EntityScript.Proofs.Pool.Commands
import EntityScript.Proofs.Pool.Spawn
import EntityScript.Proofs.Call.Agreement
import EntityScript.Proofs.Dispatch.Blocks
import EntityScript.Proofs.Source.Commitment
import EntityScript.Proofs.Number.Order
import EntityScript.Proofs.Evaluation.Equality
import EntityScript.Proofs.Dispatch.Assignment
import EntityScript.Proofs.Source.Positions
import EntityScript.Proofs.Source.Refusals
