import Workflow.Activity
import Workflow.Choice
import Workflow.DataFlow
import Workflow.Double.Reading
import Workflow.Json.Printer
import Workflow.Json.Reader
import Workflow.Json.Record
import Workflow.Json.Selective
import Workflow.Moment.Reading
import Workflow.Run
import Workflow.Settings.Reading
import Workflow.Simulation.Drive
import Workflow.State.Definition
import Workflow.Store
import Workflow.Wait
import Workflow.Proofs.Table
import Workflow.Proofs.Activity
import Workflow.Proofs.Store
import Workflow.Proofs.World
import Workflow.Proofs.Calls
import Workflow.Proofs.Crew
import Workflow.Proofs.FanOut.Keys
import Workflow.Proofs.FanOut.Gathering
import Workflow.Proofs.Json.Record
import Workflow.Proofs.Metadata
import Workflow.Proofs.FanOut.Start
import Workflow.Proofs.FanOut.Join
import Workflow.Proofs.FanOut.Agreement
import Workflow.Proofs.FanOut.Cycle
import Workflow.Proofs.FanOut.Restart
import Workflow.Proofs.FanOut.Interruption
import Workflow.Proofs.Interpreter
import Workflow.Proofs.Task.Retry
import Workflow.Proofs.Task.Handover
import Workflow.Proofs.Choice.Reading
import Workflow.Proofs.Choice.Compilation
import Workflow.Proofs.Task.Rounds
import Workflow.Proofs.Worker.Duplex
import Workflow.Proofs.Worker.Session
import Workflow.Proofs.Counting
import Workflow.Proofs.FanOut.BranchEnd
import Workflow.Proofs.FanOut.Nesting
import Workflow.Proofs.FanOut.Names
import Workflow.Proofs.Locality
import Workflow.Proofs.FanOut.Isolation
import Workflow.Proofs.FanOut.Deliveries
import Workflow.Proofs.FanOut.Redelivery
import Workflow.Proofs.Worker.Unanswered
import Workflow.Proofs.Metadata.Verbatim
import Workflow.Proofs.FanOut.Persistence
import Workflow.Proofs.State.Definition
import Workflow.Proofs.Continuation
import Workflow.Proofs.FanOut.Marker
import Workflow.Proofs.Json.Number
import Workflow.Proofs.Json.Text
import Workflow.Proofs.Json.Characters
import Workflow.Proofs.Worker.Wire
import Workflow.Proofs.Store.Thresholds
import Workflow.Proofs.Path.Grammar
import Workflow.Proofs.Path.Locations
import Workflow.Proofs.FanOut.JoinEffect
import Workflow.Proofs.Choice.Form
import Workflow.Proofs.Choice.Coverage
import Workflow.Proofs.Choice.Forest
import Workflow.Proofs.Choice.Laws
import Workflow.Proofs.Double
import Workflow.Proofs.Choice.Integers
import Workflow.Proofs.Task.Budget
import Workflow.Proofs.DataFlow
import Workflow.Proofs.FanOut.Polling
import Workflow.Proofs.Wait
import Workflow.Proofs.Double.Power
import Workflow.Proofs.Task.Backoff
import Workflow.Proofs.Worker.Connection
import Workflow.Proofs.Worker.Reach
