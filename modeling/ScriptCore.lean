import ScriptCore.Main
import ScriptCore.Session
import ScriptCore.Proofs.Collector.Exact
import ScriptCore.Proofs.Collector.Tidy
import ScriptCore.Proofs.Collector.Accounts
import ScriptCore.Proofs.Heap.Lasts
import ScriptCore.Proofs.Heap.Text
import ScriptCore.Proofs.Store.Edited
import ScriptCore.Proofs.Machine.Safe
import ScriptCore.Proofs.Machine.Run
import ScriptCore.Proofs.Machine.Evaluation
import ScriptCore.Proofs.Machine.Refinement
import ScriptCore.Proofs.Machine.Caller
import ScriptCore.Proofs.Machine.Quiet
import ScriptCore.Proofs.Machine.Alike
import ScriptCore.Proofs.World.Sound
import ScriptCore.Proofs.World.Step
import ScriptCore.Proofs.World.Runs
import ScriptCore.Proofs.World.Sequel
import ScriptCore.Proofs.World.Others
import ScriptCore.Proofs.World.Chronicle
import ScriptCore.Proofs.World.Seats
import ScriptCore.Proofs.World.Calls
import ScriptCore.Proofs.World.Accounts
import ScriptCore.Proofs.World.Operations
import ScriptCore.Proofs.Rendezvous.Balance
import ScriptCore.Proofs.Rendezvous.StopTheWorld
import ScriptCore.Proofs.Rendezvous.Safepoint
import ScriptCore.Proofs.Isolate.Stages
import ScriptCore.Proofs.Isolate.Report
import ScriptCore.Proofs.Isolate.Outcome
import ScriptCore.Proofs.Isolate.Alone
import ScriptCore.Proofs.Join.Passes
import ScriptCore.Proofs.Join.Completion
import ScriptCore.Proofs.Machine.Twins
import ScriptCore.Proofs.World.Twins
import ScriptCore.Proofs.Lock.Frame
import ScriptCore.Proofs.Lock.Exclusion
import ScriptCore.Proofs.Machine.Words
import ScriptCore.Proofs.World.Panics
import ScriptCore.Proofs.World.Keeping
import ScriptCore.Proofs.Isolate.Handover
import ScriptCore.Proofs.Machine.Suspension
import ScriptCore.Proofs.World.Suspended
import ScriptCore.Proofs.Double.Exact
import ScriptCore.Proofs.Heap.Equality
import ScriptCore.Proofs.Rendezvous.Trigger
import ScriptCore.Proofs.Future.OneShot
import ScriptCore.Proofs.Machine.Allowance
import ScriptCore.Proofs.Machine.Methods
import ScriptCore.Proofs.Heap.Display
import ScriptCore.Proofs.Isolate.Refused
import ScriptCore.Proofs.World.Transparency
import ScriptCore.Proofs.World.Line
import ScriptCore.Proofs.Demo.Play
import ScriptCore.Proofs.Double.Denotation
import ScriptCore.Proofs.Machine.Integers
import ScriptCore.Proofs.World.Limit
import ScriptCore.Proofs.World.Registry
