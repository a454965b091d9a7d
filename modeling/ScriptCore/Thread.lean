import ScriptCore.Join
import ScriptCore.Vm

/-!
# Threads

A thread has a machine, possibly an allocation list of its own, and a `Control` that says what it
will do in its next step.  There are two roles: a host thread carries out one task at a time and
then is finished with it; the thread of an isolate calls a function, publishes the outcome in a
future and is gone.

* `Wait`: what a thread waits for;
* `After`: what it does when it goes on;
* `Control`: its next step.
-/

namespace ScriptCore

/-- What an operation came to. -/
inductive Outcome
  | done
  | value (v : Value)
  | values (vs : Array Value)
  /-- The wait ended without a value. -/
  | absent
  | failed (c : Cause)
  | panicked (p : Panic)
  deriving DecidableEq, Repr

/-- Who asked for an operation. -/
inductive Consumer
  /-- A native call whose callee lies at a stack index.  It is either the outermost call of the
  machine or an instruction. -/
  | call (callee : Nat) (outermost : Bool)
  /-- The task of a host thread. -/
  | host
  deriving DecidableEq, Repr

/-- What a thread waits for. -/
inductive Wait
  | until (deadline : Nat)
  | resolved (future : CellId)
  | resolvedBy (future : CellId) (deadline : Nat)
  | lock (lock : LockId) (phase : LockPhase)
  /-- No other thread is starting an isolate. -/
  | creation
  /-- No isolate is live. -/
  | settled
  /-- A thread is gone. -/
  | ended (thread : ThreadId)
  deriving DecidableEq, Repr

/-- How the call of an isolate ended. -/
inductive Ending
  | returned
  | panicked (p : Panic)
  deriving DecidableEq, Repr

/-- What a thread that waited does when it goes on. -/
inductive After
  /-- The instruction whose safepoint this was. -/
  | instruction
  | reply (consumer : Consumer)
  | start (function : Value) (args : Array Value) (consumer : Consumer)
  | join (j : Join) (consumer : Consumer)
  /-- Begin a pause; an isolate goes on to publish. -/
  | pause (ending : Option Ending)
  /-- Leave the collector. -/
  | retire
  deriving DecidableEq, Repr

/-- The next step of a thread. -/
inductive Control
  /-- Nothing to do. -/
  | idle
  /-- Interpret: the safepoint before the next instruction, if there is one. -/
  | running
  /-- Interpret: the instruction itself. -/
  | stepping
  /-- Join a collection or start one, if it is forced or due. -/
  | rendezvous (force : Bool) (k : After)
  /-- Parked until the running collection ends. -/
  | lingering (k : After)
  /-- Coordinator of a collection, parked until everyone is. -/
  | gathering (k : After)
  /-- Coordinator of a collection, everyone is parked. -/
  | sweeping (k : After)
  /-- In a blocking region: it waits and counts as parked. -/
  | blocked (wait : Wait) (k : After)
  /-- It waits outside of a blocking region: a collection waits for it. -/
  | waiting (wait : Wait) (k : After)
  /-- At the end of a blocking region, held up by a running collection. -/
  | leaving (outcome : Outcome) (k : After)
  /-- The task of a host thread is done. -/
  | finished (outcome : Outcome)
  /-- About to register with the collector. -/
  | enrolling
  /-- About to make its stack a root. -/
  | equipping
  /-- An isolate about to enter its call. -/
  | entering
  /-- An isolate about to pause collections. -/
  | pausing (ending : Ending)
  /-- An isolate about to publish its outcome. -/
  | publishing (ending : Ending)
  | resuming
  /-- An isolate about to let go of its function and arguments. -/
  | releasing
  /-- About to leave the collector. -/
  | retiring
  /-- About to take its stack out of the roots. -/
  | unrooting
  /-- Allocates so many texts that nobody holds. -/
  | littering (n : Nat)
  /-- Resolves futures at given times. -/
  | resolving (agenda : List (Nat × CellId × Value))
  | gone
  deriving DecidableEq, Repr

/-- What the thread waits for. -/
def Control.wait? : Control → Option Wait
  | .blocked wait _ | .waiting wait _ => some wait
  | _ => none

/-- What an isolate was started with. -/
structure Isolate where
  id : Nat
  function : Value
  args : Array Value
  future : CellId
  /-- The root that keeps future, function and arguments alive. -/
  transfer : RootId
  deriving DecidableEq, Repr

inductive Role
  | host
  | isolate (i : Isolate)
  deriving DecidableEq, Repr

/-- A thread of control. -/
structure Thread where
  vm : Vm := {}
  name : String := "main"
  storage : Option StorageId := none
  /-- The root that is its stack. -/
  root : Option RootId := none
  role : Role := .host
  control : Control := .idle
  /-- The steps it has made in the current round. -/
  spent : Nat := 0
  deriving DecidableEq, Repr, Inhabited

/-- The thread as the caller of an operation. -/
def Thread.caller (th : Thread) (t : ThreadId) : Caller := ⟨t, th.storage.getD 0, th.name⟩

end ScriptCore
