import ScriptCore.Store

/-!
# Requests that may park a thread

Most operations are done at once.  The others ask for something a thread may have to wait for;
what they ask is a `Request`, and the thread goes on when it is granted.

`Reaction` is the answer of a native function or method.
-/

namespace ScriptCore

/-- Something a thread may have to wait for. -/
inductive Request
  /-- A collection. -/
  | collect
  | sleep (nanoseconds : Nat)
  /-- The value of a future. -/
  | await (future : CellId)
  /-- The value of a future, if it comes in time. -/
  | awaitFor (future : CellId) (nanoseconds : Nat)
  | lock (lock : LockId)
  /-- A new isolate that calls a function. -/
  | start (function : Value) (args : Array Value)
  /-- The values of all the futures.  Without tags, the payloads of results. -/
  | join (futures : Array Value) (poll : Nat) (tagged : Bool)
  /-- No isolate is live any more. -/
  | settle
  deriving DecidableEq, Repr

/-- What a native function or method answers. -/
inductive Reaction
  | value (v : Value)
  | failed (c : Cause)
  | panicked (p : Panic)
  | suspended (r : Request)
  deriving DecidableEq, Repr

/-- An answer of an operation that cannot wait. -/
def Reaction.ofExcept : Except Cause Value → Reaction
  | .ok v => .value v
  | .error c => .failed c

/-- The thread on whose behalf an operation runs. -/
structure Caller where
  thread : ThreadId
  storage : StorageId
  name : String
  deriving DecidableEq, Repr

end ScriptCore
