import ScriptCore.Arguments
import ScriptCore.Heap.Text
import ScriptCore.Request

/-!
# Calling native functions

The number of arguments is checked first, then the function does its work.  Functions that may have
to wait answer with a request.
-/

namespace ScriptCore.Native

/-- Allocate an object and answer with it. -/
def makeValue (me : Caller) (s : Store) (o : Object) : Store × Reaction :=
  let (s, c) := s.make me.storage o
  (s, .value (.ref c))

/-- Answer with a request if its arguments are right. -/
def request (s : Store) (r : Except Cause Request) : Store × Reaction :=
  match r with
  | .ok r => (s, .suspended r)
  | .error c => (s, .failed c)

/-- Sleep for a number of seconds. -/
def sleepSeconds (x : Double) : Except Cause Request :=
  match x.nanoseconds? with
  | some ns => .ok (.sleep ns)
  | none => .error (.invalidDuration x)

/-- Sleep for a number of milliseconds. -/
def sleepMilliseconds (n : Int64) : Except Cause Request :=
  if n.toInt < 0 then .error (.negativeDuration n) else .ok (.sleep (n.toInt.toNat * 1_000_000))

/-- Set the allocation limit from a script. -/
def setLimit (n : Int64) (s : Store) : Store × Reaction :=
  if n.toInt ≤ 0 then (s, .failed (.limitNotPositive n))
  else ({ s with collector := s.collector.setLimit n.toUInt64 }, .value .nil)

/-- What a function does once the number of arguments is right. -/
def run (f : Native) (me : Caller) (args : Array Value) (s : Store) : Store × Reaction :=
  match f with
  | .startIsolate =>
      request s ((Arguments.callable s.heap args 0).map fun c => .start (.ref c) (args.drop 1))
  | .waitUntilCompleted =>
      request s ((Arguments.list s.heap args 0).map fun fs => .join fs s.isolates.poll false)
  | .list => makeValue me s (.list args)
  | .sleep => request s ((Arguments.number s.heap args 0).bind sleepSeconds)
  | .sleepMs => request s ((Arguments.int s.heap args 0).bind sleepMilliseconds)
  | .gcCollect => (s, .suspended .collect)
  | .getAllocLimit => (s, .value (.int s.collector.limit.toInt64))
  | .setAllocLimit =>
      match Arguments.int s.heap args 0 with
      | .ok n => setLimit n s
      | .error c => (s, .failed c)
  | .getAllocCount => (s, .value (.int (Int64.ofNat s.collector.allocCount)))
  | .getImmortalCount => (s, .value (.int (Int64.ofNat s.collector.immortalCount)))
  | .mutex =>
      let (s, l) := s.newLock
      makeValue me s (.mutex l)
  | .answer => (s, .value (.int 42))
  | .count =>
      match (Arity.exact 2).check "count" args.size with
      | .ok () => (s, .value (.int (Int64.ofNat args.size)))
      | .error c => (s, .failed c)
  | .echo => makeValue me s (.list args)
  | .shadowList => makeValue me s (.str "shadow")
  | .boomStr => (s, .panicked (.text "native exploded"))
  | .boomString =>
      match s.heap.text? (args.getD 0 .nil) with
      | some t => (s, .panicked (.text ("exploded with " ++ t)))
      | none => (s, .panicked .endlessText)
  | .boomAny => (s, .panicked .unprintable)
  | .threadName => makeValue me s (.str me.name)
  | .counter => makeValue me s (.custom (.counter 0))
  | .cell => makeValue me s (.custom (.cell (args.getD 0 .nil)))
  | .plain => makeValue me s (.custom .plain)

/-- Call a native function. -/
def call (f : Native) (me : Caller) (args : Array Value) (s : Store) : Store × Reaction :=
  match f.arity.check f.name args.size with
  | .ok () => f.run me args s
  | .error c => (s, .failed c)

end ScriptCore.Native
