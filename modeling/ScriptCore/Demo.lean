import ScriptCore.CommandLine
import ScriptCore.Schedule

/-!
# The demonstration

Some isolates each double a number, or divide it by zero if they are to fail.  The outcomes are
listed in the order in which they arrive, followed by a summary and the collector's counters.
-/

namespace ScriptCore

/-- What a run leaves behind: its exit code, the lines it prints, and an error message. -/
structure Report where
  /-- None if the run was cut off from outside. -/
  exit : Option Nat
  lines : List String
  complaint : Option String := none
  deriving DecidableEq, Repr

namespace Demo

/-- Why a run ends before its summary. -/
inductive Breakdown
  | failed (c : Cause)
  | panicked (p : Panic)
  | outOfMemory
  deriving DecidableEq, Repr

/-- Bytes that a value takes in a table. -/
def valueBytes : Nat := 16

/-- The longest range of bytes that can be addressed, in whole words. -/
def addressRange : Nat := 1 <<< 63 - 8

/-- Ask for a table of so many values before there are any, where a table can be given so many
bytes. -/
def reserve (memory count : Nat) : Except Breakdown Unit :=
  if addressRange < valueBytes * count then .error (.panicked .capacityOverflow)
  else if memory < valueBytes * count then .error .outOfMemory
  else .ok ()

/-- Twice the argument. -/
def double : Code where
  name := "double"
  arity := 1
  constants := #[.int 2]
  instrs := #[.arg 0, .const 0, .arith .mul, .ret]

/-- The argument divided by zero. -/
def broken : Code where
  name := "broken"
  arity := 1
  constants := #[.int 0]
  instrs := #[.arg 0, .const 0, .arith .div, .ret]

/-- The isolate with number `i` is one of those that fail. -/
def fails (failEvery i : Nat) : Bool := decide (0 < failEvery) && (i + 1) % failEvery == 0

/-- Allocate a function and keep it on the stack of a thread. -/
def define (w : World) (t : ThreadId) (code : Code) : World × Value :=
  let th := w.thread t
  let (s, c) := w.store.make (th.caller t).storage (.function code)
  ({ w with store := s }.setVm t (th.vm.push (.ref c)), .ref c)

/-- Start the isolates with numbers from `i` on; the futures stay on the stack of the thread. -/
def launchAll (fuel : Nat) (t : ThreadId) (function : Nat → Value) :
    Nat → Nat → World → Array Value → Except Breakdown (World × Array Value)
  | 0, _, w, futures => .ok (w, futures)
  | n + 1, i, w, futures =>
      match w.perform fuel t (.request (.start (function i) #[.int (Int64.ofNat i)])) with
      | (w, some (.value f)) =>
          let w := w.setVm t ((w.thread t).vm.push f)
          launchAll fuel t function n (i + 1) w (futures.push f)
      | (_, some (.failed c)) => .error (.failed c)
      | (_, some (.panicked p)) => .error (.panicked p)
      | (w, _) => .ok (w, futures)

/-- The lines for the outcomes, the summary and the counters. -/
def summary (w : World) (results : Array Value) : List String :=
  let h := w.store.heap
  let tagged := results.toList.filter fun v => (h.result? v).isSome
  let errors := (tagged.filter fun v => ((h.result? v).map (·.1)).getD false).length
  tagged.map (fun v => (h.text? v).getD "") ++
    [toString results.size ++ " isolates, " ++ toString (results.size - errors) ++
        " succeeded, " ++ toString errors ++ " failed",
      w.store.collector.statistics.text]

/-- The demonstration in a world of its own, with so much memory for a table. -/
def play (memory fuel : Nat) (o : Options) : Except Breakdown (List String) := do
  let store ← (Store.new { allocLimit := o.allocLimit } {}).mapError .failed
  let (w, t) := World.addHost { store }
  let (w, _) := w.perform fuel t .enroll
  let (w, _) := w.perform fuel t .equip
  let (w, doubling) := define w t double
  let (w, breaking) := define w t broken
  let function (i : Nat) : Value := if fails o.failEvery.toNat i then breaking else doubling
  reserve memory o.isolates.toNat
  let (w, futures) ← launchAll fuel t function o.isolates.toNat 0 w #[]
  match w.perform fuel t (.request (.join futures w.store.isolates.poll true)) with
  | (w, some (.values results)) => .ok (summary w results)
  | (_, some (.failed c)) => .error (.failed c)
  | (w, _) => .ok (summary w #[])

/-- The options, in case someone asks. -/
def helpText : List String :=
  ["Usage: bond [OPTIONS]", "", "Options:",
    "      --isolates <N>     Number of isolates to spawn [default: 8]",
    "      --alloc-limit <N>  Live objects before the first collection [default: 100000]",
    "      --fail-every <N>   Make every n-th isolate fail [default: 0]",
    "  -v, --verbose          Log isolate and collector events",
    "  -h, --help             Print help",
    "  -V, --version          Print version"]

/-- How a run that broke down is reported. -/
def Breakdown.report : Breakdown → Report
  | .failed c => { exit := some 1, lines := [], complaint := some c.failure.text }
  | .panicked _ => { exit := some 101, lines := [] }
  | .outOfMemory => { exit := none, lines := [] }

/-- What a command line leads to, where a table can be given a tebibyte unless it is said otherwise. -/
def report (fuel : Nat) (invocation : Invocation) (memory : Nat := 1 <<< 40) : Report :=
  match invocation with
  | .version => { exit := some 0, lines := ["bond 0.1.0"] }
  | .help => { exit := some 0, lines := helpText }
  | .refused => { exit := some 2, lines := [] }
  | .demo o =>
      match play memory fuel o with
      | .ok lines => { exit := some 0, lines }
      | .error b => b.report

end Demo

end ScriptCore
