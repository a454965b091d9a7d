import ScriptCore.Collector
import ScriptCore.Lock
import ScriptCore.Text.Quoted

/-!
# The shared store

Everything the threads of one machine share: the managed heap, the global names, the native locks,
the bookkeeping of isolates and the clock.  Time is a count of nanoseconds.
-/

namespace ScriptCore

/-- The settings of isolates. -/
structure IsolateSettings where
  /-- Size of the stack of an isolate's thread. -/
  stackSize : Option UInt64 := none
  /-- What the names of isolate threads begin with. -/
  nameStem : String := "bond-isolate"
  /-- Longest single wait of a join, in milliseconds. -/
  pollMs : Nat := 10
  deriving DecidableEq, Repr

namespace IsolateSettings

/-- The first setting that is out of range. -/
def check (s : IsolateSettings) : Except BadSetting Unit :=
  if s.stackSize = some 0 then .error .stackSize
  else if s.nameStem.isEmpty then .error .nameStem
  else if s.pollMs = 0 then .error .pollInterval
  else .ok ()

/-- A length of time in milliseconds: below a second as it is, else in seconds with as many decimals
as needed. -/
def intervalText (ms : Nat) : String :=
  if ms < 1000 then toString ms ++ "ms"
  else
    let rest := toString (1000 + ms % 1000)
    let decimals := ((rest.toList.drop 1).reverse.dropWhile (· == '0')).reverse
    toString (ms / 1000) ++ (if decimals.isEmpty then "" else "." ++ String.ofList decimals) ++ "s"

def text (s : IsolateSettings) : String :=
  "IsolateSettings \x7b stack_size: " ++
    (match s.stackSize with
      | none => "None"
      | some n => "Some(" ++ toString n.toNat ++ ")") ++
    ", name_prefix: " ++ Text.quoted s.nameStem ++
    ", poll_interval: " ++ intervalText s.pollMs ++ " \x7d"

/-- The longest single wait of a join in nanoseconds. -/
def poll (s : IsolateSettings) : Nat := s.pollMs * 1_000_000

/-- The name of an isolate's thread. -/
def threadName (s : IsolateSettings) (id : Nat) : String := s.nameStem ++ "-" ++ toString id

end IsolateSettings

/-- What all threads share. -/
structure Store where
  collector : Collector
  isolates : IsolateSettings
  /-- The global names; a name occurs once. -/
  globals : List (String × Value) := []
  locks : Array Lock := #[]
  /-- Isolates started so far. -/
  spawned : Nat := 0
  /-- Isolates started and not finished. -/
  live : Nat := 0
  /-- Some thread is between asking for an isolate and having started it. -/
  creating : Bool := false
  /-- Why the system has no thread to give at present, in its own words, if it has none. -/
  shortage : Option String := none
  now : Nat := 0
  deriving Repr

namespace Store

def heap (s : Store) : Heap := s.collector.heap

def withHeap (s : Store) (h : Heap) : Store := { s with collector := s.collector.withHeap h }

/-- Change the heap in place. -/
@[inline]
def modifyHeap (s : Store) (f : Heap → Heap) : Store :=
  { s with collector := { s.collector with heap := f s.collector.heap } }

/-- Allocate a cell into a thread's list. -/
def make (s : Store) (storage : StorageId) (o : Object) : Store × CellId :=
  let (g, c) := s.collector.make storage o
  ({ s with collector := g }, c)

def makeImmortal (s : Store) (o : Object) : Store × CellId :=
  let (g, c) := s.collector.makeImmortal o
  ({ s with collector := g }, c)

/-- The value of a global name. -/
def global? (s : Store) (name : String) : Option Value := s.globals.lookup name

def setGlobal (s : Store) (name : String) (v : Value) : Store :=
  { s with globals := (name, v) :: s.globals.filter (·.1 != name) }

/-- A new native lock. -/
def newLock (s : Store) : Store × LockId :=
  ({ s with locks := s.locks.push {} }, s.locks.size)

def lock (s : Store) (l : LockId) : Lock := s.locks.getD l {}

def setLock (s : Store) (l : LockId) (lock : Lock) : Store :=
  { s with locks := s.locks.setIfInBounds l lock }

/-- Change the rendezvous counters. -/
def modifySync (s : Store) (f : Rendezvous → Rendezvous) : Store :=
  { s with collector := { s.collector with sync := f s.collector.sync } }

/-- No collection is requested any more. -/
def clearRequest (s : Store) : Store :=
  { s with collector := { s.collector with requested := false } }

/-- Publish native functions as immortal globals. -/
def publish (s : Store) (fs : List Native) : Store :=
  fs.foldl (fun s f =>
    let (s, c) := s.makeImmortal (.native f)
    s.setGlobal f.name (.ref c)) s

/-- Set up a library.  One that cannot be set up publishes nothing. -/
def addLibrary (s : Store) (library : Library) : Except Cause Store :=
  library.entries.map s.publish

/-- A store with the global names as its first root and the basic library. -/
def new (collector : CollectorSettings) (isolates : IsolateSettings) : Except Cause Store := do
  (collector.check).mapError .badSetting
  (isolates.check).mapError .badSetting
  let (g, _) := (Collector.new collector).addRoot .globals
  addLibrary { collector := g, isolates } .sync

/-- The store as one line. -/
def text (s : Store) : String :=
  "Runtime \x7b gc: " ++ s.collector.text ++ ", isolates: " ++ s.isolates.text ++
    ", live_isolates: " ++ toString s.live ++ " \x7d"

end Store

end ScriptCore
