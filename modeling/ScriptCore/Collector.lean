import ScriptCore.Heap.Trace
import ScriptCore.Rendezvous

/-!
# The collector

The managed heap with its bookkeeping: one allocation list per thread, the lists of threads that
are gone, the immortal cells, the registered roots, and the counters that decide when the next
collection is due.

* `make`, `makeImmortal`: allocation, which never collects;
* `addRoot`, `removeRoot`, `Guard`: the registry of roots;
* `enroll`, `retire`: the allocation lists of threads;
* `setLimit`, `due`: the trigger;
* `collect`: one mark and sweep from given root values.

Roots and allocation lists draw their names from one counter.
-/

namespace ScriptCore

/-- What a registered root holds alive. -/
inductive Holder
  /-- The global names. -/
  | globals
  /-- The operand stack of a thread. -/
  | stack (thread : ThreadId)
  /-- A list of values of its own. -/
  | pinned (values : Array Value)
  deriving DecidableEq, Repr

/-- The cells a thread allocated, newest first. -/
structure Storage where
  id : StorageId
  cells : List CellId
  deriving DecidableEq, Repr

/-- The collector's settings. -/
structure CollectorSettings where
  /-- Number of mortal cells that triggers the first collection. -/
  allocLimit : UInt64 := 100000
  /-- After a collection the next one is due at this multiple of the surviving cells. -/
  growthFactor : Double := ⟨0x4000000000000000⟩
  deriving DecidableEq, Repr

/-- The first setting that is out of range. -/
def CollectorSettings.check (s : CollectorSettings) : Except BadSetting Unit :=
  if s.allocLimit = 0 then .error .allocLimit
  else if !s.growthFactor.atLeastOne then .error .growthFactor
  else .ok ()

/-- The managed heap and its bookkeeping. -/
structure Collector where
  /-- Tells collectors apart. -/
  serial : Nat := 0
  heap : Heap := .empty
  growthFactor : Double
  limit : UInt64
  /-- Number of mortal cells at which a collection is due. -/
  threshold : Nat
  /-- Mortal cells allocated and not freed. -/
  allocCount : Nat := 0
  immortalCount : Nat := 0
  collections : Nat := 0
  freed : Nat := 0
  /-- Polled at safepoints; set when an allocation reaches the threshold. -/
  requested : Bool := false
  sync : Rendezvous := {}
  /-- Registered roots, newest first. -/
  roots : List (RootId × Holder) := []
  storages : List Storage := []
  /-- Cells of threads that are gone, newest first. -/
  orphans : List CellId := []
  immortals : List CellId := []
  nextId : Nat := 1
  deriving Repr

/-- The counters that are shown to the outside. -/
structure Statistics where
  collections : Nat
  freed : Nat
  allocCount : Nat
  immortalCount : Nat
  allocLimit : Nat
  deriving DecidableEq, Repr

/-- The counters as one line. -/
def Statistics.text (s : Statistics) : String :=
  "GcStats \x7b collections: " ++ toString s.collections ++ ", freed: " ++ toString s.freed ++
    ", alloc_count: " ++ toString s.allocCount ++ ", immortal_count: " ++
    toString s.immortalCount ++ ", alloc_limit: " ++ toString s.allocLimit ++ " \x7d"

namespace Collector

/-- A fresh collector. -/
def new (s : CollectorSettings) : Collector where
  growthFactor := s.growthFactor
  limit := s.allocLimit
  threshold := s.allocLimit.toNat

def statistics (g : Collector) : Statistics where
  collections := g.collections
  freed := g.freed
  allocCount := g.allocCount
  immortalCount := g.immortalCount
  allocLimit := g.limit.toNat

/-- The collector as one line. -/
def text (g : Collector) : String :=
  "GarbageCollector \x7b stats: " ++ g.statistics.text ++ ", .. \x7d"

/-! ### Allocation -/

/-- Allocate into a thread's list.  Reaching the threshold requests a collection. -/
def make (g : Collector) (s : StorageId) (o : Object) : Collector × CellId :=
  let (heap, c) := g.heap.alloc { object := o }
  let count := g.allocCount + 1
  ({ g with
      heap
      storages := g.storages.map fun st =>
        if st.id = s then { st with cells := c :: st.cells } else st
      allocCount := count
      requested := g.requested || decide (g.threshold ≤ count) }, c)

/-- Allocate a cell that is never collected. -/
def makeImmortal (g : Collector) (o : Object) : Collector × CellId :=
  let (heap, c) := g.heap.alloc { object := o, immortal := true }
  ({ g with heap, immortals := c :: g.immortals, immortalCount := g.immortalCount + 1 }, c)

/-- Change a heap that keeps its cells. -/
def withHeap (g : Collector) (h : Heap) : Collector := { g with heap := h }

/-! ### Roots -/

/-- Register a root. -/
def addRoot (g : Collector) (holder : Holder) : Collector × RootId :=
  ({ g with roots := (g.nextId, holder) :: g.roots, nextId := g.nextId + 1 }, g.nextId)

/-- Take a root out of the registry. -/
def removeRoot (g : Collector) (id : RootId) : Except Panic Collector :=
  if g.roots.any (·.1 == id) then
    .ok { g with roots := g.roots.filter (·.1 != id) }
  else .error (.rootNotRegistered id)

def rootCount (g : Collector) : Nat := g.roots.length

/-- The values of a pinned root. -/
def pinned (g : Collector) (id : RootId) : Array Value :=
  match g.roots.find? (·.1 == id) with
  | some (_, .pinned vs) => vs
  | _ => #[]

/-- Replace the values of a pinned root. -/
def setPinned (g : Collector) (id : RootId) (vs : Array Value) : Collector :=
  { g with roots := g.roots.map fun r => if r.1 = id then (r.1, .pinned vs) else r }

/-- Pin one more value. -/
def pin (g : Collector) (id : RootId) (v : Value) : Collector :=
  g.setPinned id ((g.pinned id).push v)

/-- Ownership of a registration.  A disarmed guard owns nothing. -/
structure Guard where
  id : Option RootId
  deriving DecidableEq, Repr

/-- Register a root and own the registration. -/
def guardRoot (g : Collector) (holder : Holder) : Collector × Guard :=
  let (g, id) := g.addRoot holder
  (g, ⟨some id⟩)

/-- Give a registration up: an armed guard removes its root. -/
def Guard.release (guard : Guard) (g : Collector) : Except Panic Collector :=
  match guard.id with
  | some id => g.removeRoot id
  | none => .ok g

/-- Take a registration over from its guard. What is left of the guard owns nothing, and whoever has
the name has to remove the root. -/
def Guard.disarm (guard : Guard) : Option RootId × Guard := (guard.id, ⟨none⟩)

/-! ### Allocation lists of threads -/

/-- Register a thread with an empty allocation list. -/
def enroll (g : Collector) : Collector × StorageId :=
  ({ g with
      storages := ⟨g.nextId, []⟩ :: g.storages
      nextId := g.nextId + 1
      sync := g.sync.enroll }, g.nextId)

/-- A machine can only be set up on an allocation list of its own collector. -/
def accept (g : Collector) (owner : Nat) : Except Panic Unit :=
  if owner = g.serial then .ok () else .error .foreignMutator

/-- Remove a thread's list; its cells stay managed. -/
def retire (g : Collector) (id : StorageId) : Except Panic Collector :=
  match g.storages.find? (·.id == id) with
  | some st =>
      .ok { g with
        storages := g.storages.filter (·.id != id)
        orphans := st.cells ++ g.orphans
        sync := g.sync.retire }
  | none => .error (.storageRemovedTwice id)

/-! ### The trigger -/

/-- So many mortal cells that a collection is due. -/
def due (g : Collector) : Bool := decide (g.threshold ≤ g.allocCount)

/-- Set the limit, at least one, and make it the next threshold. -/
def setLimit (g : Collector) (limit : UInt64) : Collector :=
  let limit := if limit = 0 then 1 else limit
  { g with
    limit
    threshold := limit.toNat
    requested := g.requested || decide (limit.toNat ≤ g.allocCount) }

/-! ### Mark and sweep -/

/-- The values immortal cells hold. -/
def immortalEdges (g : Collector) : List Value :=
  g.immortals.flatMap fun c => ((g.heap.object? c).map Object.edges).getD []

/-- All mortal cells, list by list. -/
def mortals (g : Collector) : List CellId :=
  g.storages.flatMap (·.cells) ++ g.orphans

/-- One collection: mark what the roots and the immortal cells reach, free every other mortal cell,
and set the next threshold. -/
def collect (g : Collector) (roots : List Value) : Collector :=
  let marked := g.heap.trace (roots ++ g.immortalEdges)
  let dead := g.mortals.countP (!marked.isMarked ·)
  let live := g.allocCount - dead
  { g with
    heap := g.mortals.foldl Heap.sweepCell marked
    storages := g.storages.map fun st => { st with cells := st.cells.filter marked.isMarked }
    orphans := g.orphans.filter marked.isMarked
    allocCount := live
    freed := g.freed + dead
    collections := g.collections + 1
    threshold := max (Double.scaleCount live g.growthFactor) g.limit.toNat }

end Collector

end ScriptCore
