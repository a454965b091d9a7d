import ScriptCore.Heap.Equality
import ScriptCore.Schedule
import ScriptCore.Session.Command

/-!
# Sessions

A session drives a machine from a host thread of its own: it has registers, builds values from
forms, and carries out commands one after the other.

One root of the session holds the registers and, until the end of a command, the objects that the
command built.

* `Session.new`: a machine with a host thread that has an allocation list and a stack;
* `Session.perform`: carry out one command;
* `Session.run`: carry out a list of commands.
-/

namespace ScriptCore

/-- A machine driven by commands. -/
structure Session where
  world : World
  /-- The thread the commands are carried out on. -/
  host : ThreadId
  /-- The root of registers and temporaries. -/
  registerRoot : RootId
  /-- Bound on the steps of one task. -/
  fuel : Nat
  registers : List (String × Value) := []
  /-- Objects built by the running command. -/
  temporaries : Array Value := #[]
  /-- Roots that end with their name. -/
  rooted : List (String × RootId) := []
  /-- Roots that have to be removed by hand. -/
  disarmed : List (String × RootId) := []
  /-- Pauses that have not been ended. -/
  pauses : Nat := 0

namespace Session

/-! ### State -/

def store (s : Session) : Store := s.world.store

def heap (s : Session) : Heap := s.store.heap

def collector (s : Session) : Collector := s.store.collector

def vm (s : Session) : Vm := (s.world.thread s.host).vm

def storage (s : Session) : StorageId := ((s.world.thread s.host).storage).getD 0

def setStore (s : Session) (st : Store) : Session :=
  { s with world := { s.world with store := st } }

def setHeap (s : Session) (h : Heap) : Session := s.setStore (s.store.withHeap h)

def setCollector (s : Session) (g : Collector) : Session :=
  s.setStore { s.store with collector := g }

def setVm (s : Session) (vm : Vm) : Session := { s with world := s.world.setVm s.host vm }

/-- The root holds exactly the registers and the temporaries. -/
def refresh (s : Session) : Session :=
  let held := (s.registers.map (·.2)).toArray ++ s.temporaries
  s.setCollector (s.collector.setPinned s.registerRoot held)

/-- Put a value into a register, if one is named. -/
def keep (s : Session) (target : Option String) (v : Value) : Session :=
  match target with
  | some name => { s with registers := (name, v) :: s.registers.filter (·.1 != name) }.refresh
  | none => s

def view (s : Session) (v : Value) : View := s.heap.view v

/-- Have a thread carry out a task. -/
def task (s : Session) (t : ThreadId) (task : Task) : Session × Option Outcome :=
  let (w, outcome) := s.world.perform s.fuel t task
  ({ s with world := w }, outcome)

/-- Have the session's thread carry out a task. -/
def here (s : Session) (task : Task) : Session × Option Outcome := s.task s.host task

/-! ### Building values -/

/-- Allocate a temporary. -/
def allocate (s : Session) (storage : StorageId) (o : Object) : Session × Value :=
  let (st, c) := s.store.make storage o
  let s := s.setStore st
  ({ s with temporaries := s.temporaries.push (.ref c) }, .ref c)

def allocateImmortal (s : Session) (o : Object) : Session × Value :=
  let (st, c) := s.store.makeImmortal o
  let s := s.setStore st
  ({ s with temporaries := s.temporaries.push (.ref c) }, .ref c)

/-- Lists one inside the other around a value. -/
def nest (storage : StorageId) : Nat → Session × Value → Session × Value
  | 0, p => p
  | n + 1, (s, v) => nest storage n (s.allocate storage (.list #[v]))

mutual

/-- Build the value of a form with allocations into a list. -/
def build (storage : StorageId) : Form → Session → Option (Session × Value)
  | .value v, s => some (s, v)
  | .register name, s => (s.registers.lookup name).map (s, ·)
  | .global name, s => (s.store.global? name).map (s, ·)
  | .new o, s => (buildObject storage o s).map fun (s, o) => s.allocate storage o
  | .immortal o, s => (buildObject storage o s).map fun (s, o) => s.allocateImmortal o
  | .nest depth core, s => (build storage core s).map (nest storage depth)

def buildObject (storage : StorageId) : ObjectForm → Session → Option (Session × Object)
  | .str text, s => some (s, .str text)
  | .list items, s => (buildAll storage items s).map fun (s, vs) => (s, .list vs.toArray)
  | .function name arity constants instrs, s =>
      (buildAll storage constants s).map fun (s, vs) =>
        (s, .function ⟨name, arity, vs.toArray, instrs⟩)
  | .future, s => some (s, .future none)
  | .mutex, s =>
      let (st, l) := s.store.newLock
      some (s.setStore st, .mutex l)
  | .share m, s =>
      match build storage m s with
      | some (s, v) => (s.heap.mutex? v).map fun l => (s, .mutex l)
      | none => none
  | .error f, s => some (s, .error f)
  | .result isError payload, s =>
      (build storage payload s).map fun (s, v) => (s, .result isError v)
  | .bound receiver m, s =>
      match build storage receiver s with
      | some (s, .ref c) => some (s, .bound c m)
      | _ => none

def buildAll (storage : StorageId) : List Form → Session → Option (Session × List Value)
  | [], s => some (s, [])
  | f :: rest, s =>
      match build storage f s with
      | some (s, v) => (buildAll storage rest s).map fun (s, vs) => (s, v :: vs)
      | none => none

end

/-- Go on with the value of a form. -/
def withValue (s : Session) (f : Form) (k : Session → Value → Session × Answer) :
    Session × Answer :=
  match build s.storage f s with
  | some (s, v) => k s.refresh v
  | none => (s, .malformed)

/-- Go on with the values of two forms. -/
def withTwo (s : Session) (f g : Form) (k : Session → Value → Value → Session × Answer) :
    Session × Answer :=
  s.withValue f fun s v => s.withValue g fun s w => k s v w

/-- Go on with the values of several forms. -/
def withAll (s : Session) (fs : List Form) (k : Session → Array Value → Session × Answer) :
    Session × Answer :=
  match buildAll s.storage fs s with
  | some (s, vs) => k s.refresh vs.toArray
  | none => (s, .malformed)

/-! ### Answers -/

/-- Go on with the outcome of a task that neither failed nor panicked. -/
def expecting (p : Session × Option Outcome) (k : Session → Outcome → Session × Answer) :
    Session × Answer :=
  match p with
  | (s, some (.failed c)) => (s, .failed c.failure)
  | (s, some (.panicked p)) => (s, .panicked p)
  | (s, some outcome) => k s outcome
  | (s, none) => (s, .stuck)

/-- The answer to a change that may fail. -/
def attempt (s : Session) {α : Type} (r : Except Cause α) (k : α → Session × Answer) :
    Session × Answer :=
  match r with
  | .ok a => k a
  | .error c => (s, .failed c.failure)

/-- The answer to a change that may panic. -/
def guarded (s : Session) {α : Type} (r : Except Panic α) (k : α → Session × Answer) :
    Session × Answer :=
  match r with
  | .ok a => k a
  | .error p => (s, .panicked p)

def answerText (s : Session) (v : Value) : Answer :=
  match s.heap.text? v with
  | some t => .text t
  | none => .panicked .endlessText

def isPaused (s : Session) : Bool := decide (0 < s.collector.sync.paused)

def answerStatistics (s : Session) : Answer := .statistics s.collector.statistics

/-- The value an outcome carries. -/
def valueOf : Outcome → Option Value
  | .value v => some v
  | _ => none

/-! ### Values -/

def debugValue (s : Session) (v : Value) : Answer :=
  .debugged (s.heap.inspectValue v) ((s.heap.deref? v).map Object.inspect) <|
    (s.heap.mutex? v).map fun l =>
      "ScriptMutex \x7b locked: " ++ (if (s.store.lock l).held then "true" else "false") ++ " \x7d"

def mutatorText (s : Session) : String :=
  "Mutator \x7b id: StorageId(" ++ toString s.storage ++ ") \x7d"

def debug (s : Session) : Subject → String
  | .vm =>
      "Vm \x7b mutator: " ++ s.mutatorText ++ ", depth: " ++ toString s.vm.depth ++ ", frames: " ++
        toString s.vm.frames.length ++ ", error: " ++ (if s.vm.error then "true" else "false") ++
        " \x7d"
  | .runtime => s.store.text
  | .collector => s.collector.text
  | .mutator => s.mutatorText

def inspect (s : Session) (v : Value) : Inspection :=
  let h := s.heap
  let cell := v.cell?.bind h.get?
  { type := h.typeOf v
    truthy := v.truthy
    isNil := v == .nil
    int := v.int?
    float := v.number?
    bool := v.bool?
    isRef := v.cell?.isSome
    is := [(h.str? v).isSome, (h.list? v).isSome, (h.future? v).isSome, (h.mutex? v).isSome,
      (h.result? v).isSome, (h.error? v).isSome]
    immortal := v.cell?.map fun _ => (cell.map (·.immortal)).getD false
    marked := (cell.map (·.marked)).getD false }

def mark (s : Session) (v : Value) : Session × Answer :=
  match v with
  | .ref c => (s.setHeap (s.heap.mark c), .flag (!s.heap.isMarked c))
  | _ => (s, .flag false)

def unmark (s : Session) (v : Value) : Session × Answer :=
  match v with
  | .ref c =>
      let s := s.setHeap (s.heap.unmark c)
      (s, .flag (s.heap.isMarked c))
  | _ => (s, .flag false)

/-- What a visitor of the value meets: an immediate itself, an object's edges. -/
def edges (s : Session) (v : Value) : Answer :=
  .views <|
    match v with
    | .ref c => (((s.heap.object? c).map Object.edges).getD []).map s.view
    | v => [s.view v]

def listing (s : Session) (v : Value) (index : Option Nat) : Session × Answer :=
  match s.heap.list? v with
  | some items =>
      (s, .listing (items.toList.map s.view) ((index.bind (items[·]?)).map s.view))
  | none => (s, .malformed)

/-! ### The machine -/

def pop (s : Session) (target : Option String) : Session × Option Value :=
  match s.vm.peek? with
  | some v => ((s.setVm s.vm.dropTop).keep target v, some v)
  | none => (s, none)

/-- The view of a value; the items of a list in the order of their texts if asked for. -/
def viewSorted (s : Session) (sort : Bool) (v : Value) : View :=
  match sort, s.heap.list? v with
  | true, some items =>
      .list ((s.heap.sortByText items).toList.map (s.heap.viewWithin (View.depth - 1)))
  | _, _ => s.view v

def call (s : Session) (function : Value) (args : Array Value) (target : Option String)
    (sort : Bool) : Session × Answer :=
  expecting (s.here (.call function args)) fun s _ =>
    expecting (s.here .run) fun s _ =>
      let error := s.vm.error
      let (s, v) := s.pop target
      (s, .called (v.map (s.viewSorted sort)) error s.vm.depth)

def newVm (s : Session) : Session × Answer :=
  expecting (s.here .retire) fun s _ =>
    expecting (s.here .enroll) fun s _ =>
      expecting (s.here .equip) fun s _ => (s, s.answerStatistics)

/-! ### The collector -/

/-- End one pause. -/
def resume (s : Session) : Session × Answer :=
  match s.collector.sync.resume? with
  | some r =>
      let s := s.setStore (s.store.modifySync fun _ => r)
      (s, .flag s.isPaused)
  | none => (s, .panicked .unmatchedResume)

def pin (s : Session) (vs : Array Value) : Session × RootId :=
  let (g, id) := s.collector.addRoot (.pinned vs)
  (s.setCollector g, id)

/-- Give up the root of a name. -/
def unroot (s : Session) (name : String) : Except Panic Session :=
  match s.rooted.lookup name with
  | some id =>
      (s.collector.removeRoot id).map fun g =>
        { s.setCollector g with rooted := s.rooted.filter (·.1 != name) }
  | none => .ok s

def root (s : Session) (vs : Array Value) (name : String) : Session × Answer :=
  let (s, id) := s.pin vs
  s.guarded (s.unroot name) fun s =>
    let s := { s with rooted := (name, id) :: s.rooted }
    (s, .number s.collector.rootCount)

def addRoot (s : Session) (vs : Array Value) (name : String) (drop : Bool) : Session × Answer :=
  let (g, guard) := s.collector.guardRoot (.pinned vs)
  let s := s.setCollector g
  if drop then
    s.guarded (guard.release s.collector) fun g => (s.setCollector g, .armed g.rootCount)
  else
    let kept := match guard.disarm.1 with
      | some id => (name, id) :: s.disarmed.filter (·.1 != name)
      | none => s.disarmed
    ({ s with disarmed := kept }, .armed s.collector.rootCount)

/-- Have a new thread act while the session's thread waits for its end, parked or not. -/
def elsewhere (s : Session) (parked : Bool) {α : Type} (act : Session → ThreadId → Session × α) :
    Session × α :=
  let (w, t) := s.world.addHost
  let w :=
    if parked then w.block s.host (.ended t) (.reply .host)
    else w.setControl s.host (.waiting (.ended t) (.reply .host))
  let (s, a) := act { s with world := w } t
  let (w, _) := (s.world.dismiss t).run s.fuel s.host
  ({ s with world := w.setControl s.host .idle }, a)

/-- A new thread takes an allocation list, builds values and collects. -/
def worker (s : Session) (forms : List Form) (target : Option String) (before after : Bool) :
    Session × Answer :=
  s.elsewhere true fun s t =>
    let collection (s : Session) (wanted : Bool) : Session × Option Bool :=
      if wanted then
        match s.task t (.request .collect) with
        | (s, some (.value (.bool b))) => (s, some b)
        | (s, _) => (s, none)
      else (s, none)
    let (s, _) := s.task t .enroll
    let (s, ranBefore) := collection s before
    match buildAll (((s.world.thread t).storage).getD 0) forms s with
    | none => (s, .malformed)
    | some (s, vs) =>
        let s := match vs.getLast? with
          | some v => s.keep target v
          | none => s
        let s := { s with temporaries := #[] }.refresh
        let (s, ranAfter) := collection s after
        let count := s.collector.allocCount
        let (s, _) := s.task t .retire
        (s, .worker ranBefore ranAfter count)

/-- Remove the allocation list of a fresh collector twice. -/
def storageTwice : Except Panic Unit := do
  let (g, id) := (Collector.new {}).enroll
  let g ← g.retire id
  let _ ← g.retire id

/-- Set up a machine on an allocation list of another collector. -/
def foreignVm (s : Session) : Except Panic Unit :=
  let other := { Collector.new {} with serial := s.collector.serial + 1 }
  s.collector.accept other.serial

/-! ### Futures and mutexes -/

def future (s : Session) (f : Value) (waitMs : Option Nat) (wait : Bool) : Session × Answer :=
  match f, s.heap.future? f with
  | .ref c, some _ =>
      let waitFor (s : Session) (k : Session → Option Value → Session × Answer) :
          Session × Answer :=
        match waitMs with
        | some ms =>
            expecting (s.here (.request (.awaitFor c (ms * 1_000_000)))) fun s o => k s (valueOf o)
        | none => k s none
      let waitFully (s : Session) (k : Session → Option Value → Session × Answer) :
          Session × Answer :=
        if wait then expecting (s.here (.request (.await c))) fun s o => k s (valueOf o)
        else k s none
      waitFor s fun s waited =>
        waitFully s fun s result =>
          let value := s.heap.resolved? c
          (s, .future value.isSome (value.map s.view) (waited.map s.view) (result.map s.view))
  | _, _ => (s, .malformed)

/-- Give a lock back on behalf of a thread. -/
def unlock (s : Session) (t : ThreadId) (l : LockId) : Session × Answer :=
  s.attempt ((s.store.lock l).unlock t) fun lock =>
    let s := s.setStore (s.store.setLock l lock)
    ({ s with world := s.world.handOver }, .ok)

/-- What a thread does with a lock. -/
def withLock (l : LockId) (action : MutexAction) (s : Session) (t : ThreadId) : Session × Answer :=
  let lock (k : Session → Session × Answer) : Session × Answer :=
    expecting (s.task t (.lock l)) fun s _ => k s
  match action with
  | .locked => (s, .flag (s.store.lock l).held)
  | .lock => lock fun s => (s, .ok)
  | .unlock => s.unlock t l
  | .cycle => lock fun s => s.unlock t l

def mutex (s : Session) (m : Value) (action : MutexAction) (apart : Bool) : Session × Answer :=
  match s.heap.mutex? m with
  | none => (s, .malformed)
  | some l => if apart then s.elsewhere false (withLock l action) else withLock l action s s.host

/-! ### Isolates -/

def start (s : Session) (function : Value) (args : Array Value) (target : Option String) :
    Session × Answer :=
  expecting (s.here (.request (.start function args))) fun s o =>
    match o with
    | .value v => (s.keep target v, .view (s.view v))
    | _ => (s, .stuck)

def settle (s : Session) : Session × Answer :=
  expecting (s.here (.request .settle)) fun s _ => (s, .settled s.store.live)

/-- Wait for futures. -/
def join (s : Session) (fs : Array Value) (poll : Nat) (tagged sort : Bool) : Session × Answer :=
  expecting (s.here (.request (.join fs poll tagged))) fun s o =>
    match o with
    | .values vs =>
        let vs := if sort then s.heap.sortByText vs else vs
        (s, .views (vs.toList.map s.view))
    | _ => (s, .stuck)

/-- Wait for futures that a helper thread resolves one after the other with their positions.  A root
holds them for the helper until it is done. -/
def joinLate (s : Session) (fs : Array Value) (sort : Bool) : Session × Answer :=
  let agenda := fs.toList.zipIdx.filterMap fun (v, i) =>
    v.cell?.map fun c => (s.store.now + (i + 1) * 3_000_000, c, Value.int (Int64.ofNat i))
  let (s, held) := s.pin fs
  let (w, helper) := s.world.add { control := .resolving agenda }
  let (s, answer) := { s with world := w }.join fs 2_000_000 false sort
  let (w, _) := s.world.run s.fuel helper
  let s := { s with world := w }
  s.guarded (s.collector.removeRoot held) fun g => (s.setCollector g, answer)

/-! ### Helpers -/

def expect (s : Session) (check : ArgumentCheck) (args : Array Value) (i : Nat) :
    Session × Answer :=
  let h := s.heap
  match check with
  | .int => s.attempt (Arguments.int h args i) fun n => (s, .decimal n.toInt)
  | .number => s.attempt (Arguments.number h args i) fun x => (s, .bits x)
  | .object => s.attempt (Arguments.object h args i) fun c => (s, .view (s.view (.ref c)))
  | .list => s.attempt (Arguments.list h args i) fun vs => (s, .views (vs.toList.map s.view))
  | .callable => s.attempt (Arguments.callable h args i) fun c => (s, .view (s.view (.ref c)))
  | .arity => s.attempt ((Arity.exact i).check "f" args.size) fun _ => (s, .ok)

/-! ### Commands -/

/-- Carry out a command; its temporaries are still held. -/
def dispatch (s : Session) : Command → Session × Answer
  | .make f target => s.withValue f fun s v => (s.keep target v, .view (s.view v))
  | .drop name =>
      ({ s with registers := s.registers.filter (·.1 != name) },
        .flag (s.registers.lookup name).isSome)
  | .text f => s.withValue f fun s v => (s, s.answerText v)
  | .debugValue f => s.withValue f fun s v => (s, s.debugValue v)
  | .debug subject => (s, .text (s.debug subject))
  | .inspect f => s.withValue f fun s v => (s, .inspection (s.inspect v))
  | .equal f g =>
      s.withTwo f g fun s a b =>
        (s, .equality (s.heap.equal a b) (s.heap.equal b a)
          (s.heap.hashKey a == s.heap.hashKey b))
  | .getAttr f name target =>
      s.withValue f fun s v =>
        match s.heap.attribute? v name with
        | some (.value x) => (s.keep target x, .attributeValue (s.view x))
        | some (.method m) => (s, .attributeMethod m)
        | none => (s, .noAttribute)
  | .setAttr f g name =>
      s.withTwo f g fun s receiver v =>
        s.attempt (s.heap.attributeChange receiver name v) fun (c, o) =>
          (s.setHeap (s.heap.setObject c o), .ok)
  | .mark f => s.withValue f mark
  | .unmark f => s.withValue f unmark
  | .edges f => s.withValue f fun s v => (s, s.edges v)
  | .list f none i => s.withValue f fun s v => s.listing v i
  | .list f (some g) i =>
      s.withTwo f g fun s v item =>
        match v with
        | .ref c => (s.setHeap (s.heap.pushItem c item)).listing v i
        | _ => (s, .malformed)
  | .push f =>
      s.withValue f fun s v =>
        let s := s.setVm (s.vm.push v)
        (s, .number s.vm.depth)
  | .pop target =>
      let (s, v) := s.pop target
      (s, .view? (v.map s.view))
  | .peek => (s, .view? (s.vm.peek?.map s.view))
  | .stack => (s, .stack (s.vm.stack.toList.map s.view) s.vm.error)
  | .callFunction f fs =>
      s.withValue f fun s function => s.withAll fs fun s args =>
        expecting (s.here (.call function args)) fun s _ =>
          (s, .laidOut s.vm.depth s.vm.error)
  | .exec =>
      expecting (s.here .run) fun s _ =>
        (s, .executed (s.vm.peek?.map s.view) s.vm.depth s.vm.error)
  | .call f fs target sort =>
      s.withValue f fun s function => s.withAll fs fun s args => s.call function args target sort
  | .newVm => s.newVm
  | .collect =>
      expecting (s.here (.request .collect)) fun s o =>
        match o with
        | .value (.bool b) => (s, .flag b)
        | _ => (s, .stuck)
  | .safepoint => expecting (s.here .safepoint) fun s _ => (s, .number s.collector.collections)
  | .garbage n =>
      expecting (s.here (.litter n)) fun s _ => (s, .number s.collector.allocCount)
  | .statistics => (s, s.answerStatistics)
  | .stop => expecting (s.here .pause) fun s _ => (s, .flag s.isPaused)
  | .resume => s.resume
  | .pause =>
      expecting (s.here .pause) fun s _ =>
        ({ s with pauses := s.pauses + 1 }, .flag s.isPaused)
  | .unpause =>
      if s.pauses = 0 then (s, .flag s.isPaused) else { s with pauses := s.pauses - 1 }.resume
  | .setLimit n =>
      let s := s.setCollector (s.collector.setLimit n)
      (s, .text (toString s.collector.limit.toNat))
  | .rootCount => (s, .number s.collector.rootCount)
  | .root fs name => s.withAll fs fun s vs => s.root vs name
  | .rootPush f name =>
      s.withValue f fun s v =>
        match s.rooted.lookup name with
        | some id =>
            let s := s.setCollector (s.collector.pin id v)
            (s, .rootValues ((s.collector.pinned id).toList.map s.view))
        | none => (s, .malformed)
  | .rootGet name i =>
      match s.rooted.lookup name with
      | some id =>
          let vs := s.collector.pinned id
          (s, .rootItem vs.isEmpty (vs[i]?.map s.view))
      | none => (s, .malformed)
  | .unroot name => s.guarded (s.unroot name) fun s => (s, .number s.collector.rootCount)
  | .addRoot fs name guarded => s.withAll fs fun s vs => s.addRoot vs name guarded
  | .removeRoot name =>
      match s.disarmed.lookup name with
      | some id =>
          s.guarded (s.collector.removeRoot id) fun g => (s.setCollector g, .number g.rootCount)
      | none => (s, .malformed)
  | .worker fs target before after => s.worker fs target before after
  | .secondStorage => expecting (s.here .enroll) fun s _ => (s, .text "no panic")
  | .storageTwice => s.guarded storageTwice fun _ => (s, .text "no panic")
  | .foreignVm => s.guarded s.foreignVm fun _ => (s, .text "no panic")
  | .nestedBlocking => expecting (s.here .nest) fun s _ => (s, .text "no panic")
  | .futureSet f g =>
      s.withTwo f g fun s v future =>
        match future, s.heap.future? future with
        | .ref c, some _ => s.attempt (s.heap.resolve c v) fun h => (s.setHeap h, .ok)
        | _, _ => (s, .malformed)
  | .future f waitMs wait => s.withValue f fun s v => s.future v waitMs wait
  | .mutex f action elsewhere => s.withValue f fun s v => s.mutex v action elsewhere
  | .sameLock f g =>
      s.withTwo f g fun s a b =>
        match s.heap.mutex? a, s.heap.mutex? b with
        | some l, some m => (s, .flag (l == m))
        | _, _ => (s, .malformed)
  | .start f fs target =>
      s.withValue f fun s function => s.withAll fs fun s args => s.start function args target
  | .settle => s.settle
  | .join fs tagged sort => s.withAll fs fun s vs => s.join vs s.store.isolates.poll tagged sort
  | .joinLate fs sort => s.withAll fs fun s vs => s.joinLate vs sort
  | .library l =>
      s.attempt (s.store.addLibrary l) fun st =>
        (s.setStore st, .number st.collector.immortalCount)
  | .global name target =>
      match s.store.global? name with
      | some v => (s.keep target v, .view? (some (s.view v)))
      | none => (s, .view? none)
  | .setGlobal f name => s.withValue f fun s v => (s.setStore (s.store.setGlobal name v), .ok)
  | .arity arity name got => s.attempt (arity.check name got) fun _ => (s, .ok)
  | .expect check fs i => s.withAll fs fun s vs => s.expect check vs i
  | .failure f => (s, .failureParts f)
  | .methods type => (s, .methods ((Method.table type).map fun m => (m.name, m.arity)))
  | .natives => (s, .methods (Native.sync.map fun f => (f.name, f.arity)))

/-- Carry out a command and let go of its temporaries. -/
def perform (s : Session) (c : Command) : Session × Answer :=
  let (s, answer) := s.dispatch c
  ({ s with temporaries := #[] }.refresh, answer)

/-- Carry out commands in order. -/
def run : Session → List Command → List Answer
  | _, [] => []
  | s, c :: rest =>
      let (s, answer) := s.perform c
      answer :: s.run rest

/-- Whether there are threads to be had: their stacks have to fit into the address space. -/
def shortage? (isolates : IsolateSettings) : Option String :=
  match isolates.stackSize with
  | none => none
  | some n =>
      if n.toNat < 1 <<< 47 then none else some "Resource temporarily unavailable (os error 11)"

/-- A machine with a registered host thread, and the root of the registers. -/
def new (collector : CollectorSettings) (isolates : IsolateSettings) (fuel : Nat) :
    Except Failure Session :=
  match Store.new collector isolates with
  | .error c => .error c.failure
  | .ok store =>
      let (w, host) := World.addHost { store := { store with shortage := shortage? isolates } }
      let (w, _) := w.perform fuel host .enroll
      let (w, _) := w.perform fuel host .equip
      let (g, registerRoot) := w.store.collector.addRoot (.pinned #[])
      .ok { world := { w with store := { w.store with collector := g } }, host, registerRoot, fuel }

end Session

end ScriptCore
