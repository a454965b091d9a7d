import ScriptCore.Thread

/-!
# All threads together

A world is the shared store and the threads.  `World.step w t` lets thread `t` make its next atomic
step; `World.ready w t` says whether it can.  Which thread steps next is left open here.

* `rootValues`: what a collection starts from;
* `request`, `deliver`: how a thread asks for something it may have to wait for and how it gets it;
* `launch`, `publish`: the beginning and the end of an isolate;
* `joinPass`: one pass of a join;
* `ready`, `step`.
-/

namespace ScriptCore

/-- The shared store and the threads; a thread's name is its place. -/
structure World where
  store : Store
  threads : Array Thread := #[]
  /-- The threads that are not gone, in the order in which they are offered a turn. -/
  line : List ThreadId := []
  deriving Repr

namespace World

def thread (w : World) (t : ThreadId) : Thread := w.threads.getD t {}

def control (w : World) (t : ThreadId) : Control := (w.thread t).control

def modifyThread (w : World) (t : ThreadId) (f : Thread → Thread) : World :=
  { w with threads := w.threads.modify t f }

def setControl (w : World) (t : ThreadId) (c : Control) : World :=
  w.modifyThread t fun th => { th with control := c }

def setVm (w : World) (t : ThreadId) (vm : Vm) : World :=
  w.modifyThread t fun th => { th with vm }

/-- Take the machine out of a thread, which is left with an empty one. -/
def takeVm (w : World) (t : ThreadId) : World × Vm :=
  let vm := (w.thread t).vm
  (w.setVm t {}, vm)

/-- A new thread, last in line. -/
def add (w : World) (th : Thread) : World × ThreadId :=
  let t := w.threads.size
  ({ w with threads := w.threads.push th, line := w.line ++ [t] }, t)

def modifyStore (w : World) (f : Store → Store) : World := { w with store := f w.store }

def modifySync (w : World) (f : Rendezvous → Rendezvous) : World :=
  w.modifyStore (·.modifySync f)

def collecting (w : World) : Bool := w.store.collector.sync.collecting

/-- The values a registered root holds. -/
def heldBy (w : World) : Holder → List Value
  | .globals => w.store.globals.map (·.2)
  | .stack t => (w.thread t).vm.stack.toList
  | .pinned vs => vs.toList

/-- The values all registered roots hold. -/
def rootValues (w : World) : List Value :=
  w.store.collector.roots.flatMap fun r => w.heldBy r.2

/-- Mark and sweep from all registered roots. -/
def collect (w : World) : World :=
  { w with store := { w.store with collector := w.store.collector.collect w.rootValues } }

/-- Take a root out of the registry if it is there. -/
def dropRoot (w : World) (id : RootId) : World :=
  match w.store.collector.removeRoot id with
  | .ok g => { w with store := { w.store with collector := g } }
  | .error _ => w

/-! ### Where a machine goes on -/

/-- All frames have returned or the call has failed. -/
def endRun (w : World) (t : ThreadId) : World :=
  match (w.thread t).role with
  | .host => w.setControl t (.finished .done)
  | .isolate _ => w.setControl t (.pausing .returned)

/-- The outermost call is laid out. -/
def endEnter (w : World) (t : ThreadId) : World :=
  match (w.thread t).role with
  | .host => w.setControl t (.finished .done)
  | .isolate _ => w.setControl t .running

/-- A panic leaves the machine as it is. -/
def interrupt (w : World) (t : ThreadId) (p : Panic) : World :=
  match (w.thread t).role with
  | .host => w.setControl t (.finished (.panicked p))
  | .isolate _ => w.setControl t (.pausing (.panicked p))

/-- A registered thread counts as parked from now on. -/
def park (w : World) (t : ThreadId) : World :=
  if (w.thread t).storage.isSome then w.modifySync (·.park) else w

/-- A registered thread does not count as parked any more. -/
def unpark (w : World) (t : ThreadId) : World :=
  if (w.thread t).storage.isSome then w.modifySync (·.unpark) else w

/-- Enter a blocking region. -/
def block (w : World) (t : ThreadId) (wait : Wait) (k : After) : World :=
  (w.park t).setControl t (.blocked wait k)

/-- Enter a blocking region from code that may be in one: regions do not nest. -/
def enterRegion (w : World) (t : ThreadId) (wait : Wait) (k : After) : Except Panic World :=
  match w.control t with
  | .blocked _ _ => .error .nestedBlocking
  | _ => .ok (w.block t wait k)

/-- Enter a blocking region inside a blocking region.  The panic leaves the outer one, which may be
held up by a running collection. -/
def nest (w : World) (t : ThreadId) : World :=
  let w := w.block t (.until w.store.now) (.reply .host)
  match w.enterRegion t (.until w.store.now) (.reply .host) with
  | .ok w => w
  | .error p => w.setControl t (.leaving (.panicked p) (.reply .host))

/-- Go on with a machine after an instruction or call that did not wait. -/
def proceed (w : World) (t : ThreadId) (outermost : Bool) (vm : Vm) : Option Cause → World
  | none =>
      let w := w.setVm t vm
      if outermost then w.endEnter t else w.setControl t .running
  | some c =>
      let (vm, s) := vm.fail ((w.thread t).caller t) c w.store
      let w := { w with store := s }.setVm t vm
      if outermost then w.endEnter t else w.endRun t

/-- Hand the outcome of an operation to whoever asked for it. -/
def deliver (w : World) (t : ThreadId) (consumer : Consumer) (outcome : Outcome) : World :=
  match consumer with
  | .host => w.setControl t (.finished outcome)
  | .call callee outermost =>
      let me := (w.thread t).caller t
      let (w, vm) := w.takeVm t
      match outcome with
      | .value v => w.proceed t outermost ((vm.truncate callee).push v) none
      | .values vs =>
          let (s, c) := w.store.make me.storage (.list vs)
          { w with store := s }.proceed t outermost ((vm.truncate callee).push (.ref c)) none
      | .done | .absent => w.proceed t outermost ((vm.truncate callee).push .nil) none
      | .failed c => w.proceed t outermost vm (some c)
      | .panicked p => (w.setVm t vm).interrupt t p

/-! ### Isolates -/

/-- Start an isolate.  The future exists from then on; if no thread can be had, everything else is
taken back. -/
def launch (w : World) (t : ThreadId) (function : Value) (args : Array Value)
    (consumer : Consumer) : World :=
  let (s, future) := w.store.make ((w.thread t).caller t).storage (.future none)
  let (g, transfer) := s.collector.addRoot (.pinned (#[.ref future, function] ++ args))
  let id := s.spawned
  let name := s.isolates.threadName id
  let w := { w with store := { s with collector := g, spawned := id + 1, creating := false } }
  if name.toList.contains (Char.ofNat 0) then
    (w.dropRoot transfer).interrupt t (.threadNameWithNul name)
  else
    match s.shortage with
    | some why => (w.dropRoot transfer).deliver t consumer (.failed (.spawnFailed why))
    | none =>
        let isolate : Thread :=
          { name, role := .isolate ⟨id, function, args, future, transfer⟩, control := .enrolling }
        let w := (w.add isolate).1.modifyStore fun s => { s with live := s.live + 1 }
        w.deliver t consumer (.value (.ref future))

/-- Publish how an isolate ended: its value or error, or an error about its panic. -/
def publish (w : World) (t : ThreadId) (i : Isolate) (ending : Ending) : World :=
  let th := w.thread t
  let storage := (th.caller t).storage
  let (s, vm, isError, payload) : Store × Vm × Bool × Value :=
    match ending with
    | .returned => (w.store, th.vm.dropTop, th.vm.error, th.vm.peek?.getD .nil)
    | .panicked p =>
        let cause := Cause.isolatePanicked (p.message?.getD "unknown panic")
        let (s, c) := w.store.make storage (.error cause.failure)
        (s, th.vm, true, .ref c)
  let (s, r) := s.make storage (.result isError payload)
  let s := match s.heap.resolve i.future (.ref r) with
    | .ok h => s.withHeap h
    | .error _ => s
  { w with store := s }.setVm t vm |>.setControl t .resuming

/-! ### Registration with the collector -/

/-- Register a thread: it gets an allocation list. -/
def register (w : World) (t : ThreadId) : World :=
  let (g, storage) := w.store.collector.enroll
  { w with store := { w.store with collector := g } }.modifyThread t fun th =>
    { th with storage := some storage }

/-- Give a thread a fresh machine whose stack is a root. -/
def equip (w : World) (t : ThreadId) : World :=
  let (g, root) := w.store.collector.addRoot (.stack t)
  { w with store := { w.store with collector := g } }.modifyThread t fun th =>
    { th with vm := {}, root := some root }

/-- Take a thread's allocation list out of the collector. -/
def unregister (w : World) (t : ThreadId) : Except Panic World :=
  match (w.thread t).storage with
  | some id =>
      (w.store.collector.retire id).map fun g =>
        { w with store := { w.store with collector := g } }.modifyThread t fun th =>
          { th with storage := none }
  | none => .ok w

/-- Leave the collector; the stack stays a root for one more step. -/
def leave (w : World) (t : ThreadId) : World :=
  match w.unregister t with
  | .ok w => w.setControl t .unrooting
  | .error p => w.interrupt t p

/-- The stack is no root any more. -/
def unroot (w : World) (t : ThreadId) : World :=
  let th := w.thread t
  let w := match th.root with
    | some id => (w.dropRoot id).modifyThread t fun th => { th with root := none }
    | none => w
  match th.role with
  | .host => w.setControl t (.finished .done)
  | .isolate _ => (w.modifyStore fun s => { s with live := s.live - 1 }).setControl t .gone

/-- Begin a pause. -/
def pause (w : World) (t : ThreadId) (ending : Option Ending) : World :=
  (w.modifySync (·.pause)).setControl t <|
    match ending with
    | some e => .publishing e
    | none => .finished .done

/-! ### Joins -/

/-- One pass of a join: hand over everything, or wait for the first future that is missing. -/
def joinPass (w : World) (t : ThreadId) (j : Join) (consumer : Consumer) : World :=
  let h := w.store.heap
  let g := w.store.collector
  let results := g.pinned j.results ++ (Join.arrived h j.pending).toArray
  match Join.missing h j.pending with
  | [] =>
      let values := if j.tagged then results else results.map (Join.payload h)
      ((w.dropRoot j.results).dropRoot j.anchor).deliver t consumer (.values values)
  | first :: rest =>
      let w := { w with store := { w.store with collector := g.setPinned j.results results } }
      w.block t (.resolvedBy first (w.store.now + j.poll))
        (.join { j with pending := first :: rest } consumer)

/-- Begin a join.  It fails before anything is registered. -/
def joinStart (w : World) (t : ThreadId) (fs : Array Value) (poll : Nat) (tagged : Bool)
    (consumer : Consumer) : World :=
  match Join.futures w.store.heap fs.toList with
  | .error c => w.deliver t consumer (.failed c)
  | .ok [] => w.deliver t consumer (.values #[])
  | .ok pending =>
      let (g, anchor) := w.store.collector.addRoot (.pinned fs)
      let (g, results) := g.addRoot (.pinned #[])
      { w with store := { w.store with collector := g } }.joinPass t
        { pending, anchor, results, poll, tagged } consumer

/-! ### Requests -/

/-- Begin an operation that may have to wait. -/
def request (w : World) (t : ThreadId) (r : Request) (consumer : Consumer) : World :=
  match r with
  | .collect => w.setControl t (.rendezvous true (.reply consumer))
  | .sleep ns => w.block t (.until (w.store.now + ns)) (.reply consumer)
  | .await f => w.block t (.resolved f) (.reply consumer)
  | .awaitFor f ns => w.block t (.resolvedBy f (w.store.now + ns)) (.reply consumer)
  | .lock l => w.block t (.lock l .check) (.reply consumer)
  | .start function args => w.block t .creation (.start function args consumer)
  | .join fs poll tagged => w.joinStart t fs poll tagged consumer
  | .settle => w.block t .settled (.reply consumer)

/-- Carry on with a machine after an instruction or a call. -/
def afterSignal (w : World) (t : ThreadId) (outermost : Bool) (vm : Vm) : Signal → World
  | .next => w.proceed t outermost vm none
  | .failed c => w.proceed t outermost vm (some c)
  | .panicked p => (w.setVm t vm).interrupt t p
  | .suspended callee r => (w.setVm t vm).request t r (.call callee outermost)

/-- One instruction of a thread. -/
def execute (w : World) (t : ThreadId) : World :=
  let me := (w.thread t).caller t
  let (w, vm) := w.takeVm t
  let (vm, s, signal) := vm.step me w.store
  { w with store := s }.afterSignal t false vm signal

/-- Lay out a call of a thread. -/
def enter (w : World) (t : ThreadId) (function : Value) (args : Array Value) : World :=
  let me := (w.thread t).caller t
  let (w, vm) := w.takeVm t
  let (vm, s, signal) := vm.enter me function args w.store
  { w with store := s }.afterSignal t true vm signal

/-- Go on after having been parked. -/
def continueWith (w : World) (t : ThreadId) (k : After) (outcome : Outcome) : World :=
  match k with
  | .instruction => w.setControl t .stepping
  | .reply consumer => w.deliver t consumer outcome
  | .start function args consumer => w.launch t function args consumer
  | .join j consumer => w.joinPass t j consumer
  | .pause ending => w.pause t ending
  | .retire => w.leave t

/-- Make the step a wait has come to: it leads to another wait or to an outcome. -/
def passWait (w : World) (t : ThreadId) (wait : Wait) : World × (Wait ⊕ Outcome) :=
  match wait with
  | .until _ => (w, .inr (.value .nil))
  | .resolved f | .resolvedBy f _ =>
      match w.store.heap.resolved? f with
      | some v => (w, .inr (.value v))
      | none => (w, .inr .absent)
  | .lock l phase =>
      let (lock, progress) := (w.store.lock l).advance t phase
      (w.modifyStore (·.setLock l lock),
        match progress with
        | .next phase => .inl (.lock l phase)
        | .taken => .inr (.value .nil)
        | .refused => .inr (.failed .lockedByThisThread))
  | .creation => (w.modifyStore fun s => { s with creating := true }, .inr .done)
  | .settled | .ended _ => (w, .inr .done)

/-- What a thread waits for has come. -/
def passable (w : World) : Wait → Bool
  | .until d => decide (d ≤ w.store.now)
  | .resolved f => (w.store.heap.resolved? f).isSome
  | .resolvedBy f d => (w.store.heap.resolved? f).isSome || decide (d ≤ w.store.now)
  | .lock l phase => (w.store.lock l).canAdvance phase
  | .creation => !w.store.creating
  | .settled => w.store.live == 0
  | .ended t => w.control t == .gone

/-- The thread can make its next step. -/
def ready (w : World) (t : ThreadId) : Bool :=
  match w.control t with
  | .idle | .finished _ | .gone => false
  | .lingering _ | .enrolling => !w.collecting
  | .leaving _ _ => !w.collecting || (w.thread t).storage.isNone
  | .gathering _ => w.store.collector.sync.gathered
  | .blocked wait _ | .waiting wait _ => w.passable wait
  | .resolving ((d, _) :: _) => decide (d ≤ w.store.now)
  | _ => true

/-- The next atomic step of a thread. -/
def step (w : World) (t : ThreadId) : World :=
  let th := w.thread t
  match th.control with
  | .idle | .finished _ | .gone => w
  | .running =>
      if th.vm.frames.isEmpty then w.endRun t
      else if w.store.collector.requested then w.setControl t (.rendezvous false .instruction)
      else w.execute t
  | .stepping => w.execute t
  | .rendezvous force k =>
      let g := w.store.collector
      if g.sync.collecting then (w.park t).setControl t (.lingering k)
      else
        let w := w.modifyStore (·.clearRequest)
        if g.sync.paused > 0 || !(force || g.due) then
          w.continueWith t k (.value (.bool false))
        else (w.modifySync (·.convene)).setControl t (.gathering k)
  | .lingering k => (w.unpark t).continueWith t k (.value (.bool true))
  | .gathering k => w.setControl t (.sweeping k)
  | .sweeping k => (w.collect.modifySync (·.dismiss)).continueWith t k (.value (.bool true))
  | .blocked wait k =>
      match w.passWait t wait with
      | (w, .inl wait) => w.setControl t (.blocked wait k)
      | (w, .inr outcome) => w.setControl t (.leaving outcome k)
  | .waiting wait k =>
      match w.passWait t wait with
      | (w, .inl wait) => w.setControl t (.waiting wait k)
      | (w, .inr outcome) => w.continueWith t k outcome
  | .leaving outcome k => (w.unpark t).continueWith t k outcome
  | .enrolling =>
      (w.register t).setControl t <|
        match th.role with
        | .host => .finished .done
        | .isolate _ => .equipping
  | .equipping =>
      (w.equip t).setControl t <|
        match th.role with
        | .host => .finished .done
        | .isolate _ => .entering
  | .entering =>
      match th.role with
      | .host => w.setControl t (.finished .done)
      | .isolate i => w.enter t i.function i.args
  | .pausing ending =>
      if w.collecting then (w.park t).setControl t (.lingering (.pause (some ending)))
      else w.pause t (some ending)
  | .publishing ending =>
      match th.role with
      | .host => w.setControl t (.finished .done)
      | .isolate i => w.publish t i ending
  | .resuming => (w.modifySync fun r => r.resume?.getD r).setControl t .releasing
  | .releasing =>
      match th.role with
      | .host => w.setControl t .retiring
      | .isolate i => (w.dropRoot i.transfer).setControl t .retiring
  | .retiring =>
      if w.collecting then (w.park t).setControl t (.lingering .retire)
      else w.leave t
  | .unrooting => w.unroot t
  | .littering 0 => w.setControl t (.finished .done)
  | .littering (n + 1) =>
      let (s, _) := w.store.make (th.caller t).storage (.str "garbage")
      { w with store := s }.setControl t (.littering n)
  | .resolving agenda =>
      match agenda with
      | [] => w.setControl t .gone
      | (_, f, v) :: rest =>
          let w := match w.store.heap.resolve f v with
            | .ok h => w.modifyStore (·.withHeap h)
            | .error _ => w
          w.setControl t (.resolving rest)

end World

end ScriptCore
