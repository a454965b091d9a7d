import ScriptCore.World

/-!
# Running a world

Any order of steps of ready threads is a possible run.  `World.run` follows one of them, in rounds.

* In a round each thread may make so many steps, and the round takes as long as these steps take:
  threads run side by side, and a thread that interprets for long does not keep the others from
  their work.
* Within a round a chosen thread goes first whenever it can; then a thread that is running goes on
  until it has to wait; then those that wait come in the order in which they began to.
* A lock that is given back goes at once to the thread that has waited for it longest.
* When no thread can step, the next round begins at the next moment some thread waits for.
* The run ends when the chosen thread has nothing left to do.

The definitions:

* `Task`, `assign`: give a host thread something to do;
* `turn`: a step that keeps the line of the threads and counts for the round;
* `pick?`: who goes next in a round; `nextRound?`: when the next round begins;
* `run`, `perform`: run until it is done.
-/

namespace ScriptCore

/-- What a host thread can be told to do. -/
inductive Task
  /-- Register with the collector. -/
  | enroll
  /-- Get a new machine. -/
  | equip
  /-- Leave the collector. -/
  | retire
  /-- Begin a pause. -/
  | pause
  /-- A point at which a requested collection may run. -/
  | safepoint
  /-- Lay out a call. -/
  | call (function : Value) (args : Array Value)
  /-- Interpret until every frame has returned. -/
  | run
  /-- Allocate so many texts that nobody holds. -/
  | litter (n : Nat)
  /-- Take a lock outside of a blocking region. -/
  | lock (l : LockId)
  /-- Enter a blocking region inside a blocking region. -/
  | nest
  | request (r : Request)
  deriving DecidableEq, Repr

namespace World

/-- Give a host thread a task. -/
def assign (w : World) (t : ThreadId) : Task → World
  | .enroll =>
      if (w.thread t).storage.isSome then
        w.setControl t (.finished (.panicked (.secondStorage (t + 1))))
      else w.setControl t .enrolling
  | .equip => w.setControl t .equipping
  | .retire => w.setControl t .retiring
  | .pause =>
      if w.collecting then (w.park t).setControl t (.lingering (.pause none))
      else w.pause t none
  | .safepoint =>
      if w.store.collector.requested then w.setControl t (.rendezvous false (.reply .host))
      else w.setControl t (.finished .done)
  | .call function args => w.enter t function args
  | .run => w.setControl t .running
  | .litter n => w.setControl t (.littering n)
  | .lock l => w.setControl t (.waiting (.lock l .check) (.reply .host))
  | .nest => w.nest t
  | .request r => w.request t r .host

/-- The thread has nothing left to do. -/
def atRest (w : World) (t : ThreadId) : Bool :=
  match w.control t with
  | .idle | .finished _ | .gone => true
  | _ => false

/-- The moment a thread waits for. -/
def deadline? (c : Control) : Option Nat :=
  match c, c.wait? with
  | .resolving ((d, _) :: _), _ => some d
  | _, some (.until d) | _, some (.resolvedBy _ d) => some d
  | _, _ => none

/-- The next moment some thread waits for. -/
def nextMoment? (w : World) : Option Nat :=
  let later := w.threads.toList.filterMap fun th =>
    (deadline? th.control).filter (w.store.now < ·)
  later.min?

/-! ### Who goes next -/

/-- Give a thread its place in line after it did something: one that can go on comes first, one that
has to wait comes last, and one that is gone has no place. -/
def lineUp (w : World) (t : ThreadId) : World :=
  let others := w.line.erase t
  { w with
    line := if w.control t == .gone then others
      else if w.ready t then t :: others
      else others ++ [t] }

/-- The thread that has waited longest for a lock that is free now. -/
def heir? (w : World) : Option ThreadId :=
  if w.store.locks.all (·.held) then none
  else
    w.line.find? fun t =>
      match (w.control t).wait? with
      | some (.lock l .acquire) => !(w.store.lock l).held
      | _ => false

/-- Let a lock that has been given back go to its heir, who keeps the place in line. -/
def handOver (w : World) : World :=
  match w.heir? with
  | some t => w.step t
  | none => w

/-! ### Rounds -/

/-- The steps a thread may make in a round. -/
def roundSteps : Nat := 1000

/-- The time these steps take, in nanoseconds. -/
def roundTime : Nat := 200000

/-- Begin a round at a moment: nobody has made a step in it. -/
def beginRound (w : World) (now : Nat) : World :=
  { w with
    store := { w.store with now }
    threads := w.threads.map fun th => { th with spent := 0 } }

/-- A step of a thread, which counts for the round and gives the thread a new place in line. -/
def turn (w : World) (t : ThreadId) : World :=
  let w := (w.step t).modifyThread t fun th => { th with spent := th.spent + 1 }
  (w.lineUp t).handOver

/-- The thread can step and has steps left in the round. -/
def inTurn (w : World) (t : ThreadId) : Bool :=
  decide ((w.thread t).spent < roundSteps) && w.ready t

/-- The thread that goes next in the round: the chosen one if it can, else the first in line that
can. -/
def pick? (w : World) (chosen : ThreadId) : Option ThreadId :=
  if w.inTurn chosen then some chosen else w.line.find? w.inTurn

/-- Only a thread that can step goes next. -/
theorem ready_of_pick? {w : World} {chosen t : ThreadId} (h : w.pick? chosen = some t) :
    w.ready t = true := by
  have hturn : w.inTurn t = true := by
    unfold pick? at h
    split at h
    · rename_i hchosen
      exact Option.some.inj h ▸ hchosen
    · exact List.find?_some h
  exact (Bool.and_eq_true_iff.mp hturn).2

/-- The moment the next round begins.  If no thread can go on then, it is the next moment some
thread waits for. -/
def nextRound? (w : World) : Option Nat :=
  if w.line.any w.ready then some (w.store.now + roundTime) else w.nextMoment?

/-! ### Running -/

/-- Run until the chosen thread is at rest, for at most so many steps.  The flag says whether it is
at rest. -/
def run : Nat → ThreadId → World → World × Bool
  | 0, chosen, w => (w, w.atRest chosen)
  | fuel + 1, chosen, w =>
      if w.atRest chosen then (w, true)
      else
        match w.pick? chosen with
        | some t => run fuel chosen (w.turn t)
        | none =>
            match w.nextRound? with
            | some d => run fuel chosen (w.beginRound d)
            | none => (w, false)

/-- A run ends at once when the chosen thread is at rest. -/
theorem run_of_atRest {w : World} {chosen : ThreadId} (h : w.atRest chosen = true) (fuel : Nat) :
    run fuel chosen w = (w, true) := by
  cases fuel <;> simp [run, h]

/-- A run says that the chosen thread is at rest exactly when it is. -/
theorem run_snd (fuel : Nat) (chosen : ThreadId) (w : World) :
    (run fuel chosen w).2 = (run fuel chosen w).1.atRest chosen := by
  fun_induction run fuel chosen w <;> simp_all

/-- A run that has come to rest is not changed by more fuel. -/
theorem run_add {fuel : Nat} {chosen : ThreadId} {w : World}
    (h : (run fuel chosen w).2 = true) (more : Nat) :
    run (fuel + more) chosen w = run fuel chosen w := by
  induction fuel generalizing w with
  | zero =>
    have hw : w.atRest chosen = true := h
    rw [run_of_atRest hw, run_of_atRest hw]
  | succ fuel ih =>
    rw [Nat.add_right_comm]
    unfold run at h ⊢
    split
    · rfl
    · rename_i hrest
      simp only [hrest] at h
      split
      · rename_i hpick
        simp only [hpick] at h
        exact ih h
      · rename_i hpick
        simp only [hpick] at h
        split
        · rename_i hnext
          simp only [hnext] at h
          exact ih h
        · rfl

/-- Have a host thread carry out a task, beginning with a round.  No outcome means that it did not
come to an end. -/
def perform (w : World) (fuel : Nat) (t : ThreadId) (task : Task) : World × Option Outcome :=
  let w := ((w.assign t task).lineUp t).handOver
  let (w, _) := (w.beginRound w.store.now).run fuel t
  match w.control t with
  | .finished outcome => (w.setControl t .idle, some outcome)
  | _ => (w, none)

/-- A new host thread. -/
def addHost (w : World) : World × ThreadId := w.add {}

/-- A thread is gone. -/
def dismiss (w : World) (t : ThreadId) : World :=
  (w.setControl t .gone).lineUp t

end World

end ScriptCore
