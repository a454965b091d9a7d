import ScriptCore.Proofs.Collector.Accounts
import ScriptCore.Proofs.World.Runs

/-!
# When collections run

A machine with one thread, which allocates, sets the limit, begins and ends pauses, works on roots,
polls safepoints and forces collections. What it has done decides whether a safepoint collects.

* `Mutation`: what the thread does; `Mutation.run`: a history of it, newest first;
* `World.single`: the machine at the beginning;
* `Reached`: since the last rendezvous the threshold has been reached;
* `pauses`: the pauses that are active;
* `World.Lone`: what is to be known of a machine with one thread;
* `Governed`: what the history says about the trigger;
* `collections_on_demand`: it does so after every history.
-/

namespace ScriptCore

/-- What the only thread of a machine does. -/
inductive Mutation
  | make (o : Object)
  | setLimit (limit : UInt64)
  | stop
  | resume
  | safepoint
  | collect
  /-- Register a root, add a value to it, give it up. -/
  | root (vs : Array Value)
  | pin (id : RootId) (v : Value)
  | unroot (id : RootId)
  deriving DecidableEq

namespace Mutation

/-- What an operation does, and what comes of those that the thread may have to wait for. -/
def apply (fuel : Nat) (w : World) : Mutation → World × Option Outcome
  | .make o => (w.modifyStore fun s => (s.make ((w.thread 0).caller 0).storage o).1, none)
  | .setLimit limit =>
      (w.modifyStore fun s => { s with collector := s.collector.setLimit limit }, none)
  | .stop => w.perform fuel 0 .pause
  | .resume => (w.modifySync fun r => r.resume?.getD r, none)
  | .safepoint => w.perform fuel 0 .safepoint
  | .collect => w.perform fuel 0 (.request .collect)
  | .root vs =>
      (w.modifyStore fun s => { s with collector := (s.collector.addRoot (.pinned vs)).1 }, none)
  | .pin id v => (w.modifyStore fun s => { s with collector := s.collector.pin id v }, none)
  | .unroot id => (w.dropRoot id, none)

/-- What a history leads to. -/
def run (fuel : Nat) (w : World) : List Mutation → World
  | [] => w
  | m :: past => (m.apply fuel (run fuel w past)).1

/-- Only allocations and new limits can reach the threshold. -/
def raises : Mutation → Bool
  | .make _ | .setLimit _ => true
  | _ => false

/-- The operation is a rendezvous: a forced collection, or a safepoint with a request. -/
def meets (g : Collector) : Mutation → Bool
  | .collect => true
  | .safepoint => g.requested
  | _ => false

/-- The operation may collect. -/
def mayCollect : Mutation → Bool
  | .collect | .safepoint => true
  | _ => false

end Mutation

/-- A machine with one thread, which is registered. -/
def World.single (s : Store) : World := (World.addHost { store := s }).1.register 0

/-- Since the last rendezvous an allocation or a new limit has left a collection due. -/
inductive Reached (fuel : Nat) (w : World) : List Mutation → Prop
  | now {m : Mutation} {past : List Mutation} : m.raises = true →
      (Mutation.run fuel w (m :: past)).store.collector.due = true → Reached fuel w (m :: past)
  | since {m : Mutation} {past : List Mutation} : Reached fuel w past →
      m.meets (Mutation.run fuel w past).store.collector = false → Reached fuel w (m :: past)

/-- The pauses that are active after a history. -/
def pauses : List Mutation → Nat
  | [] => 0
  | .stop :: past => pauses past + 1
  | .resume :: past => pauses past - 1
  | _ :: past => pauses past

/-- At no point of a part of a history have there been more ends than beginnings of pauses, so what
was paused before is paused all the time. -/
def Unresumed (part : List Mutation) : Prop :=
  ∀ earlier, earlier <:+ part → earlier.count .resume ≤ earlier.count .stop

/-! ### A machine with one thread -/

/-- The thread's next step, its machine, and what is shared. -/
structure World.Lone (w : World) (spent : Nat) (control : Control) (vm : Vm)
    (globals : List (String × Value)) (g : Collector) : Prop where
  size : w.threads.size = 1
  spent : (w.thread 0).spent = spent
  control : w.control 0 = control
  vm : (w.thread 0).vm = vm
  globals : w.store.globals = globals
  collector : w.store.collector = g

namespace World

variable {w w' : World} {n n' : Nat} {control c' : Control} {vm : Vm}
  {globals : List (String × Value)} {g g' : Collector}

namespace Lone

theorem thread_eq (h : w.Lone n control vm globals g) {t : ThreadId} (ht : t ≠ 0) :
    w.thread t = {} :=
  thread_of_size_le (h.size.le.trans (Nat.one_le_iff_ne_zero.2 ht))

/-- The roots of a machine with one thread depend on what is known of it. -/
theorem rootValues (h : w.Lone n control vm globals g) (h' : w'.Lone n' c' vm globals g')
    (hroots : g.roots = g'.roots) : w.rootValues = w'.rootValues := by
  unfold World.rootValues
  rw [h.collector, h'.collector, hroots]
  refine congrArg (fun f => List.flatMap f g'.roots) (funext fun r => ?_)
  cases r.2 with
  | globals => simp only [heldBy, h.globals, h'.globals]
  | stack t =>
    by_cases ht : t = 0
    · subst ht
      simp only [heldBy, h.vm, h'.vm]
    · simp only [heldBy, h.thread_eq ht, h'.thread_eq ht]
  | pinned vs => rfl

theorem modifyThread (h : w.Lone n control vm globals g) {f : Thread → Thread}
    (hf : (f (w.thread 0)).vm = vm) :
    (w.modifyThread 0 f).Lone (f (w.thread 0)).spent (f (w.thread 0)).control vm globals g := by
  have hself := thread_modifyThread_self (w := w) (t := 0) f (h.size ▸ Nat.one_pos)
  refine ⟨?_, ?_, ?_, ?_, h.globals, h.collector⟩
  · rw [size_modifyThread, h.size]
  · rw [hself]
  · rw [World.control, hself]
  · rw [hself, hf]

theorem setControl (h : w.Lone n control vm globals g) (c : Control) :
    (w.setControl 0 c).Lone n c vm globals g := by
  have hset := h.modifyThread (f := fun th => { th with control := c }) h.vm
  exact h.spent ▸ hset

theorem withCollector (h : w.Lone n control vm globals g) {g₁ : Collector} (hg : g₁ = g') :
    World.Lone { w with store := { w.store with collector := g₁ } } n control vm globals g' :=
  ⟨h.size, h.spent, h.control, h.vm, h.globals, hg⟩

/-- Nobody waits for a lock. -/
theorem heir?_eq_none (h : w.Lone n control vm globals g) (hwait : control.wait? = none) :
    w.heir? = none := by
  unfold heir?
  split
  · rfl
  · refine List.find?_eq_none.2 fun t _ => ?_
    have hnone : (w.control t).wait? = none := by
      by_cases ht : t = 0
      · rw [ht, h.control, hwait]
      · rw [World.control, h.thread_eq ht]
        rfl
    simp [hnone]

/-- Only the line changes when the thread gets its place in it. -/
theorem lineUp (h : w.Lone n control vm globals g) (hwait : control.wait? = none) :
    (w.lineUp 0).handOver.Lone n control vm globals g := by
  have hline : (w.lineUp 0).Lone n control vm globals g :=
    ⟨h.size, h.spent, h.control, h.vm, h.globals, h.collector⟩
  unfold handOver
  rw [hline.heir?_eq_none hwait]
  exact hline

theorem beginRound (h : w.Lone n control vm globals g) (now : Nat) :
    (w.beginRound now).Lone 0 control vm globals g := by
  have hthread := thread_beginRound w now 0
  refine ⟨?_, ?_, ?_, ?_, h.globals, h.collector⟩
  · exact (Array.size_map ..).trans h.size
  · rw [hthread]
  · rw [World.control, hthread]
    exact h.control
  · rw [hthread]
    exact h.vm

/-- A turn of the thread is a step that counts. -/
theorem turn (h : (w.step 0).Lone n control vm globals g) (hwait : control.wait? = none) :
    (w.turn 0).Lone (n + 1) control vm globals g := by
  have hcounted := h.modifyThread (f := fun th => { th with spent := th.spent + 1 }) h.vm
  rw [show ((w.step 0).thread 0).control = _ from h.control, h.spent] at hcounted
  exact hcounted.lineUp hwait

/-- The run of the thread goes on with a turn of it. -/
theorem run_turn (h : w.Lone n control vm globals g) (hrest : w.atRest 0 = false)
    (hready : w.ready 0 = true) (hspent : n < roundSteps) (fuel : Nat) :
    run (fuel + 1) 0 w = run fuel 0 (w.turn 0) := by
  have hpick : w.pick? 0 = some 0 := by
    have hturn : w.inTurn 0 = true := by
      rw [inTurn, h.spent, decide_eq_true hspent, hready]
      rfl
    rw [pick?, if_pos hturn]
  rw [run, hrest, hpick]
  rfl

end Lone

/-- A task is given, and a round begins. -/
def begun (w : World) (task : Task) : World :=
  let w := ((w.assign 0 task).lineUp 0).handOver
  w.beginRound w.store.now

namespace Lone

theorem begun {task : Task} (h : (w.assign 0 task).Lone n control vm globals g)
    (hwait : control.wait? = none) : (w.begun task).Lone 0 control vm globals g :=
  (h.lineUp hwait).beginRound _

/-- The task is done when the thread says so. -/
theorem perform {task : Task} {fuel : Nat} {o : Outcome}
    (h : (run fuel 0 (w.begun task)).1.Lone n (.finished o) vm globals g) :
    (w.perform fuel 0 task).1.Lone n .idle vm globals g ∧ (w.perform fuel 0 task).2 = some o := by
  have hperform : w.perform fuel 0 task =
      ((run fuel 0 (w.begun task)).1.setControl 0 .idle, some o) := by
    have hcontrol := h.control
    unfold World.begun at hcontrol ⊢
    simp only [World.perform, hcontrol]
  rw [hperform]
  exact ⟨h.setControl .idle, rfl⟩

/-- A task that is done at once. -/
theorem perform_of_finished {task : Task} {o : Outcome}
    (h : (w.assign 0 task).Lone n (.finished o) vm globals g) (fuel : Nat) :
    (w.perform fuel 0 task).1.Lone 0 .idle vm globals g ∧
      (w.perform fuel 0 task).2 = some o := by
  have hbegun := h.begun rfl
  have hrest : (w.begun task).atRest 0 = true := by rw [atRest, hbegun.control]
  refine perform ?_
  rwa [run_of_atRest hrest]

end Lone

end World

/-- Whether a rendezvous collects: no pause is active, and the collection is forced or due. -/
def Collector.collects (g : Collector) (force : Bool) : Bool :=
  decide (g.sync.paused = 0) && (force || g.due)

/-- What a rendezvous of the only thread does. -/
def Collector.met (g : Collector) (force : Bool) (roots : List Value) : Collector :=
  { if g.collects force then g.collect roots else g with requested := false }

/-- One thread is registered, and it is not parked. -/
structure Rendezvous.Solitary (r : Rendezvous) : Prop where
  mutators : r.mutators = 1
  parked : r.parked = 0
  collecting : r.collecting = false

namespace World.Lone

variable {w : World} {n : Nat} {force : Bool} {vm : Vm} {globals : List (String × Value)}
  {g : Collector} {control : Control}

/-- The coordinator of a collection is not held up by anyone. -/
theorem gather (h : w.Lone n (.gathering (.reply .host)) vm globals g)
    (hgathered : g.sync.gathered = true) (hspent : n + 1 < roundSteps) (fuel : Nat) :
    (run (fuel + 2) 0 w).1.Lone (n + 2) (.finished (.value (.bool true))) vm globals
      { g.collect w.rootValues with sync := g.sync.dismiss } := by
  have hready : w.ready 0 = true := by rw [World.ready, h.control, h.collector, hgathered]
  have hgathering : w.step 0 = w.setControl 0 (.sweeping (.reply .host)) := by
    unfold World.step
    simp only [show (w.thread 0).control = _ from h.control]
  have hturn : (w.turn 0).Lone (n + 1) (.sweeping (.reply .host)) vm globals g := by
    refine turn ?_ rfl
    rw [hgathering]
    exact h.setControl _
  have hready' : (w.turn 0).ready 0 = true := by rw [World.ready, hturn.control]
  have hsweeping : (w.turn 0).step 0 = ((w.turn 0).collect.modifySync (·.dismiss)).setControl 0
      (.finished (.value (.bool true))) := by
    unfold World.step
    simp only [show ((w.turn 0).thread 0).control = _ from hturn.control]
    rfl
  have hdone : ((w.turn 0).turn 0).Lone (n + 2) (.finished (.value (.bool true))) vm globals
      { g.collect w.rootValues with sync := g.sync.dismiss } := by
    refine turn ?_ rfl
    rw [hsweeping]
    refine (hturn.withCollector ?_).setControl _
    rw [show (w.turn 0).collect.store.collector = _ from
      congrArg₂ Collector.collect hturn.collector (hturn.rootValues h rfl)]
    rfl
  have hrest : ((w.turn 0).turn 0).atRest 0 = true := by rw [atRest, hdone.control]
  rw [h.run_turn (by rw [atRest, h.control]) hready (by omega),
    hturn.run_turn (by rw [atRest, hturn.control]) hready' hspent, run_of_atRest hrest]
  exact hdone

/-- A rendezvous of the only thread. -/
theorem rendezvous (h : w.Lone 0 (.rendezvous force (.reply .host)) vm globals g)
    (hsync : g.sync.Solitary) (fuel : Nat) :
    ∃ n, (run (fuel + 3) 0 w).1.Lone n (.finished (.value (.bool (g.collects force)))) vm globals
      (g.met force w.rootValues) := by
  have hready : w.ready 0 = true := by rw [World.ready, h.control]
  have hstep : w.step 0 =
      if g.sync.paused > 0 || !(force || g.due) then
        (w.modifyStore (·.clearRequest)).setControl 0 (.finished (.value (.bool false)))
      else ((w.modifyStore (·.clearRequest)).modifySync (·.convene)).setControl 0
        (.gathering (.reply .host)) := by
    unfold World.step
    simp only [show (w.thread 0).control = _ from h.control, h.collector, hsync.collecting]
    rfl
  have hcollects : (g.sync.paused > 0 || !(force || g.due)) = !g.collects force := by
    unfold Collector.collects
    by_cases hpaused : g.sync.paused = 0 <;> simp [hpaused, Nat.pos_iff_ne_zero]
  rw [h.run_turn (by rw [atRest, h.control]) hready (by decide)]
  unfold Collector.met
  cases hforce : g.collects force with
  | false =>
    have hturn : (w.turn 0).Lone 1 (.finished (.value (.bool false))) vm globals
        { g with requested := false } := by
      refine turn ?_ rfl
      rw [hstep, hcollects, hforce]
      refine (h.withCollector ?_).setControl _
      rw [h.collector]
    have hrest : (w.turn 0).atRest 0 = true := by rw [atRest, hturn.control]
    rw [run_of_atRest hrest]
    exact ⟨1, hturn⟩
  | true =>
    have hturn : (w.turn 0).Lone 1 (.gathering (.reply .host)) vm globals
        { g with requested := false, sync := g.sync.convene } := by
      refine turn ?_ rfl
      rw [hstep, hcollects, hforce]
      refine (h.withCollector ?_).setControl _
      rw [show (w.modifyStore (·.clearRequest)).store.collector = _ from
        congrArg (fun g : Collector => { g with requested := false }) h.collector]
    have hgathered : g.sync.convene.gathered = true := by
      simp [Rendezvous.gathered, Rendezvous.convene, Rendezvous.park, hsync.mutators]
    have hsame : g.sync.convene.dismiss = g.sync := by
      rw [Rendezvous.dismiss_convene, ← hsync.collecting]
    have hdone := hturn.gather hgathered (by decide) fuel
    rw [hturn.rootValues h rfl] at hdone
    refine ⟨3, hdone.size, hdone.spent, hdone.control, hdone.vm, hdone.globals, ?_⟩
    rw [hdone.collector, hsame]
    rfl

end World.Lone

/-! ### What an operation does to the collector -/

/-- Neither a collection nor a new limit. -/
structure Collector.Unmoved (g g' : Collector) : Prop where
  collections : g'.collections = g.collections
  growthFactor : g'.growthFactor = g.growthFactor
  limit : g'.limit = g.limit
  threshold : g'.threshold = g.threshold

namespace Mutation

/-- The collector after an operation of the only thread. -/
def effect (storage : StorageId) (roots : List Value) (g : Collector) : Mutation → Collector
  | .make o => (g.make storage o).1
  | .setLimit limit => g.setLimit limit
  | .stop => { g with sync := g.sync.pause }
  | .resume => { g with sync := g.sync.resume?.getD g.sync }
  | .safepoint => if g.requested then g.met false roots else g
  | .collect => g.met true roots
  | .root vs => (g.addRoot (.pinned vs)).1
  | .pin id v => g.pin id v
  | .unroot id => (g.removeRoot id).toOption.getD g

section

variable {w : World} {n fuel : Nat} {vm : Vm} {globals : List (String × Value)} {g : Collector}

/-- The thread is done with every operation, and this is what has become of the collector. -/
theorem apply_lone (h : w.Lone n .idle vm globals g) (hsync : g.sync.Solitary) (hfuel : 3 ≤ fuel)
    (m : Mutation) : ∃ n', (m.apply fuel w).1.Lone n' .idle vm globals
      (m.effect ((w.thread 0).caller 0).storage w.rootValues g) := by
  obtain ⟨more, rfl⟩ := Nat.exists_eq_add_of_le' hfuel
  cases m with
  | make o =>
    refine ⟨n, h.withCollector ?_⟩
    rw [← h.collector]
    rfl
  | setLimit limit =>
    refine ⟨n, h.withCollector ?_⟩
    rw [h.collector]
    rfl
  | stop =>
    have hpause : (w.assign 0 .pause).Lone n (.finished .done) vm globals
        { g with sync := g.sync.pause } := by
      have hcollecting : w.collecting = false := by
        rw [World.collecting, h.collector, hsync.collecting]
      rw [World.assign, hcollecting]
      refine (h.withCollector ?_).setControl _
      rw [h.collector]
    exact ⟨0, (hpause.perform_of_finished _).1⟩
  | resume =>
    refine ⟨n, h.withCollector ?_⟩
    rw [h.collector]
    rfl
  | safepoint =>
    simp only [effect]
    cases hrequested : g.requested with
    | false =>
      have hpoll : (w.assign 0 .safepoint).Lone n (.finished .done) vm globals g := by
        rw [World.assign, h.collector, hrequested]
        exact h.setControl _
      exact ⟨0, (hpoll.perform_of_finished _).1⟩
    | true =>
      have hpoll :
          (w.assign 0 .safepoint).Lone n (.rendezvous false (.reply .host)) vm globals g := by
        rw [World.assign, h.collector, hrequested]
        exact h.setControl _
      obtain ⟨n', hmet⟩ := (hpoll.begun rfl).rendezvous hsync more
      rw [(hpoll.begun rfl).rootValues h rfl] at hmet
      exact ⟨n', hmet.perform.1⟩
  | collect =>
    have hask : (w.assign 0 (.request .collect)).Lone n (.rendezvous true (.reply .host)) vm
        globals g := h.setControl _
    obtain ⟨n', hmet⟩ := (hask.begun rfl).rendezvous hsync more
    rw [(hask.begun rfl).rootValues h rfl] at hmet
    exact ⟨n', hmet.perform.1⟩
  | root vs =>
    refine ⟨n, h.withCollector ?_⟩
    rw [h.collector]
    rfl
  | pin id v =>
    refine ⟨n, h.withCollector ?_⟩
    rw [h.collector]
    rfl
  | unroot id =>
    refine ⟨n, ?_⟩
    simp only [apply, World.dropRoot, effect, h.collector]
    cases g.removeRoot id with
    | ok g' => exact h.withCollector rfl
    | error e => exact h

/-- What a forced collection answers. -/
theorem collect_outcome (h : w.Lone n .idle vm globals g) (hsync : g.sync.Solitary)
    (hfuel : 3 ≤ fuel) :
    (Mutation.collect.apply fuel w).2 = some (.value (.bool (decide (g.sync.paused = 0)))) := by
  obtain ⟨more, rfl⟩ := Nat.exists_eq_add_of_le' hfuel
  have hask : (w.assign 0 (.request .collect)).Lone n (.rendezvous true (.reply .host)) vm
      globals g := h.setControl _
  obtain ⟨n', hmet⟩ := (hask.begun rfl).rendezvous hsync more
  have hforced : g.collects true = decide (g.sync.paused = 0) := by simp [Collector.collects]
  rw [← hforced]
  exact hmet.perform.2

end

section

variable (storage : StorageId) (roots : List Value) (g : Collector) (m : Mutation)

/-- A rendezvous collects or only takes the request back. -/
theorem met_cases (force : Bool) :
    g.collects force = true ∧ g.met force roots = { g.collect roots with requested := false } ∨
      g.collects force = false ∧ g.met force roots = { g with requested := false } := by
  unfold Collector.met
  cases g.collects force
  · exact .inr ⟨rfl, rfl⟩
  · exact .inl ⟨rfl, rfl⟩

/-- A rendezvous takes the request back; whatever else reaches the threshold makes one. -/
theorem requested_effect : (m.effect storage roots g).requested =
    (!m.meets g && (g.requested || m.raises && (m.effect storage roots g).due)) := by
  have hmet : ∀ force, (g.met force roots).requested = false := fun force => rfl
  cases m with
  | make | setLimit => rfl
  | safepoint =>
    simp only [effect, meets, raises]
    split <;> simp_all
  | collect => simp [effect, meets, hmet]
  | unroot id =>
    rcases Collector.Operation.removeRoot_cases g id with heq | heq <;>
      simp [effect, meets, raises, heq]
  | _ => simp [effect, meets, raises, Collector.addRoot, Collector.pin, Collector.setPinned]

/-- Only pauses begin and end; a rendezvous leaves the counters as they are. -/
theorem sync_effect : (m.effect storage roots g).sync =
    match m with
    | .stop => g.sync.pause
    | .resume => g.sync.resume?.getD g.sync
    | _ => g.sync := by
  have hmet : ∀ force, (g.met force roots).sync = g.sync := by
    intro force
    rcases met_cases roots g force with ⟨-, heq⟩ | ⟨-, heq⟩
    · rw [heq]
      rfl
    · rw [heq]
  cases m with
  | safepoint =>
    simp only [effect]
    split
    · exact hmet false
    · rfl
  | collect => exact hmet true
  | unroot id =>
    rcases Collector.Operation.removeRoot_cases g id with heq | heq <;> simp [effect, heq]
  | _ => rfl

/-- The operation runs a collection. -/
def collects : Bool :=
  match m with
  | .safepoint => g.requested && g.collects false
  | .collect => g.collects true
  | _ => false

/-- An operation collects once, or sets the limit, or leaves the trigger alone. -/
theorem effect_cases :
    (collects g m = true ∧ m.effect storage roots g =
      { g.collect roots with requested := false }) ∨
    collects g m = false ∧
      ((∃ limit, m = .setLimit limit) ∨ g.Unmoved (m.effect storage roots g)) := by
  have hmet : ∀ force, g.collects force = true ∧
      g.met force roots = { g.collect roots with requested := false } ∨
      g.collects force = false ∧ g.Unmoved (g.met force roots) := by
    intro force
    rcases met_cases roots g force with hyes | ⟨hno, heq⟩
    · exact .inl hyes
    · exact .inr ⟨hno, heq ▸ ⟨rfl, rfl, rfl, rfl⟩⟩
  cases m with
  | setLimit limit => exact .inr ⟨rfl, .inl ⟨limit, rfl⟩⟩
  | safepoint =>
    simp only [effect, collects]
    cases g.requested with
    | false => exact .inr ⟨rfl, .inr ⟨rfl, rfl, rfl, rfl⟩⟩
    | true => exact (hmet false).imp_right fun ⟨hno, hsame⟩ => ⟨hno, .inr hsame⟩
  | collect => exact (hmet true).imp_right fun ⟨hno, hsame⟩ => ⟨hno, .inr hsame⟩
  | unroot id =>
    refine .inr ⟨rfl, .inr ?_⟩
    show g.Unmoved ((g.removeRoot id).toOption.getD g)
    rcases Collector.Operation.removeRoot_cases g id with heq | heq <;> rw [heq] <;>
      exact ⟨rfl, rfl, rfl, rfl⟩
  | _ => exact .inr ⟨rfl, .inr ⟨rfl, rfl, rfl, rfl⟩⟩

end

end Mutation

/-! ### Histories -/

/-- The collector after a history. -/
def Mutation.collector (fuel : Nat) (w : World) (past : List Mutation) : Collector :=
  (Mutation.run fuel w past).store.collector

/-- What is known after every history. -/
structure Ruled (growthFactor : Double) (fuel : Nat) (w : World) (past : List Mutation) : Prop where
  lone : ∃ n vm globals, (Mutation.run fuel w past).Lone n .idle vm globals
    (Mutation.collector fuel w past)
  solitary : (Mutation.collector fuel w past).sync.Solitary
  paused : (Mutation.collector fuel w past).sync.paused = pauses past
  requested : (Mutation.collector fuel w past).requested = true ↔ Reached fuel w past
  growthFactor : (Mutation.collector fuel w past).growthFactor = growthFactor
  limit_pos : 1 ≤ (Mutation.collector fuel w past).limit.toNat
  limit_le :
    (Mutation.collector fuel w past).limit.toNat ≤ (Mutation.collector fuel w past).threshold

namespace Ruled

open Mutation (run collector)

variable {growthFactor : Double} {fuel : Nat} {w : World} {past : List Mutation}

theorem effect (h : Ruled growthFactor fuel w past) (hfuel : 3 ≤ fuel) (m : Mutation) :
    ∃ storage roots, collector fuel w (m :: past) =
      m.effect storage roots (collector fuel w past) := by
  obtain ⟨n, vm, globals, hlone⟩ := h.lone
  obtain ⟨n', hafter⟩ := Mutation.apply_lone hlone h.solitary hfuel m
  exact ⟨_, _, hafter.collector⟩

theorem toNat_limit_pos (limit : UInt64) : 1 ≤ (if limit = 0 then 1 else limit).toNat := by
  split
  · exact le_rfl
  · rename_i hne
    exact Nat.one_le_iff_ne_zero.2 fun hzero => hne (UInt64.toNat_inj.1 hzero)

/-- A request is there exactly if the threshold has been reached since the last rendezvous. -/
theorem reached_cons (h : Ruled growthFactor fuel w past) (hfuel : 3 ≤ fuel) (m : Mutation) :
    (collector fuel w (m :: past)).requested = true ↔ Reached fuel w (m :: past) := by
  obtain ⟨storage, roots, heq⟩ := h.effect hfuel m
  have hraises : m.raises = true → m.meets (collector fuel w past) = false := by
    cases m <;> simp [Mutation.raises, Mutation.meets]
  rw [heq, Mutation.requested_effect, ← heq]
  simp only [Bool.and_eq_true, Bool.or_eq_true, Bool.not_eq_true']
  constructor
  · rintro ⟨hmeets, hrequested | ⟨hm, hdue⟩⟩
    · exact .since (h.requested.1 hrequested) hmeets
    · exact .now hm hdue
  · rintro (⟨hm, hdue⟩ | ⟨hreached, hmeets⟩)
    · exact ⟨hraises hm, .inr ⟨hm, hdue⟩⟩
    · exact ⟨hmeets, .inl (h.requested.2 hreached)⟩

/-- One more operation. -/
theorem cons (h : Ruled growthFactor fuel w past) (hfuel : 3 ≤ fuel) (m : Mutation) :
    Ruled growthFactor fuel w (m :: past) := by
  obtain ⟨n, vm, globals, hlone⟩ := h.lone
  obtain ⟨n', hafter⟩ := Mutation.apply_lone hlone h.solitary hfuel m
  obtain ⟨storage, roots, heq⟩ := h.effect hfuel m
  have hsync := heq ▸ Mutation.sync_effect storage roots (collector fuel w past) m
  have hresume : ∀ r : Rendezvous, r.Solitary →
      (r.resume?.getD r).Solitary ∧ (r.resume?.getD r).paused = r.paused - 1 := by
    intro r hr
    unfold Rendezvous.resume?
    split
    · rename_i hzero
      exact ⟨hr, by simp [hzero]⟩
    · exact ⟨⟨hr.mutators, hr.parked, hr.collecting⟩, rfl⟩
  have hcounters : (collector fuel w (m :: past)).sync.Solitary ∧
      (collector fuel w (m :: past)).sync.paused = pauses (m :: past) := by
    rw [hsync]
    cases m with
    | stop =>
      exact ⟨⟨h.solitary.mutators, h.solitary.parked, h.solitary.collecting⟩,
        congrArg (· + 1) h.paused⟩
    | resume =>
      obtain ⟨hsolitary, hpaused⟩ := hresume _ h.solitary
      exact ⟨hsolitary, hpaused.trans (congrArg (· - 1) h.paused)⟩
    | _ => exact ⟨h.solitary, h.paused⟩
  have htrigger : (collector fuel w (m :: past)).growthFactor = growthFactor ∧
      1 ≤ (collector fuel w (m :: past)).limit.toNat ∧
      (collector fuel w (m :: past)).limit.toNat ≤ (collector fuel w (m :: past)).threshold := by
    rcases Mutation.effect_cases storage roots (collector fuel w past) m with
      ⟨-, hcollected⟩ | ⟨-, ⟨limit, rfl⟩ | hsame⟩
    · rw [heq, hcollected]
      exact ⟨h.growthFactor, h.limit_pos, le_max_right _ _⟩
    · rw [heq]
      exact ⟨h.growthFactor, toNat_limit_pos limit, le_rfl⟩
    · rw [heq, hsame.growthFactor, hsame.limit, hsame.threshold]
      exact ⟨h.growthFactor, h.limit_pos, h.limit_le⟩
  have hnow : collector fuel w (m :: past) = _ := hafter.collector
  exact ⟨⟨n', vm, globals, hnow ▸ hafter⟩, hcounters.1, hcounters.2, h.reached_cons hfuel m,
    htrigger.1, htrigger.2.1, htrigger.2.2⟩

end Ruled

/-! ### The beginning -/

/-- Publishing native functions does not concern the trigger. -/
theorem Store.unmoved_publish (s : Store) (fs : List Native) :
    s.collector.Unmoved (s.publish fs).collector ∧
      (s.publish fs).collector.requested = s.collector.requested ∧
      (s.publish fs).collector.sync = s.collector.sync := by
  induction fs generalizing s with
  | nil => exact ⟨⟨rfl, rfl, rfl, rfl⟩, rfl, rfl⟩
  | cons f fs ih =>
    obtain ⟨hsame, hrequested, hsync⟩ := ih ((s.makeImmortal (.native f)).1.setGlobal f.name
      (.ref (s.makeImmortal (.native f)).2))
    exact ⟨⟨hsame.collections, hsame.growthFactor, hsame.limit, hsame.threshold⟩, hrequested, hsync⟩

/-- The limit of a new machine has passed its check. -/
theorem CollectorSettings.allocLimit_ne_zero {settings : CollectorSettings}
    {isolates : IsolateSettings} {s : Store} (hs : Store.new settings isolates = .ok s) :
    settings.allocLimit ≠ 0 := by
  intro hzero
  have hcheck : settings.check = .error .allocLimit := if_pos hzero
  simp [Store.new, hcheck, Except.mapError, bind, Except.bind] at hs

theorem Ruled.new {settings : CollectorSettings} {isolates : IsolateSettings} {s : Store}
    (hs : Store.new settings isolates = .ok s) (fuel : Nat) :
    Ruled settings.growthFactor fuel (World.single s) [] := by
  have hpublished := Store.publish_of_new hs
  obtain ⟨hsame, hrequested, hsync⟩ := Store.unmoved_publish
    { collector := ((Collector.new settings).addRoot .globals).1, isolates }
    (Native.sync ++ [.mutex])
  rw [hpublished] at hsame hrequested hsync
  have hlimit : s.collector.limit = settings.allocLimit := hsame.limit
  have hthreshold : s.collector.threshold = settings.allocLimit.toNat := hsame.threshold
  refine ⟨⟨0, {}, s.globals, rfl, rfl, rfl, rfl, rfl, rfl⟩, ?_, ?_, ?_, hsame.growthFactor, ?_, ?_⟩
  · show s.collector.sync.enroll.Solitary
    rw [hsync]
    exact ⟨rfl, rfl, rfl⟩
  · show s.collector.sync.enroll.paused = 0
    rw [hsync]
    rfl
  · refine iff_of_false (fun hyes => ?_) nofun
    rw [show (Mutation.collector fuel (World.single s) []).requested = s.collector.requested from
      rfl, hrequested] at hyes
    cases hyes
  · show 1 ≤ s.collector.limit.toNat
    rw [hlimit]
    exact Nat.one_le_iff_ne_zero.2 fun hzero =>
      CollectorSettings.allocLimit_ne_zero hs (UInt64.toNat_inj.1 hzero)
  · show s.collector.limit.toNat ≤ s.collector.threshold
    rw [hlimit, hthreshold]

theorem Ruled.run {settings : CollectorSettings} {isolates : IsolateSettings} {s : Store}
    (hs : Store.new settings isolates = .ok s) {fuel : Nat} (hfuel : 3 ≤ fuel)
    (past : List Mutation) : Ruled settings.growthFactor fuel (World.single s) past := by
  induction past with
  | nil => exact .new hs fuel
  | cons m past ih => exact ih.cons hfuel m

/-! ### The trigger -/

/-- Within a part of a history that ends no earlier pause, the pauses are counted from its
beginning. -/
theorem Unresumed.pauses_append {part : List Mutation} (h : Unresumed part) (past : List Mutation) :
    pauses (part ++ past) + part.count .resume = pauses past + part.count .stop := by
  induction part with
  | nil => rfl
  | cons m part ih =>
    have hpart := ih fun earlier hearlier => h earlier (hearlier.trans (List.suffix_cons m part))
    have hwhole := h _ (List.suffix_refl (m :: part))
    rw [List.cons_append]
    cases m with
    | stop =>
      rw [List.count_cons_of_ne (by simp), List.count_cons_self, pauses]
      omega
    | resume =>
      rw [List.count_cons_self, List.count_cons_of_ne (by simp)] at hwhole ⊢
      rw [pauses]
      omega
    | _ =>
      rw [List.count_cons_of_ne (by simp), List.count_cons_of_ne (by simp)]
      exact hpart

open Mutation (collector)

/-- What a history says about the trigger. -/
structure Governed (growthFactor : Double) (fuel : Nat) (w : World) (past : List Mutation) :
    Prop where
  /-- A safepoint collects if no pause is active, a collection is due, and since the last rendezvous
  an allocation or a new limit has left one due. -/
  safepoint : (collector fuel w (.safepoint :: past)).collections =
      (collector fuel w past).collections + 1 ↔
    pauses past = 0 ∧ (collector fuel w past).threshold ≤ (collector fuel w past).allocCount ∧
      Reached fuel w past
  /-- Otherwise it does not; no operation collects twice. -/
  once : ∀ m, (collector fuel w (m :: past)).collections = (collector fuel w past).collections ∨
    (collector fuel w (m :: past)).collections = (collector fuel w past).collections + 1
  /-- A forced collection is refused only by a pause, and says so. -/
  collect : (Mutation.collect.apply fuel (Mutation.run fuel w past)).2 =
      some (.value (.bool (decide (pauses past = 0)))) ∧
    (collector fuel w (.collect :: past)).collections =
      (collector fuel w past).collections + if pauses past = 0 then 1 else 0
  others : ∀ m, m.mayCollect = false →
    (collector fuel w (m :: past)).collections = (collector fuel w past).collections
  /-- Nothing is collected until a pause has ended. -/
  paused : ∀ part, Unresumed part →
    (collector fuel w (part ++ .stop :: past)).collections = (collector fuel w past).collections
  limit_pos : 1 ≤ (collector fuel w past).limit.toNat
  limit_le : (collector fuel w past).limit.toNat ≤ (collector fuel w past).threshold
  /-- A collection sets the threshold by what it has left. -/
  collected : ∀ m,
    (collector fuel w (m :: past)).collections ≠ (collector fuel w past).collections →
    (collector fuel w (m :: past)).threshold = max (collector fuel w (m :: past)).limit.toNat
      (Double.scaleCount (collector fuel w (m :: past)).allocCount growthFactor)
  /-- A new limit, at least one, is the next threshold. -/
  limited : ∀ limit,
    (collector fuel w (.setLimit limit :: past)).limit.toNat = max limit.toNat 1 ∧
    (collector fuel w (.setLimit limit :: past)).threshold = max limit.toNat 1

namespace Ruled

variable {growthFactor : Double} {fuel : Nat} {w : World} {past : List Mutation}

/-- An operation collects once, or not at all. -/
theorem collections_cons (h : Ruled growthFactor fuel w past) (hfuel : 3 ≤ fuel) (m : Mutation) :
    (collector fuel w (m :: past)).collections = (collector fuel w past).collections +
      if Mutation.collects (collector fuel w past) m then 1 else 0 := by
  obtain ⟨storage, roots, heq⟩ := h.effect hfuel m
  rw [heq]
  rcases Mutation.effect_cases storage roots (collector fuel w past) m with
    ⟨hyes, hcollected⟩ | ⟨hno, ⟨limit, rfl⟩ | hsame⟩
  · rw [hcollected, if_pos hyes]
    rfl
  · rfl
  · rw [hsame.collections, hno]
    rfl

theorem collects_iff (h : Ruled growthFactor fuel w past) (force : Bool) :
    (collector fuel w past).collects force = true ↔
      pauses past = 0 ∧ (force = true ∨ (collector fuel w past).due = true) := by
  rw [Collector.collects, h.paused]
  simp

/-- During a pause nothing collects. -/
theorem collects_eq_false (h : Ruled growthFactor fuel w past) (hpaused : 0 < pauses past)
    (m : Mutation) : Mutation.collects (collector fuel w past) m = false := by
  have hno : ∀ force, (collector fuel w past).collects force = false := fun force => by
    rw [Collector.collects, h.paused, decide_eq_false hpaused.ne', Bool.false_and]
  cases m with
  | safepoint => rw [Mutation.collects, hno, Bool.and_false]
  | collect => exact hno true
  | _ => rfl

theorem safepoint_iff (h : Ruled growthFactor fuel w past) :
    Mutation.collects (collector fuel w past) .safepoint = true ↔
      pauses past = 0 ∧ (collector fuel w past).threshold ≤ (collector fuel w past).allocCount ∧
        Reached fuel w past := by
  have hdue : (collector fuel w past).due = true ↔
      (collector fuel w past).threshold ≤ (collector fuel w past).allocCount := decide_eq_true_iff
  rw [Mutation.collects, Bool.and_eq_true, h.requested, h.collects_iff, hdue]
  simp only [Bool.false_eq_true, false_or]
  exact and_comm.trans and_assoc

theorem collect_iff (h : Ruled growthFactor fuel w past) :
    Mutation.collects (collector fuel w past) .collect = true ↔ pauses past = 0 := by
  rw [Mutation.collects, h.collects_iff]
  simp

/-- The threshold after an operation that has collected. -/
theorem threshold_of_collects (h : Ruled growthFactor fuel w past) (hfuel : 3 ≤ fuel)
    {m : Mutation} (hm : Mutation.collects (collector fuel w past) m = true) :
    (collector fuel w (m :: past)).threshold = max (collector fuel w (m :: past)).limit.toNat
      (Double.scaleCount (collector fuel w (m :: past)).allocCount growthFactor) := by
  obtain ⟨storage, roots, heq⟩ := h.effect hfuel m
  rcases Mutation.effect_cases storage roots (collector fuel w past) m with
    ⟨-, hcollected⟩ | ⟨hno, -⟩
  · rw [heq, hcollected, ← h.growthFactor, max_comm]
    rfl
  · rw [hm] at hno
    cases hno

/-- The threshold after a new limit. -/
theorem limit_cons (h : Ruled growthFactor fuel w past) (hfuel : 3 ≤ fuel) (limit : UInt64) :
    (collector fuel w (.setLimit limit :: past)).limit.toNat = max limit.toNat 1 ∧
      (collector fuel w (.setLimit limit :: past)).threshold = max limit.toNat 1 := by
  obtain ⟨storage, roots, heq⟩ := h.effect hfuel (.setLimit limit)
  have hmax : (if limit = 0 then 1 else limit).toNat = max limit.toNat 1 := by
    by_cases hzero : limit = 0
    · rw [hzero]
      rfl
    · rw [if_neg hzero, max_eq_left]
      exact Nat.one_le_iff_ne_zero.2 fun h => hzero (UInt64.toNat_inj.1 h)
  rw [heq]
  exact ⟨hmax, hmax⟩

end Ruled

/-- A part of a history that does not end a pause does not collect. -/
theorem Unresumed.collections_eq {growthFactor : Double} {fuel : Nat} {w : World}
    (h : ∀ past, Ruled growthFactor fuel w past) (hfuel : 3 ≤ fuel) (past : List Mutation)
    {part : List Mutation} (hpart : Unresumed part) :
    (collector fuel w (part ++ .stop :: past)).collections =
      (collector fuel w past).collections := by
  induction part with
  | nil =>
    rw [List.nil_append, (h past).collections_cons hfuel]
    rfl
  | cons m part ih =>
    have hearlier : Unresumed part := fun earlier hsuffix =>
      hpart earlier (hsuffix.trans (List.suffix_cons m part))
    have hcounted := hearlier.pauses_append (.stop :: past)
    have hwhole := hearlier part (List.suffix_refl part)
    have hpaused : 0 < pauses (part ++ .stop :: past) := by
      rw [pauses] at hcounted
      omega
    rw [List.cons_append, (h _).collections_cons hfuel, (h _).collects_eq_false hpaused]
    exact ih hearlier

/-- **When collections run.** After every history of a machine with one thread: a safepoint
collects, once, exactly if no pause is active, a collection is due, and since the last rendezvous an
allocation or a new limit has left one due; a forced collection is refused only by a pause; nothing
else collects; no pause is interrupted by a collection; the limit is at least one and at most the
threshold, which collections and new limits set. -/
theorem collections_on_demand (settings : CollectorSettings) (isolates : IsolateSettings)
    (s : Store) (fuel : Nat) (past : List Mutation) (hs : Store.new settings isolates = .ok s)
    (hfuel : 3 ≤ fuel) : Governed settings.growthFactor fuel (World.single s) past := by
  have hrun := Ruled.run hs hfuel
  have hcount := (hrun past).collections_cons hfuel
  refine ⟨?_, fun m => ?_, ⟨?_, ?_⟩, fun m hm => ?_,
    fun part hpart => hpart.collections_eq hrun hfuel past, (hrun past).limit_pos,
    (hrun past).limit_le, fun m hne => ?_, (hrun past).limit_cons hfuel⟩
  · rw [hcount, ← (hrun past).safepoint_iff]
    split <;> simp_all
  · rw [hcount]
    split
    · exact .inr rfl
    · exact .inl rfl
  · obtain ⟨n, vm, globals, hlone⟩ := (hrun past).lone
    rw [Mutation.collect_outcome hlone (hrun past).solitary hfuel, (hrun past).paused]
  · rw [hcount]
    simp only [(hrun past).collect_iff]
  · rw [hcount]
    cases m <;> simp_all [Mutation.mayCollect, Mutation.collects]
  · refine (hrun past).threshold_of_collects hfuel (Bool.not_eq_false _ ▸ fun hno => hne ?_)
    rw [hcount, hno]
    rfl

/-! ### Requests that are dropped and made again -/

/-- A machine whose limit is two. -/
def World.small : World :=
  World.single ((Store.new { allocLimit := 2 } {}).toOption.getD .standard)

/-- Two allocations, a safepoint during a pause, which takes the request back, and one more
allocation. -/
def Mutation.interrupted : List Mutation :=
  [.make (.str "c"), .resume, .safepoint, .stop, .make (.str "b"), .make (.str "a")]

/-- The safepoint during the pause does not collect, and one after it would not either: the request
is gone although a collection is due. The next allocation makes a new one. -/
theorem collections_on_demand_interrupted :
    let w := World.small
    let past := Mutation.interrupted
    ¬ Reached 3 w past.tail ∧
      (collector 3 w (.safepoint :: past.tail)).collections ≠
        (collector 3 w past.tail).collections + 1 ∧
      Reached 3 w past ∧ (collector 3 w (.safepoint :: past)).collections = 1 := by
  intro w past
  have hs : Store.new { allocLimit := 2 } {} =
      .ok ((Store.new { allocLimit := 2 } {}).toOption.getD .standard) := rfl
  have hearlier := collections_on_demand _ _ _ 3 past.tail hs le_rfl
  have hnow := collections_on_demand _ _ _ 3 past hs le_rfl
  have hdropped : (collector 3 w past.tail).requested = false := by decide +kernel
  have hnone : ¬ Reached 3 w past.tail := fun hreached => Bool.false_ne_true
    (hdropped.symm.trans ((Ruled.run hs le_rfl past.tail).requested.2 hreached))
  have hreached : Reached 3 w past := .now rfl (by decide +kernel)
  refine ⟨hnone, fun heq => hnone (hearlier.safepoint.1 heq).2.2, hreached, ?_⟩
  have hfirst : (collector 3 w past).collections + 1 = 1 := by decide +kernel
  exact (hnow.safepoint.2 ⟨rfl, by decide +kernel, hreached⟩).trans hfirst

end ScriptCore
