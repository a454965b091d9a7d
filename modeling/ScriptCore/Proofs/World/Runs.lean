import ScriptCore.Proofs.World.Step
import ScriptCore.Schedule

/-!
# Whole runs

Everything that can happen to a machine: steps of its threads in any order, and operations of the
host between them.

* `Act`: one step of a thread or one operation of the host;
* `Act.Allowed`: what the host hands over is live, it uses its own threads and gives up its own
  roots;
* `Reachable`: the states of all finite runs from a new machine;
* `Reachable.sound`: the invariant holds in each of them;
* `reachable_live`: nothing that a root or an immortal cell reaches has been freed.

Nothing is said about which thread is ready: also a run that a schedule would not allow is sound.
-/

namespace ScriptCore

/-- A world with the names of the roots that its host has registered. -/
structure Hosted where
  world : World
  guards : List RootId := []

namespace Hosted

def withStore (h : Hosted) (s : Store) : Hosted := { h with world := { h.world with store := s } }

def withCollector (h : Hosted) (g : Collector) : Hosted :=
  h.withStore { h.world.store with collector := g }

end Hosted

/-- A step of a thread or an operation of the host. -/
inductive Act
  | step (t : ThreadId)
  /-- Time passes. -/
  | elapse (now : Nat)
  /-- A new host thread. -/
  | spawn
  /-- A new thread that resolves futures at given times. -/
  | helper (agenda : List (Nat × CellId × Value))
  | assign (t : ThreadId) (task : Task)
  /-- A host thread waits, parked or not. -/
  | wait (t : ThreadId) (wait : Wait) (parked : Bool)
  | dismiss (t : ThreadId)
  | make (t : ThreadId) (o : Object)
  | makeImmortal (o : Object)
  | pushItem (c : CellId) (v : Value)
  | resolve (c : CellId) (v : Value)
  | setAttr (receiver : Value) (name : String) (v : Value)
  /-- Register a root and hold its name. -/
  | root (vs : Array Value)
  | pin (id : RootId) (v : Value)
  /-- Give up a root, by its guard or by its name. -/
  | unroot (id : RootId)
  | setGlobal (name : String) (v : Value)
  | library (l : Library)
  | push (t : ThreadId) (v : Value)
  | pop (t : ThreadId)
  | setLimit (limit : UInt64)
  /-- The system runs out of threads, for a reason, or has some to give again. -/
  | supply (shortage : Option String)
  /-- End a pause. -/
  | resume

/-- What the host has to provide for a task. -/
def Task.Allowed (h : Heap) (th : Thread) : Task → Prop
  | .call f args => th.Equipped ∧ h.Holds f ∧ ∀ a ∈ args, h.Holds a
  | .run => th.Equipped
  | .litter _ => th.storage.isSome
  | .request r => r.Handed h th
  | _ => True

namespace Act

/-- What an act does. -/
def apply (h : Hosted) : Act → Hosted
  | .step t => { h with world := h.world.step t }
  | .elapse now => { h with world := h.world.beginRound now }
  | .spawn => { h with world := h.world.addHost.1 }
  | .helper agenda => { h with world := (h.world.add { control := .resolving agenda }).1 }
  | .assign t task => { h with world := h.world.assign t task }
  | .wait t what true => { h with world := h.world.block t what (.reply .host) }
  | .wait t what false => { h with world := h.world.setControl t (.waiting what (.reply .host)) }
  | .dismiss t => { h with world := h.world.dismiss t }
  | .make t o => h.withStore (h.world.store.make ((h.world.thread t).caller t).storage o).1
  | .makeImmortal o => h.withStore (h.world.store.makeImmortal o).1
  | .pushItem c v => h.withStore (h.world.store.modifyHeap (·.pushItem c v))
  | .resolve c v =>
      match h.world.store.heap.resolve c v with
      | .ok heap => h.withStore (h.world.store.withHeap heap)
      | .error _ => h
  | .setAttr receiver name v =>
      match h.world.store.heap.attributeChange receiver name v with
      | .ok (c, o) => h.withStore (h.world.store.modifyHeap (·.setObject c o))
      | .error _ => h
  | .root vs =>
      { h.withCollector (h.world.store.collector.addRoot (.pinned vs)).1 with
        guards := h.world.store.collector.nextId :: h.guards }
  | .pin id v => h.withCollector (h.world.store.collector.pin id v)
  | .unroot id => { h with world := h.world.dropRoot id }
  | .setGlobal name v => h.withStore (h.world.store.setGlobal name v)
  | .library l =>
      match h.world.store.addLibrary l with
      | .ok s => h.withStore s
      | .error _ => h
  | .push t v => { h with world := h.world.setVm t ((h.world.thread t).vm.push v) }
  | .pop t => { h with world := h.world.setVm t (h.world.thread t).vm.dropTop }
  | .setLimit limit => h.withCollector (h.world.store.collector.setLimit limit)
  | .supply shortage => h.withStore { h.world.store with shortage }
  | .resume => { h with world := h.world.modifySync fun r => r.resume?.getD r }

/-- Every reference handed over is live, the host uses threads of its own, a stack only while its
thread rests, and it gives up roots that it has registered. -/
def Allowed (h : Hosted) : Act → Prop
  | .step t => h.world.StepHanded t
  | .assign t task => (h.world.thread t).role = .host ∧
      task.Allowed h.world.store.heap (h.world.thread t)
  | .wait t _ _ | .dismiss t => (h.world.thread t).role = .host
  | .make t o => (h.world.thread t).storage.isSome ∧ ∀ v ∈ o.edges, h.world.store.heap.Holds v
  | .makeImmortal o => ∀ v ∈ o.edges, h.world.store.heap.Holds v
  | .pushItem c v | .resolve c v => h.world.store.heap.Live c ∧ h.world.store.heap.Holds v
  | .setAttr receiver _ v => h.world.store.heap.Holds receiver ∧ h.world.store.heap.Holds v
  | .root vs => ∀ v ∈ vs, h.world.store.heap.Holds v
  | .pin id v => id ∈ h.guards ∧ h.world.store.heap.Holds v
  | .unroot id => id ∈ h.guards
  | .setGlobal _ v => h.world.store.heap.Holds v
  | .push t v => (h.world.thread t).role = .host ∧ h.world.atRest t = true ∧
      (h.world.thread t).root.isSome ∧ h.world.store.heap.Holds v
  | .pop t => (h.world.thread t).role = .host ∧ h.world.atRest t = true ∧
      (h.world.thread t).root.isSome
  | .elapse _ | .spawn | .helper _ | .library _ | .setLimit _ | .supply _ | .resume => True

/-- What is allowed, but nothing is asked of the code of a frame that executes. -/
def Given (h : Hosted) : Act → Prop
  | .step t => h.world.StepGiven t
  | a => a.Allowed h

theorem Allowed.given {h : Hosted} {a : Act} (ha : a.Allowed h) : a.Given h := by
  cases a with
  | step t => exact World.StepHanded.given ha
  | _ => exact ha

end Act

/-- The states of all runs from a new machine. -/
inductive Reachable : Hosted → Prop
  | new {collector : CollectorSettings} {isolates : IsolateSettings} {s : Store} :
      Store.new collector isolates = .ok s → Reachable { world := { store := s } }
  | act {h : Hosted} {a : Act} : Reachable h → a.Allowed h → Reachable (a.apply h)

namespace World

variable {own : Ledger} {away : Option ThreadId} {w : World} {t : ThreadId}

theorem role_setControl (c : Control) (u : ThreadId) :
    ((w.setControl t c).thread u).role = (w.thread u).role := by
  by_cases hu : u = t
  · subst hu
    by_cases hsize : w.threads.size ≤ u
    · rw [setControl, modifyThread_of_size_le _ hsize]
    · rw [setControl, thread_modifyThread_self _ (Nat.not_le.1 hsize)]
  · rw [setControl, thread_modifyThread_of_ne _ hu]

theorem atRest_setVm (vm : Vm) : (w.setVm t vm).atRest t = w.atRest t := by
  have hcontrol : (w.setVm t vm).control t = w.control t := by
    rcases thread_setVm (w := w) (t := t) vm t with h | h <;> rw [control, control, h]
  rw [atRest, atRest, hcontrol]

theorem thread_beginRound (w : World) (now : Nat) (t : ThreadId) :
    (w.beginRound now).thread t = { w.thread t with spent := 0 } := by
  simp only [thread, World.beginRound, Array.getD_eq_getD_getElem?, Array.getElem?_map]
  cases w.threads[t]? <;> rfl

theorem control_of_atRest (ht : w.atRest t = true) :
    w.control t = .idle ∨ (∃ o, w.control t = .finished o) ∨ w.control t = .gone := by
  unfold atRest at ht
  split at ht
  · exact .inl ‹_›
  · exact .inr (.inl ⟨_, ‹_›⟩)
  · exact .inr (.inr ‹_›)
  · cases ht

namespace Sound

/-! ### Operations of the host -/

theorem setLine (h : w.Sound own away) (line : List ThreadId) :
    Sound own away { w with line } :=
  ⟨h.tidy, h.closed, h.held, h.fresh, h.globals, h.storage, h.storage_inj, h.root, h.transfer,
    h.stands⟩

theorem setGlobal (h : w.Sound own away) (name : String) {v : Value} (hv : w.store.heap.Holds v) :
    Sound own away { w with store := w.store.setGlobal name v } := by
  refine h.setStore h.tidy h.closed ?_ h.fresh h.globals.1 h.storage
    (fun t r hr => (h.root t r hr).1) (.refl own) ?_
  · intro id holder hmem x hx
    cases holder with
    | globals =>
      obtain ⟨p, hp, rfl⟩ := List.mem_map.1 hx
      rcases List.mem_cons.1 hp with rfl | hp
      · exact hv
      · exact h.holds_global p (List.mem_filter.1 hp).1
    | stack u => exact h.held id (.stack u) hmem x hx
    | pinned vs => exact h.held id (.pinned vs) hmem x hx
  · exact fun t _ => ⟨.refl own, fun _ _ _ hvs => hvs, fun _ _ _ _ ho _ => ho⟩

theorem makeImmortal (h : w.Sound own away) {o : Object}
    (he : ∀ v ∈ o.edges, w.store.heap.Holds v) :
    Sound own away { w with store := (w.store.makeImmortal o).1 } := by
  have hedit : Store.Edited 0 w.store.heap.Holds w.store (w.store.makeImmortal o).1 :=
    Store.edited_makeImmortal he
  refine h.setStore (h.tidy.makeImmortal o) (hedit.closed (fun _ hv => hv) h.closed) ?_ h.fresh
    h.globals.1 h.storage (fun t r hr => (h.root t r hr).1) (.refl own) ?_
  · intro id holder hmem v hv
    refine hedit.evolves.holds (h.held id holder hmem v ?_)
    cases holder <;> exact hv
  · refine fun t _ => ⟨.refl own, fun _ _ _ hvs => hvs, fun _ c o' ho hc _ => ?_⟩
    exact hedit.evolves.settled ho hc

/-- Publishing native functions, one after the other. -/
theorem publishAll (h : w.Sound own away) (fs : List Native) :
    Sound own away { w with store := w.store.publish fs } := by
  induction fs generalizing w with
  | nil => exact h
  | cons f fs ih =>
    have hmake := h.makeImmortal (o := .native f) (by simp [Object.edges])
    have hlive : (w.store.makeImmortal (.native f)).1.heap.Live
        (w.store.makeImmortal (.native f)).2 := Heap.live_alloc _ _
    exact ih (hmake.setGlobal f.name (Heap.holds_ref.2 hlive))

theorem library (h : w.Sound own away) {l : Library} {s : Store}
    (hs : w.store.addLibrary l = .ok s) : Sound own away { w with store := s } := by
  unfold Store.addLibrary at hs
  cases hl : l.entries with
  | error e => simp [hl, Except.map] at hs
  | ok fs =>
    simp only [hl, Except.map, Except.ok.injEq] at hs
    subst hs
    exact h.publishAll fs

/-- A round begins: only the clock and the counts of steps change. -/
theorem beginRound (h : w.Sound own none) (now : Nat) : (w.beginRound now).Sound own none := by
  have hthread := thread_beginRound w now
  refine ⟨h.tidy, h.closed, ?_, h.fresh, h.globals, ?_, ?_, ?_, ?_, ?_⟩
  · intro id holder hmem v hv
    refine h.held id holder hmem v ?_
    cases holder with
    | stack t =>
      simp only [heldBy, hthread] at hv
      exact hv
    | globals => exact hv
    | pinned vs => exact hv
  · intro t s hs
    rw [hthread] at hs
    exact h.storage t s hs
  · intro t u s hs hs'
    rw [hthread] at hs hs'
    exact h.storage_inj t u s hs hs'
  · intro t r hr
    rw [hthread] at hr
    exact h.root t r hr
  · intro t i hi
    rw [hthread] at hi
    exact h.transfer t i hi
  · intro t _
    have hstands := h.stands t (by simp)
    rw [hthread]
    revert hstands
    show _ → (w.thread t).control.Stands own w.store.collector t { w.thread t with spent := 0 }
    cases (w.thread t).control <;> exact id

/-- A thread that rests can be taken out of its control and left at rest. -/
theorem rest (h : w.Sound own (some t)) (ht : w.atRest t = true) : w.Sound own none := by
  refine h.back ?_
  rcases control_of_atRest ht with hc | ⟨o, hc⟩ | hc <;> rw [← control, hc] <;> trivial

/-- A task can be given to a host thread. -/
theorem assign (h : w.Sound own none) (ht : (w.thread t).role = .host) {task : Task}
    (htask : task.Allowed w.store.heap (w.thread t)) : (w.assign t task).Kept own := by
  have hgo := h.go t
  cases task with
  | enroll =>
    simp only [World.assign]
    split
    · exact Sound.kept (hgo.setControl trivial)
    · refine Sound.kept (hgo.setControl fun i hi => ?_)
      rw [ht] at hi
      cases hi
  | equip =>
    refine Sound.kept (hgo.setControl ⟨fun i hi => ?_, fun hne => absurd ht hne⟩)
    rw [ht] at hi
    cases hi
  | retire => exact Sound.kept (hgo.setControl trivial)
  | pause =>
    simp only [World.assign]
    split
    · exact Sound.kept ((hgo.park t).setControl (by simp [Control.Stands, After.Rejoins]))
    · exact Sound.kept (hgo.pause (by simp))
  | safepoint =>
    simp only [World.assign]
    split
    · exact Sound.kept (hgo.setControl ht)
    · exact Sound.kept (hgo.setControl trivial)
  | call f args => exact hgo.enter htask.1 htask.2.1 htask.2.2
  | run => exact Sound.kept (hgo.setControl htask)
  | litter n => exact Sound.kept (hgo.setControl htask)
  | lock l => exact Sound.kept (hgo.setControl ⟨ht, trivial⟩)
  | nest =>
    have hblock : (w.block t (.until w.store.now) (.reply .host)).Sound own none :=
      hgo.block ht trivial
    have hrole : ((w.block t (.until w.store.now) (.reply .host)).thread t).role = .host := by
      rw [World.block, role_setControl, thread_park]
      exact ht
    simp only [World.assign, World.nest]
    split
    · rename_i w' hw'
      unfold World.enterRegion at hw'
      split at hw' <;> cases hw'
      exact Sound.kept ((hblock.go t).block hrole trivial)
    · exact Sound.kept ((hblock.go t).setControl ⟨hrole, trivial⟩)
  | request r => exact hgo.request_host ht htask

end Sound

end World

/-- The invariant of a run: the host owns the roots whose names it holds. -/
def Hosted.Sound (h : Hosted) : Prop :=
  ∃ own : Ledger, h.world.Sound own none ∧ ∀ id ∈ h.guards, own id = .host

/-- A ledger that grows keeps the roots of the host. -/
theorem World.Kept.hosted {own : Ledger} {w : World} {guards : List RootId} (hw : w.Kept own)
    (hguards : ∀ id ∈ guards, own id = .host) : Hosted.Sound { world := w, guards } := by
  obtain ⟨own', hledger, hsound⟩ := hw
  exact ⟨own', hsound, fun id hid => hledger.owner (hguards id hid) (by simp)⟩

/-- Every act keeps the invariant. -/
theorem Act.sound_given {h : Hosted} {a : Act} (hh : h.Sound) (ha : a.Given h) :
    (a.apply h).Sound := by
  obtain ⟨own, hw, hguards⟩ := hh
  cases a with
  | step t => exact (hw.step_given t ha).hosted hguards
  | elapse now => exact ⟨own, hw.beginRound now, hguards⟩
  | spawn => exact ⟨own, hw.add rfl rfl rfl (fun i hi => by cases hi) trivial, hguards⟩
  | helper agenda => exact ⟨own, hw.add rfl rfl rfl (fun i hi => by cases hi) trivial, hguards⟩
  | assign t task => exact (hw.assign ha.1 ha.2).hosted hguards
  | wait t what parked =>
    have hkept : what.Kept h.world.store.heap (h.world.thread t).vm.stack (.reply .host) := by
      cases what <;> trivial
    cases parked with
    | true => exact ⟨own, (hw.go t).block ha hkept, hguards⟩
    | false => exact ⟨own, (hw.go t).setControl ⟨ha, hkept⟩, hguards⟩
  | dismiss t =>
    have hgone : (h.world.setControl t .gone).Sound own none := (hw.go t).setControl trivial
    exact ⟨own, hgone.setLine _, hguards⟩
  | make t o => exact ⟨own, hw.work ha.1 (Store.edited_make ha.2), hguards⟩
  | makeImmortal o => exact ⟨own, hw.makeImmortal ha, hguards⟩
  | pushItem c v => exact ⟨own, hw.rewrite (Store.edited_pushItem c ha.2) (Heap.size_modify _ _ _),
      hguards⟩
  | resolve c v =>
    simp only [apply]
    split
    · rename_i heap hr
      exact ⟨own, hw.rewrite (Store.edited_resolve hr ha.2) (Heap.size_resolve hr), hguards⟩
    · exact ⟨own, hw, hguards⟩
  | setAttr receiver name v =>
    simp only [apply]
    split
    · rename_i c o hc
      exact ⟨own, hw.rewrite (Store.edited_attributeChange hc ha.2) (Heap.size_setObject _ _ _),
        hguards⟩
    · exact ⟨own, hw, hguards⟩
  | root vs =>
    have hroot := hw.addRoot (.pinned vs) .host fun v hv => ha v (Array.mem_toList_iff.1 hv)
    have hledger := Ledger.extends_update (hw.fresh _ le_rfl) .host
    -- the new root is the host's, and the ledger forgets no other
    refine ⟨_, hroot, fun id hid => ?_⟩
    rcases List.mem_cons.1 hid with rfl | hid
    · exact Function.update_self _ _ _
    · exact hledger.owner (hguards id hid) (by simp)
  | pin id v =>
    refine ⟨own, hw.setPinned (.inl (hguards id ha.1)) fun x hx => ?_, hguards⟩
    rcases Array.mem_push.1 hx with hx | rfl
    · exact hw.holds_pinned id x hx
    · exact ha.2
  | unroot id => exact ⟨own, hw.dropRoot_of_owner (.inl (hguards id ha)), hguards⟩
  | setGlobal name v => exact ⟨own, hw.setGlobal name ha, hguards⟩
  | library l =>
    simp only [apply]
    split
    · rename_i s hs
      exact ⟨own, hw.library hs, hguards⟩
    · exact ⟨own, hw, hguards⟩
  | push t v =>
    obtain ⟨-, hrest, hroot, hv⟩ := ha
    have hset := (hw.go t).setVm ((hw.holds_stack hroot).push hv)
    exact ⟨own, hset.rest (by rwa [World.atRest_setVm]), hguards⟩
  | pop t =>
    obtain ⟨-, hrest, hroot⟩ := ha
    have hset := (hw.go t).setVm (hw.holds_stack hroot).dropTop
    exact ⟨own, hset.rest (by rwa [World.atRest_setVm]), hguards⟩
  | setLimit limit => exact ⟨own, hw.rewrite (Store.edited_setLimit _ _ _) rfl, hguards⟩
  | supply shortage => exact ⟨own, hw.neutral rfl rfl, hguards⟩
  | resume => exact ⟨own, hw.modifySync _, hguards⟩

theorem Act.sound {h : Hosted} {a : Act} (hh : h.Sound) (ha : a.Allowed h) : (a.apply h).Sound :=
  sound_given hh ha.given

/-- Both settings of a new machine have passed their checks, and what is left is the library. -/
theorem Store.addLibrary_of_new {collector : CollectorSettings} {isolates : IsolateSettings}
    {s : Store} (hs : Store.new collector isolates = .ok s) :
    Store.addLibrary
      { collector := ((Collector.new collector).addRoot .globals).1, isolates } .sync = .ok s := by
  unfold Store.new at hs
  cases hc : collector.check with
  | error e => simp [hc, Except.mapError, bind, Except.bind] at hs
  | ok u =>
    cases hi : isolates.check with
    | error e => simp [hc, hi, Except.mapError, bind, Except.bind] at hs
    | ok u' => simpa [hc, hi, Except.mapError, bind, Except.bind] using hs

/-- A new machine has published its library, and that is all. -/
theorem Store.publish_of_new {collector : CollectorSettings} {isolates : IsolateSettings}
    {s : Store} (hs : Store.new collector isolates = .ok s) :
    Store.publish { collector := ((Collector.new collector).addRoot .globals).1, isolates }
      (Native.sync ++ [.mutex]) = s :=
  Except.ok.inj (Store.addLibrary_of_new hs)

/-- A new machine has one root, the global names. -/
theorem Hosted.sound_new {collector : CollectorSettings} {isolates : IsolateSettings} {s : Store}
    (hs : Store.new collector isolates = .ok s) : Hosted.Sound { world := { store := s } } := by
  let g := ((Collector.new collector).addRoot .globals).1
  let own : Ledger := fun id => if id = 1 then .globals else .nobody
  have hempty : World.Sound own none { store := { collector := g, isolates } } := by
    refine ⟨(Collector.tidy_new collector).addRoot .globals, ?_, ?_, ?_, ?_, ?_, ?_, ?_, ?_, ?_⟩
    · intro c o ho
      simp [Store.heap, g, Collector.addRoot, Collector.new, Heap.object?] at ho
    · intro id holder hmem v hv
      obtain ⟨rfl, rfl⟩ : id = 1 ∧ holder = .globals := by
        simpa [g, Collector.addRoot, Collector.new] using hmem
      simp [World.heldBy] at hv
    · intro id hid
      have hlt : 1 < id := hid
      exact if_neg hlt.ne'
    · exact ⟨List.mem_cons_self, rfl⟩
    · intro t s hs
      simp [World.thread] at hs
    · intro t u s hs
      simp [World.thread] at hs
    · intro t r hr
      simp [World.thread] at hr
    · intro t i hi
      simp [World.thread] at hi
    · intro t _
      exact trivial
  exact ⟨own, hempty.library (Store.addLibrary_of_new hs), fun id hid => by cases hid⟩

theorem Reachable.sound {h : Hosted} (hh : Reachable h) : h.Sound := by
  induction hh with
  | new hs => exact Hosted.sound_new hs
  | act _ ha ih => exact Act.sound ih ha

/-- **Nothing reachable dangles.** In every state of every run, a cell that the registered roots and
the immortal cells reach has been allocated and not been freed, and so has every cell that a root or
a reached object refers to. -/
theorem reachable_live (h : Hosted) (hh : Reachable h) :
    let heap := h.world.store.heap
    let starts := h.world.rootValues ++ h.world.store.collector.immortalEdges
    (∀ c, heap.Reaches starts c → heap.Live c) ∧ (∀ v ∈ starts, heap.Holds v) ∧
      ∀ c o, heap.Reaches starts c → heap.object? c = some o → ∀ v ∈ o.edges, heap.Holds v := by
  obtain ⟨own, hw, -⟩ := hh.sound
  have hstarts : ∀ v ∈ h.world.rootValues ++ h.world.store.collector.immortalEdges,
      h.world.store.heap.Holds v := hw.tidy.holds_starts hw.closed hw.holds_rootValues
  refine ⟨fun c hc => hw.closed.live_of_reaches hstarts hc, hstarts, ?_⟩
  exact fun c o _ ho v hv => hw.closed c o ho v hv

/-! ### A run with a collection -/

/-- Acts one after the other, each of them allowed. -/
def Act.AllAllowed (h : Hosted) : List Act → Prop
  | [] => True
  | a :: rest => a.Allowed h ∧ AllAllowed (a.apply h) rest

theorem Reachable.acts {h : Hosted} (hh : Reachable h) {acts : List Act}
    (ha : Act.AllAllowed h acts) : Reachable (acts.foldl Act.apply h) := by
  induction acts generalizing h with
  | nil => exact hh
  | cons a acts ih => exact ih (hh.act ha.1) ha.2

/-- The store of a machine with default settings. -/
def Store.standard : Store :=
  (Store.new {} {}).toOption.getD { collector := Collector.new {}, isolates := {} }

/-- A host thread gets a machine, pushes a list that holds itself, lets go of a text and
collects. -/
def Hosted.knotted : Hosted :=
  List.foldl Act.apply { world := { store := .standard } }
    [.spawn, .assign 0 .enroll, .step 0, .assign 0 .equip, .step 0, .make 0 (.list #[]),
      .push 0 (.ref 11), .pushItem 11 (.ref 11), .make 0 (.str "lost"),
      .assign 0 (.request .collect), .step 0, .step 0, .step 0]

theorem reachable_knotted : Reachable .knotted := by
  have hnew : Reachable { world := { store := .standard } } :=
    .new (show Store.new {} {} = .ok .standard from rfl)
  refine hnew.acts ⟨trivial, ⟨rfl, trivial⟩, trivial, ⟨rfl, trivial⟩, trivial,
    ⟨rfl, by simp [Object.edges]⟩, ⟨rfl, rfl, rfl, Heap.holds_ref.2 rfl⟩,
    ⟨rfl, Heap.holds_ref.2 rfl⟩, ⟨rfl, by simp [Object.edges]⟩, ⟨rfl, trivial⟩, trivial, trivial,
    trivial, trivial⟩

/-- The text is gone, the list on the stack is not. -/
theorem reachable_live_knotted : Reachable .knotted ∧
    Hosted.knotted.world.store.collector.freed = 1 ∧
    Hosted.knotted.world.rootValues.head? = some (.ref 11) ∧
    Hosted.knotted.world.store.heap.Live 11 := by
  refine ⟨reachable_knotted, by decide +kernel, by decide +kernel, ?_⟩
  refine (reachable_live .knotted reachable_knotted).1 11 (.start (List.mem_append_left _ ?_))
  exact List.mem_of_mem_head? (by decide +kernel)

end ScriptCore
