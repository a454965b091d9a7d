import ScriptCore.Proofs.Isolate.Outcome
import ScriptCore.Proofs.Machine.Caller
import ScriptCore.Proofs.World.Panics
import ScriptCore.Proofs.World.Suspended

/-!
# An isolate that gets no thread

Whoever starts an isolate takes the creation lock, makes the future, roots it together with the
function and its arguments and counts the isolate as live, all before there is a thread. If there is
none to be had, everything is given back but the future, which nobody holds, and two names.

* `Store.prepare`, `Store.abandon`: what a start takes, and how that is given back;
* `World.refused`: the world after a start that got no thread;
* `launch_refused`: such a launch hands over the error and leaves `Store.unspawned` behind;
* `World.Refused`: what is as before, and what is not;
* `failed_spawns_leave_nothing`: a start that gets no thread, from the request to its error.
-/

namespace ScriptCore

/-- A root that is taken out at once leaves nothing but its name. -/
theorem Collector.removeRoot_addRoot {g : Collector}
    (hlt : ∀ id ∈ g.roots.map (·.1), id < g.nextId) (holder : Holder) :
    (g.addRoot holder).1.removeRoot g.nextId = .ok { g with nextId := g.nextId + 1 } := by
  have hroots : (g.addRoot holder).1.roots.filter (·.1 != g.nextId) = g.roots := by
    refine (List.filter_cons_of_neg (by simp)).trans (List.filter_eq_self.2 fun r hr => ?_)
    simpa using (hlt r.1 (List.mem_map_of_mem hr)).ne
  rw [removeRoot, if_pos (by simp [addRoot]), hroots]
  rfl

namespace Store

variable {s : Store} {storage : StorageId} {function : Value} {args : Array Value} {why : String}

/-- What the start of an isolate takes before it asks for a thread: the future, a root for it, the
function and the arguments, and a place among the isolates. -/
def prepare (s : Store) (storage : StorageId) (function : Value) (args : Array Value) :
    Store × Collector.Guard :=
  let (s, future) := s.make storage (.future none)
  let (g, transfer) := s.collector.guardRoot (.pinned (#[.ref future, function] ++ args))
  ({ s with collector := g, spawned := s.spawned + 1, live := s.live + 1 }, transfer)

/-- The guards of a start that got no thread are given up, one after the other. -/
def abandon (s : Store) (transfer : Collector.Guard) : Except Panic Store := do
  let s := { s with live := s.live - 1 }
  let g ← transfer.release s.collector
  return { s with collector := g, creating := false }

/-- What a start that got no thread leaves behind: a future on the caller's list, and the names of
an isolate and of a root. -/
def unspawned (s : Store) (storage : StorageId) : Store :=
  let g := (s.collector.make storage (.future none)).1
  { s with
    collector := { g with nextId := g.nextId + 1 }
    spawned := s.spawned + 1
    creating := false }

/-- All guards can be given up, and nothing else is left. -/
theorem abandon_prepare (hlt : ∀ id ∈ s.collector.roots.map (·.1), id < s.collector.nextId) :
    (s.prepare storage function args).1.abandon (s.prepare storage function args).2 =
      .ok (s.unspawned storage) := by
  have hremove := Collector.removeRoot_addRoot (g := (s.make storage (.future none)).1.collector)
    hlt (.pinned (#[.ref s.heap.size, function] ++ args))
  exact congrArg (fun r => r >>= fun g => .ok
    { s with collector := g, spawned := s.spawned + 1, creating := false }) hremove

theorem size_unspawned (s : Store) (storage : StorageId) :
    (s.unspawned storage).heap.size = s.heap.size + 1 := Heap.size_alloc _ _

/-- A native call also gets an error object, with the reason the system gave. -/
def refused (s : Store) (storage : StorageId) (why : String) : Consumer → Store
  | .host => s.unspawned storage
  | .call _ _ => ((s.unspawned storage).make storage (.error (Cause.spawnFailed why).failure)).1

/-- The cells that are new. -/
def newCells : Consumer → Nat
  | .host => 1
  | .call _ _ => 2

theorem get?_unspawned (s : Store) (storage : StorageId) (d : CellId) :
    (s.unspawned storage).heap.get? d =
      if d = s.heap.size then some { object := .future none } else s.heap.get? d :=
  Heap.get?_alloc _ _ _

theorem get?_refused_call (s : Store) (storage : StorageId) (why : String) (callee : Nat)
    (outermost : Bool) (d : CellId) : (s.refused storage why (.call callee outermost)).heap.get? d =
      if d = s.heap.size + 1 then some { object := .error (Cause.spawnFailed why).failure }
      else (s.unspawned storage).heap.get? d := by
  rw [← size_unspawned s storage]
  exact Heap.get?_alloc _ _ _

theorem get?_refused (s : Store) (storage : StorageId) (why : String) (k : Consumer) {d : CellId}
    (hd : d < s.heap.size) : (s.refused storage why k).heap.get? d = s.heap.get? d := by
  have hold : (s.unspawned storage).heap.get? d = s.heap.get? d := by
    rw [get?_unspawned, if_neg hd.ne]
  cases k with
  | host => exact hold
  | call callee outermost =>
    rw [get?_refused_call, if_neg (hd.trans (Nat.lt_succ_self _)).ne, hold]

theorem get?_refused_future (s : Store) (storage : StorageId) (why : String) (k : Consumer) :
    (s.refused storage why k).heap.get? s.heap.size = some { object := .future none } := by
  have hnew : (s.unspawned storage).heap.get? s.heap.size = some { object := .future none } := by
    rw [get?_unspawned, if_pos rfl]
  cases k with
  | host => exact hnew
  | call callee outermost => rw [get?_refused_call, if_neg (Nat.lt_succ_self _).ne, hnew]

theorem get?_refused_error (s : Store) (storage : StorageId) (why : String) (callee : Nat)
    (outermost : Bool) :
    (s.refused storage why (.call callee outermost)).heap.get? (s.heap.size + 1) =
      some { object := .error (Cause.spawnFailed why).failure } :=
  (get?_refused_call s storage why callee outermost _).trans (if_pos rfl)

theorem size_refused (s : Store) (storage : StorageId) (why : String) (k : Consumer) :
    (s.refused storage why k).heap.size = s.heap.size + newCells k := by
  cases k with
  | host => exact size_unspawned s storage
  | call callee outermost =>
    exact (Heap.size_alloc _ _).trans (congrArg (· + 1) (size_unspawned s storage))

theorem roots_refused (s : Store) (storage : StorageId) (why : String) (k : Consumer) :
    (s.refused storage why k).collector.roots = s.collector.roots := by
  cases k <;> rfl

theorem immortals_refused (s : Store) (storage : StorageId) (why : String) (k : Consumer) :
    (s.refused storage why k).collector.immortals = s.collector.immortals := by
  cases k <;> rfl

theorem globals_refused (s : Store) (storage : StorageId) (why : String) (k : Consumer) :
    (s.refused storage why k).globals = s.globals := by
  cases k <;> rfl

theorem storages_refused (s : Store) (storage : StorageId) (why : String) (k : Consumer) :
    (s.refused storage why k).collector.storages.map (·.id) = s.collector.storages.map (·.id) := by
  cases k with
  | host => exact Collector.Tidy.ids_make s.collector storage (.future none)
  | call callee outermost =>
    exact (Collector.Tidy.ids_make (s.unspawned storage).collector storage _).trans
      (Collector.Tidy.ids_make s.collector storage (.future none))

/-- The lists of other threads have no new cells. -/
theorem mem_storages_refused {st : Storage} (hst : st ∈ s.collector.storages)
    (hne : st.id ≠ storage) (k : Consumer) : st ∈ (s.refused storage why k).collector.storages := by
  have hmake : ∀ {g : Collector} (o : Object), st ∈ g.storages →
      st ∈ (g.make storage o).1.storages := fun o hst => List.mem_map.2 ⟨st, hst, if_neg hne⟩
  cases k with
  | host => exact hmake (.future none) hst
  | call callee outermost => exact hmake _ (hmake (.future none) hst)

/-- The new cells are counted, and they may make a collection due. -/
theorem counted_refused (s : Store) (storage : StorageId) (why : String) (k : Consumer) :
    let g := (s.refused storage why k).collector
    g.allocCount = s.collector.allocCount + newCells k ∧
      g.requested = (s.collector.requested || decide (s.collector.threshold ≤ g.allocCount)) := by
  cases k with
  | host => exact ⟨rfl, rfl⟩
  | call callee outermost =>
    refine ⟨rfl, ?_⟩
    let n := s.collector.allocCount + 1
    let limit := s.collector.threshold
    show ((s.collector.requested || decide (limit ≤ n)) || decide (limit ≤ n + 1)) =
      (s.collector.requested || decide (limit ≤ n + 1))
    rw [Bool.or_assoc, ← Bool.decide_or]
    have hor : (limit ≤ n ∨ limit ≤ n + 1) ↔ limit ≤ n + 1 := by omega
    rw [decide_eq_decide.2 hor]

end Store

/-- A machine whose call is refused: it is back at the depth of the outermost call, and the error is
on top. -/
def Vm.refused (vm : Vm) (e : CellId) : Consumer → Vm
  | .host => vm
  | .call _ true => ⟨vm.stack.push (.ref e), [], vm.depth, true⟩
  | .call _ false => ⟨(vm.stack.shrink vm.entry).push (.ref e), [], vm.entry, true⟩

/-- What a thread does after a refusal. -/
def Role.refused (role : Role) (why : String) : Consumer → Control
  | .host => .finished (.failed (.spawnFailed why))
  | .call _ true => role.entered
  | .call _ false => role.ended

namespace World

variable {w : World} {t u : ThreadId} {s s' : Store} {vm vm' : Vm} {c c' : Control} {why : String}

theorem modifyThread_modifyThread (w : World) (t : ThreadId) (f g : Thread → Thread) :
    (w.modifyThread t f).modifyThread t g = w.modifyThread t (g ∘ f) := by
  have hthreads : ((w.modifyThread t f).modifyThread t g).threads =
      (w.modifyThread t (g ∘ f)).threads := by
    apply Array.ext_getElem?
    intro u
    simp only [modifyThread, Array.getElem?_modify]
    split
    · rw [Option.map_map]
    · rfl
  exact congrArg (fun threads => { w with threads }) hthreads

/-- The store is this one, and the thread has this machine and does this next. -/
def put (w : World) (t : ThreadId) (s : Store) (vm : Vm) (c : Control) : World :=
  { w with store := s }.modifyThread t fun th => { th with vm, control := c }

theorem setControl_setVm (w : World) (t : ThreadId) (vm : Vm) (c : Control) :
    (w.setVm t vm).setControl t c = w.put t w.store vm c :=
  modifyThread_modifyThread w t _ _

theorem setControl_put : (w.put t s vm c).setControl t c' = w.put t s vm c' :=
  modifyThread_modifyThread _ t _ _

theorem setVm_put : (w.put t s vm c).setVm t vm' = w.put t s vm' c :=
  modifyThread_modifyThread _ t _ _

theorem thread_put (ht : t < w.threads.size) :
    (w.put t s vm c).thread t = { w.thread t with vm, control := c } :=
  thread_modifyThread_self _ ht

theorem thread_put_of_ne (hu : u ≠ t) : (w.put t s vm c).thread u = w.thread u :=
  thread_modifyThread_of_ne _ hu

theorem size_put : (w.put t s vm c).threads.size = w.threads.size := size_modifyThread _

theorem caller_put (ht : t < w.threads.size) :
    ((w.put t s vm c).thread t).caller t = (w.thread t).caller t := by
  rw [thread_put ht]
  rfl

theorem setVm_self (w : World) (t : ThreadId) : w.setVm t (w.thread t).vm = w := by
  have htwice : (w.setVm t (w.thread t).vm).setVm t (w.thread t).vm = w.setVm t (w.thread t).vm :=
    modifyThread_modifyThread w t _ _
  exact htwice.symm.trans (setVm_setVm_self w t _)

theorem resumed_eq (w : World) (t : ThreadId) (vm : Vm) : w.resumed t vm w.store = w.setVm t vm :=
  modifyThread_modifyThread w t (fun th => { th with vm := {} }) fun th => { th with vm }

/-- The world after a start of an isolate that got no thread. -/
def refused (w : World) (t : ThreadId) (why : String) (k : Consumer) : World :=
  w.put t (w.store.refused ((w.thread t).caller t).storage why k)
    ((w.thread t).vm.refused (w.store.heap.size + 1) k) ((w.thread t).role.refused why k)

/-! ### The launch -/

/-- Without a thread the launch is taken back. -/
theorem launch_refused (hdrawn : w.Drawn) (hname : w.store.Nameable)
    (hshort : w.store.shortage = some why) (t : ThreadId) (function : Value)
    (args : Array Value) (k : Consumer) :
    w.launch t function args k =
      { w with store := w.store.unspawned ((w.thread t).caller t).storage }.deliver t k
        (.failed (.spawnFailed why)) := by
  let s := (w.store.make ((w.thread t).caller t).storage (.future none)).1
  have hremove : (w.anchored t function args).store.collector.removeRoot
      w.store.collector.nextId = .ok { s.collector with nextId := s.collector.nextId + 1 } :=
    Collector.removeRoot_addRoot (g := s.collector) hdrawn.lt _
  have hdropped : (w.anchored t function args).dropRoot w.store.collector.nextId =
      { w with store := w.store.unspawned ((w.thread t).caller t).storage } := by
    unfold dropRoot
    rw [hremove]
    rfl
  have hname' : (s.isolates.threadName s.spawned).toList.contains (Char.ofNat 0) = false :=
    hname.threadName _
  rw [← hdropped]
  unfold World.launch
  refine (if_neg (Bool.eq_false_iff.1 hname')).trans ?_
  split
  · rename_i reason hreason
    cases hshort.symm.trans hreason
    rfl
  · rename_i hgranted
    cases hshort.symm.trans hgranted

/-- A call fails with an error object. -/
theorem proceed_put (ht : t < w.threads.size) (outermost : Bool) (vm' : Vm) (e : Cause) :
    (w.put t s vm c).proceed t outermost vm' (some e) =
      w.put t (s.make ((w.thread t).caller t).storage (.error e.failure)).1
        ⟨(vm'.stack.shrink vm'.entry).push (.ref s.heap.size), [], vm'.entry, true⟩
        (if outermost then (w.thread t).role.entered else (w.thread t).role.ended) := by
  let s' := (s.make ((w.thread t).caller t).storage (.error e.failure)).1
  let vm₁ : Vm := ⟨(vm'.stack.shrink vm'.entry).push (.ref s.heap.size), [], vm'.entry, true⟩
  have hfail : vm'.fail (((w.put t s vm c).thread t).caller t) e (w.put t s vm c).store =
      (vm₁, s') := by
    rw [caller_put ht]
    rfl
  have hset : (mk s' (w.put t s vm c).threads (w.put t s vm c).line).setVm t vm₁ =
      w.put t s' vm₁ c :=
    modifyThread_modifyThread { w with store := s' } t (fun th => { th with vm, control := c })
      fun th => { th with vm := vm₁ }
  have hrole : ((w.put t s' vm₁ c).thread t).role = (w.thread t).role := by rw [thread_put ht]
  simp only [proceed, hfail, hset, endEnter_eq, endRun_eq, hrole, setControl_put]
  cases outermost <;> rfl

/-- The error is handed over. -/
theorem deliver_put (ht : t < w.threads.size) (callee : Nat) (outermost : Bool) (e : Cause) :
    (w.put t s vm c).deliver t (.call callee outermost) (.failed e) =
      w.put t (s.make ((w.thread t).caller t).storage (.error e.failure)).1
        ⟨(vm.stack.shrink vm.entry).push (.ref s.heap.size), [], vm.entry, true⟩
        (if outermost then (w.thread t).role.entered else (w.thread t).role.ended) := by
  have hvm : ((w.put t s vm c).thread t).vm = vm := by rw [thread_put ht]
  have htaken : (w.put t s vm c).setVm t {} = w.put t s {} c := setVm_put
  simp only [World.deliver, takeVm, hvm, htaken, proceed_put ht]

/-! ### The request and its two steps -/

variable {function : Value} {args : Array Value} {k : Consumer} {w₁ : World}

/-- Whoever asks for an isolate gets the creation lock at once if it is free. -/
theorem ready_request_start (ht : t < w.threads.size) (function : Value) (args : Array Value)
    (k : Consumer) : (w.request t (.start function args) k).ready t = !w.store.creating := by
  let after : After := .start function args k
  have hcreating : (w.park t).store.creating = w.store.creating := by
    unfold park
    split <;> rfl
  have hcontrol : (w.block t .creation after).control t = .blocked .creation after :=
    congrArg Thread.control (becomes_setControl (threads_park w t) ht _).mine
  rw [← hcreating]
  simp only [request, ready, show (w.block t .creation (.start function args k)).control t = _ from
    hcontrol]
  rfl

/-- Where the start of an isolate is asked for: a registered thread has this machine by then. -/
structure Outset (w : World) (t : ThreadId) (function : Value) (args : Array Value) (k : Consumer)
    (vm : Vm) (w₁ : World) : Prop where
  world : w₁ = w.setVm t vm
  registered : (w.thread t).storage.isSome
  handed : (After.start function args k).Handed w.store.heap
  host : k = .host → vm = (w.thread t).vm
  /-- A call that fails goes back to the depth of the outermost one. -/
  unwinds : ∀ callee outermost, k = .call callee outermost → ∀ e,
    ⟨(vm.stack.shrink vm.entry).push (.ref e), [], vm.entry, true⟩ = (w.thread t).vm.refused e k

theorem outset_enter {function' : Value} {args' : Array Value} {callee : Nat}
    (hequipped : (w.thread t).Equipped)
    (henter : (w.thread t).vm.enter ((w.thread t).caller t) function' args' w.store =
      (vm, s, .suspended callee (.start function args))) :
    w.Outset t function args (.call callee true) vm (w.resumed t vm s) := by
  obtain ⟨rfl, -⟩ := Vm.asking_enter henter
  refine ⟨resumed_eq w t vm, hequipped.1, trivial, fun hk => (by cases hk), ?_⟩
  rintro _ _ ⟨⟩ e
  have hvm := Vm.invoke_eq_suspended henter
  have hstack : vm.stack.shrink vm.entry = (w.thread t).vm.stack := by
    rw [hvm]
    apply Array.toList_inj.1
    simp [Vm.pushAll, Vm.push, Vm.depth]
  rw [hstack, hvm]
  rfl

theorem Asks.outset {c : Chronicle} {a : Act} (hrun : Run Act.Proper c) (ha : a.Proper c)
    (hask : Asks c.world t (.start function args) a k w₁) :
    ∃ vm, c.world.Outset t function args k vm w₁ := by
  obtain ⟨own, hsound, -⟩ := hrun.hosted
  cases hask with
  | task =>
    obtain ⟨-, hstorage, hfunction, hargs⟩ := ha.2
    exact ⟨(c.world.thread t).vm, (setVm_self _ t).symm, hstorage, ⟨hfunction, hargs⟩,
      fun _ => rfl, by rintro _ _ ⟨⟩⟩
  | @instruction vm s callee hexecutes hstep =>
    have hequipped := hsound.equipped_of_executes hexecutes
    obtain ⟨rfl, -⟩ := Vm.asking_step hstep
    obtain ⟨hstack, hentry⟩ := Vm.step_eq_suspended hstep
    refine ⟨vm, resumed_eq _ t vm, hequipped.1, trivial, fun hk => (by cases hk), ?_⟩
    rintro _ _ ⟨⟩ e
    rw [hstack, hentry]
    rfl
  | @call vm s callee function' args' henter => exact ⟨vm, outset_enter ha.2.2.1 henter⟩
  | @isolate vm s callee i hentering hrole henter =>
    have hstands := hsound.stands t (by simp)
    rw [show (c.world.thread t).control = _ from hentering] at hstands
    exact ⟨vm, outset_enter hstands.1 henter⟩

namespace Outset

variable (h : w.Outset t function args k vm w₁)

include h

theorem known : t < w.threads.size := lt_size_of_storage h.registered

/-- The thread waits for the creation lock. -/
theorem request_eq : w₁.request t (.start function args) k =
    w.put t (w.store.modifySync (·.park)) vm (.blocked .creation (.start function args k)) := by
  have hstorage : ((w.setVm t vm).thread t).storage.isSome := by
    rw [storage_setVm]
    exact h.registered
  rw [h.world, World.request, block, park, if_pos hstorage]
  exact setControl_setVm { w with store := w.store.modifySync (·.park) } t vm _

/-- It takes the lock. -/
theorem step_blocked {s : Store} {k' : After} : (w.put t s vm (.blocked .creation k')).step t =
    w.put t { s with creating := true } vm (.leaving .done k') := by
  have hstep : (w.put t s vm (.blocked .creation k')).step t =
      ((w.put t s vm (.blocked .creation k')).modifyStore fun s =>
        { s with creating := true }).setControl t (.leaving .done k') := by
    simp only [World.step, thread_put h.known, passWait]
  rw [hstep]
  exact modifyThread_modifyThread { w with store := { s with creating := true } } t
    (fun th => { th with vm, control := .blocked .creation k' })
    fun th => { th with control := .leaving .done k' }

/-- It gets no thread for the isolate. -/
theorem step_leaving (hdrawn : w.Drawn) (hname : w.store.Nameable)
    (hshort : w.store.shortage = some why) :
    (w.put t { w.store.modifySync (·.park) with creating := true } vm
      (.leaving .done (.start function args k))).step t = w.refused t why k := by
  let after : Control := .leaving .done (.start function args k)
  let taken : Store := { w.store with creating := true }
  have hthread : ∀ s, (w.put t s vm after).thread t = { w.thread t with vm, control := after } :=
    fun s => thread_put h.known
  have hunpark : (w.put t { w.store.modifySync (·.park) with creating := true } vm after).unpark t =
      w.put t taken vm after := by
    rw [unpark, hthread, if_pos h.registered]
    rfl
  have hlaunch : (w.put t taken vm after).launch t function args k =
      (w.put t (w.store.unspawned ((w.thread t).caller t).storage) vm after).deliver t k
        (.failed (.spawnFailed why)) := by
    rw [launch_refused (w := w.put t taken vm after) ⟨hdrawn.nodup, hdrawn.lt⟩ hname hshort,
      caller_put h.known]
    rfl
  have hstep : (w.put t { w.store.modifySync (·.park) with creating := true } vm after).step t =
      (w.put t taken vm after).launch t function args k := by
    rw [← hunpark]
    simp only [World.step, hthread, after, continueWith]
  rw [show (w.put t _ vm (.leaving .done (.start function args k))).step t = _ from hstep, hlaunch]
  cases hk : k with
  | host => exact setControl_put.trans (by rw [h.host hk]; rfl)
  | call callee outermost =>
    rw [deliver_put h.known, h.unwinds _ _ hk, hk, Store.size_unspawned]
    cases outermost <;> rfl

end Outset

/-! ### What is left -/

section refused

variable {own own' : Ledger} {d : CellId}

theorem thread_refused (ht : t < w.threads.size) (why : String) (k : Consumer) :
    (w.refused t why k).thread t = { w.thread t with
      vm := (w.thread t).vm.refused (w.store.heap.size + 1) k
      control := (w.thread t).role.refused why k } := thread_put ht

theorem object?_refused (why : String) (k : Consumer) (hd : w.store.heap.Live d) :
    (w.refused t why k).store.heap.object? d = w.store.heap.object? d := by
  have hget := w.store.get?_refused ((w.thread t).caller t).storage why k (Heap.lt_size_of_live hd)
  exact congrArg (Option.map Cell.object) hget

/-- The roots hold what they held, and perhaps the error. -/
theorem holds_rootValues_refused (h : w.Sound own none) (ht : t < w.threads.size) {v : Value}
    (hv : v ∈ (w.refused t why k).rootValues) :
    w.store.heap.Holds v ∨ v = .ref (w.store.heap.size + 1) := by
  obtain ⟨id, holder, hmem, hv⟩ := mem_rootValues.1 hv
  rw [show (w.refused t why k).store.collector.roots = _ from w.store.roots_refused _ why k] at hmem
  have hheld : v ∈ w.heldBy holder → w.store.heap.Holds v := h.held id holder hmem v
  cases holder with
  | globals =>
    rw [heldBy,
      show (w.refused t why k).store.globals = _ from w.store.globals_refused _ why k] at hv
    exact .inl (hheld hv)
  | pinned vs => exact .inl (hheld hv)
  | stack u =>
    rw [heldBy] at hv
    by_cases hu : u = t
    · subst hu
      rw [thread_refused ht] at hv
      have hshrink : ∀ n, v ∈ (w.thread u).vm.stack.shrink n → v ∈ w.heldBy (.stack u) := by
        intro n hmem
        rw [← Array.mem_toList_iff, Array.toList_shrink] at hmem
        exact List.mem_of_mem_take hmem
      have hpush : ∀ {vs : Array Value} {e : CellId}, v ∈ (vs.push (.ref e)).toList →
          v ∈ vs ∨ v = .ref e := fun hmem => Array.mem_push.1 (Array.mem_toList_iff.1 hmem)
      cases k with
      | host => exact .inl (hheld hv)
      | call callee outermost =>
        cases outermost with
        | true => exact (hpush hv).imp_left fun hmem => hheld (Array.mem_toList_iff.2 hmem)
        | false => exact (hpush hv).imp_left fun hmem => hheld (hshrink _ hmem)
    · rw [show (w.refused t why k).thread u = _ from thread_put_of_ne hu] at hv
      exact .inl (hheld hv)

theorem immortalEdges_refused (h : w.Sound own none) (t : ThreadId) (why : String) (k : Consumer) :
    (w.refused t why k).store.collector.immortalEdges = w.store.collector.immortalEdges := by
  have himmortals : (w.refused t why k).store.collector.immortals = w.store.collector.immortals :=
    w.store.immortals_refused _ why k
  rw [Collector.immortalEdges, Collector.immortalEdges, himmortals]
  refine List.flatMap_congr fun c hc => ?_
  have hobject := object?_refused (t := t) why k ((h.tidy.listed.mem_immortals c).1 hc).live
  exact congrArg (fun o => (o.map Object.edges).getD []) hobject

/-- What the roots lead to was there before, or is the error. -/
theorem live_of_rooted_refused (h : w.Sound own none) (ht : t < w.threads.size)
    (hd : (w.refused t why k).Rooted d) : w.store.heap.Live d ∨ d = w.store.heap.size + 1 := by
  induction hd with
  | @start d hd =>
    rcases List.mem_append.1 hd with hd | hd
    · rcases holds_rootValues_refused h ht hd with hlive | herror
      · exact .inl (Heap.holds_ref.1 hlive)
      · exact .inr (Value.ref.inj herror)
    · rw [immortalEdges_refused h] at hd
      have hedges := h.tidy.holds_starts h.closed h.holds_rootValues
      exact .inl (Heap.holds_ref.1 (hedges _ (List.mem_append_right _ hd)))
  | @step c d _ hpoints ih =>
    obtain ⟨o, ho, hedge⟩ := hpoints
    rcases ih with hlive | rfl
    · rw [object?_refused why k hlive] at ho
      exact .inl (Heap.holds_ref.1 (h.closed c o ho _ hedge))
    · cases k with
      | host =>
        have hnone : (w.refused t why .host).store.heap.object? (w.store.heap.size + 1) = none := by
          by_contra hsome
          have hlive := Heap.live_iff_object?.2 (Option.ne_none_iff_exists'.1 hsome)
          have hlt := Heap.lt_size_of_live hlive
          rw [show (w.refused t why .host).store.heap.size = _ from
            w.store.size_refused _ why _] at hlt
          exact lt_irrefl _ hlt
        rw [hnone] at ho
        cases ho
      | call callee outermost =>
        have herror : (w.refused t why (.call callee outermost)).store.heap.object?
            (w.store.heap.size + 1) = some (.error (Cause.spawnFailed why).failure) :=
          congrArg (Option.map Cell.object) (w.store.get?_refused_error _ why callee outermost)
        rw [herror] at ho
        cases ho
        cases hedge

/-- Nobody holds the future. -/
theorem not_rooted_refused (h : w.Sound own none) (ht : t < w.threads.size) :
    ¬ (w.refused t why k).Rooted w.store.heap.size := by
  intro hrooted
  rcases live_of_rooted_refused h ht hrooted with hlive | heq
  · exact (Heap.lt_size_of_live hlive).ne rfl
  · exact (Nat.lt_succ_self _).ne heq

/-! ### The next collection -/

/-- A collection leaves a cell alone that may not be freed or that the roots lead to. -/
theorem Sound.get?_collect_of_kept (h : w.Sound own none)
    (hd : w.store.heap.Mortal d → w.Rooted d) :
    w.collect.store.heap.get? d = w.store.heap.get? d := by
  by_cases hm : w.store.heap.Mortal d
  · have hlive := h.live_of_rooted (hd hm)
    have hsurvives : w.store.collector.Survives w.rootValues d :=
      .inr ((hd hm).clearPath h.tidy.unmarked hlive)
    obtain ⟨cell, hcell, -⟩ := id hm
    have hmark : cell.marked = false := by
      have hunmarked := h.tidy.unmarked d hm
      rwa [Heap.isMarked, show w.store.collector.heap.get? d = _ from hcell] at hunmarked
    refine (Collector.get?_collect_of_survives h.tidy.listed hm hsurvives).trans ?_
    rw [show w.store.collector.heap.get? d = _ from hcell, hcell, Option.map_some, ← hmark]
  · exact Collector.get?_collect_of_not_mortal h.tidy.listed hm

/-- It frees every other cell. -/
theorem Sound.get?_collect_of_dropped (h : w.Sound own none) (hm : w.store.heap.Mortal d)
    (hd : ¬ w.Rooted d) : w.collect.store.heap.get? d = none := by
  refine Collector.get?_collect_of_not_survives h.tidy.listed hm fun hs => ?_
  rcases hs with hmark | hpath
  · rw [h.tidy.unmarked d hm] at hmark
    cases hmark
  · exact hd hpath.reaches

theorem mortal_refused (t : ThreadId) (why : String) (k : Consumer) :
    (w.refused t why k).store.heap.Mortal w.store.heap.size :=
  ⟨_, w.store.get?_refused_future _ why k, rfl⟩

/-- A task that is refused changes nothing that the roots lead to. -/
theorem rooted_refused_host (h : w.Sound own none) (ht : t < w.threads.size) :
    (w.refused t why .host).Rooted d ↔ w.Rooted d := by
  have hheld : ∀ holder, (w.refused t why .host).heldBy holder = w.heldBy holder := by
    intro holder
    cases holder with
    | stack u =>
      by_cases hu : u = t
      · subst hu
        rw [heldBy, heldBy, thread_refused ht]
        rfl
      · rw [heldBy, heldBy, show (w.refused t why .host).thread u = _ from thread_put_of_ne hu]
    | _ => rfl
  have hroots : (w.refused t why .host).rootValues = w.rootValues :=
    List.flatMap_congr fun r _ => hheld r.2
  have hstarts : (w.refused t why .host).store.collector.starts (w.refused t why .host).rootValues =
      w.store.collector.starts w.rootValues := by
    rw [Collector.starts, Collector.starts, hroots, immortalEdges_refused h]
  unfold Rooted
  rw [hstarts]
  exact Heap.reaches_congr fun c hc => object?_refused why .host (h.live_of_rooted hc)

/-- After the next collection the heap is as if the task had not been tried. -/
theorem get?_collect_refused (h : w.Sound own none) (h' : (w.refused t why .host).Sound own' none)
    (ht : t < w.threads.size) (d : CellId) :
    (w.refused t why .host).collect.store.heap.get? d = w.collect.store.heap.get? d := by
  by_cases hd : d = w.store.heap.size
  · subst hd
    have hnone : w.store.heap.get? w.store.heap.size = none := w.store.heap.get?_size
    have hkept : w.store.heap.Mortal w.store.heap.size → w.Rooted w.store.heap.size := by
      rintro ⟨cell, hcell, -⟩
      rw [hnone] at hcell
      cases hcell
    rw [h'.get?_collect_of_dropped (mortal_refused t why .host) (not_rooted_refused h ht),
      h.get?_collect_of_kept hkept, hnone]
  · have hget : (w.refused t why .host).store.heap.get? d = w.store.heap.get? d :=
      (w.store.get?_unspawned _ d).trans (if_neg hd)
    have hmortal : (w.refused t why .host).store.heap.Mortal d ↔ w.store.heap.Mortal d := by
      rw [Heap.Mortal, Heap.Mortal, hget]
    by_cases hkept : w.store.heap.Mortal d → w.Rooted d
    · rw [h.get?_collect_of_kept hkept, h'.get?_collect_of_kept, hget]
      rwa [hmortal, rooted_refused_host h ht]
    · obtain ⟨hm, hdropped⟩ := Classical.not_imp.1 hkept
      rw [h.get?_collect_of_dropped hm hdropped, h'.get?_collect_of_dropped (hmortal.2 hm)]
      rwa [rooted_refused_host h ht]

end refused

/-- What a start that got no thread has changed, and what is as before. -/
structure Refused (w : World) (t : ThreadId) (why : String) (k : Consumer) (w' : World) : Prop where
  /-- A task comes back with a thread error, and this is all that the thread can tell. -/
  error : k = .host → ∃ e : Cause,
    e.failure = ⟨.thread, "could not spawn isolate thread: " ++ why⟩ ∧
    w'.thread t = { w.thread t with control := .finished (.failed e) }
  /-- A native call has unwound to the depth of the outermost call, where the error is its
  result. -/
  unwound : ∀ callee outermost, k = .call callee outermost → ∃ e,
    w'.thread t = { w.thread t with
      vm := (w.thread t).vm.refused e k
      control := (w.thread t).role.refused why k } ∧
    w'.store.heap.object? e = some (.error ⟨.thread, "could not spawn isolate thread: " ++ why⟩)
  /-- No isolate is there, and no thread has done anything. -/
  threads : w'.threads.size = w.threads.size ∧ ∀ u, u ≠ t → w'.thread u = w.thread u
  live : w'.store.live = w.store.live
  roots : w'.store.collector.roots = w.store.collector.roots
  globals : w'.store.globals = w.store.globals
  locks : w'.store.locks = w.store.locks
  /-- Nobody is parked, and as many pauses are active. -/
  sync : w'.store.collector.sync = w.store.collector.sync
  storages : w'.store.collector.storages.map (·.id) = w.store.collector.storages.map (·.id)
  /-- The lists of other threads are what they were. -/
  lists : ∀ st ∈ w.store.collector.storages, st.id ≠ ((w.thread t).caller t).storage →
    st ∈ w'.store.collector.storages
  cells : ∀ d cell, w.store.heap.get? d = some cell → w'.store.heap.get? d = some cell
  /-- There is a future without a value; for a call there is an error object, too. -/
  size : w'.store.heap.size = w.store.heap.size + Store.newCells k
  future : w'.store.heap.get? w.store.heap.size = some { object := .future none }
  counted : w'.store.collector.allocCount = w.store.collector.allocCount + Store.newCells k ∧
    w'.store.collector.requested = (w.store.collector.requested ||
      decide (w.store.collector.threshold ≤ w'.store.collector.allocCount))
  /-- Nobody holds the future, and the next collection frees it. -/
  unrooted : ¬ w'.Rooted w.store.heap.size
  freed : ¬ w'.collect.store.heap.Live w.store.heap.size
  /-- After a task that was refused, the next collection leaves what it would have left. -/
  collected : k = .host → ∀ d, w'.collect.store.heap.get? d = w.collect.store.heap.get? d
  /-- The names of an isolate and of a root are used up. -/
  names : w'.store.spawned = w.store.spawned + 1 ∧
    w'.store.collector.nextId = w.store.collector.nextId + 1
  /-- The creation lock is free: whoever asks for an isolate next gets it. -/
  free : w'.store.creating = false ∧ ∀ u < w'.threads.size, ∀ function args k',
    (w'.request u (.start function args) k').ready u = true

theorem refused_refused {own own' : Ledger} (h : w.Sound own none)
    (h' : (w.refused t why k).Sound own' none) (ht : t < w.threads.size) :
    w.Refused t why k (w.refused t why k) where
  error hk := by
    subst hk
    exact ⟨.spawnFailed why, rfl, thread_refused ht why .host⟩
  unwound callee outermost hk := by
    subst hk
    refine ⟨_, thread_refused ht why _, ?_⟩
    exact congrArg (Option.map Cell.object) (w.store.get?_refused_error _ why callee outermost)
  threads := ⟨size_put, fun u hu => thread_put_of_ne hu⟩
  live := by cases k <;> rfl
  roots := w.store.roots_refused _ why k
  globals := w.store.globals_refused _ why k
  locks := by cases k <;> rfl
  sync := by cases k <;> rfl
  storages := w.store.storages_refused _ why k
  lists st hst hne := Store.mem_storages_refused hst hne k
  cells d cell hcell := by
    have hlive : w.store.heap.Live d := by rw [Heap.Live, hcell]; rfl
    exact (w.store.get?_refused _ why k (Heap.lt_size_of_live hlive)).trans hcell
  size := w.store.size_refused _ why k
  future := w.store.get?_refused_future _ why k
  counted := by
    obtain ⟨hcount, hrequested⟩ := w.store.counted_refused ((w.thread t).caller t).storage why k
    exact ⟨hcount, hrequested⟩
  unrooted := not_rooted_refused h ht
  freed := by
    rw [Heap.Live, h'.get?_collect_of_dropped (mortal_refused t why k) (not_rooted_refused h ht)]
    simp
  collected hk d := by
    subst hk
    exact get?_collect_refused h h' ht d
  names := by cases k <;> exact ⟨rfl, rfl⟩
  free := by
    have hfree : (w.refused t why k).store.creating = false := by cases k <;> rfl
    refine ⟨hfree, fun u hu function args k' => ?_⟩
    rw [ready_request_start hu, hfree]
    rfl

end World

/-- The start of an isolate that gets no thread while nobody else acts: the request, the creation
lock, and the refusal. -/
structure Chronicle.Spurned (c : Chronicle) (t : ThreadId) (function : Value) (args : Array Value)
    (why : String) (k : Consumer) (c₁ c₂ c₃ : Chronicle) : Prop where
  run : Run Act.Proper c₃
  waits : c₁.world.control t = .blocked .creation (.start function args k)
  locked : c₂.world.store.creating = true
  /-- There is never another thread, and those that are there do nothing. -/
  others : ∀ c' ∈ [c₁, c₂, c₃], c'.world.threads.size = c.world.threads.size ∧
    ∀ u, u ≠ t → c'.world.thread u = c.world.thread u
  /-- What the start had taken is given back by its guards, none of which fails. -/
  undone : let storage := ((c.world.thread t).caller t).storage
    let (s, transfer) := c.world.store.prepare storage function args
    s.abandon transfer = .ok (c.world.store.unspawned storage)
  /-- Nothing else has changed. -/
  world : c₃.world = c.world.refused t why k
  refused : c.world.Refused t why k c₃.world

/-- **A start that gets no thread leaves nothing behind.** In any state of any run, with any number
of isolates at work, a thread asks for an isolate, as a task or by a native call, and the system has
no thread for it. By itself it gets through exactly if nobody holds the creation lock and no
collection is under way. Then it gets the error, with the reason of the system, and all that is left
are a future that nobody holds and two names. -/
theorem failed_spawns_leave_nothing (c : Chronicle) (a : Act) (t : ThreadId) (function : Value)
    (args : Array Value) (why : String) (k : Consumer) (w : World) (hrun : Run Act.Proper c)
    (ha : a.Proper c) (hask : World.Asks c.world t (.start function args) a k w)
    (hname : c.world.store.Nameable) (hshort : c.world.store.shortage = some why) :
    let c₁ := a.record c
    let c₂ := (Act.step t).record c₁
    let c₃ := (Act.step t).record c₂
    (c₁.world.ready t = true ∧ c₂.world.ready t = true ↔
      c.world.store.creating = false ∧ c.world.collecting = false) ∧
    (c.world.store.creating = false → c.world.collecting = false →
      c.Spurned t function args why k c₁ c₂ c₃) := by
  intro c₁ c₂ c₃
  obtain ⟨own, hsound, -⟩ := hrun.hosted
  obtain ⟨vm, h⟩ := hask.outset hrun ha
  let after : After := .start function args k
  let s₁ := c.world.store.modifySync (·.park)
  have hworld₁ : c₁.world = c.world.put t s₁ vm (.blocked .creation after) :=
    (hask.apply_eq).trans h.request_eq
  have hworld₂ : c₂.world = c.world.put t { s₁ with creating := true } vm (.leaving .done after) :=
    (congrArg (World.step · t) hworld₁).trans h.step_blocked
  have hworld₃ : c₃.world = c.world.refused t why k :=
    (congrArg (World.step · t) hworld₂).trans (h.step_leaving hsound.drawn hname hshort)
  have hcontrol₁ : c₁.world.control t = .blocked .creation after := by
    rw [hworld₁, World.control, World.thread_put h.known]
  have hcontrol₂ : c₂.world.control t = .leaving .done after := by
    rw [hworld₂, World.control, World.thread_put h.known]
  have hready₁ : c₁.world.ready t = !c.world.store.creating := by
    simp only [World.ready, hcontrol₁]
    rw [hworld₁]
    rfl
  have hready₂ : c₂.world.ready t = !c.world.collecting := by
    have hstorage : (c₂.world.thread t).storage.isNone = false := by
      rw [hworld₂, World.thread_put h.known]
      simpa using h.registered
    simp only [World.ready, hcontrol₂, hstorage, Bool.or_false]
    rw [hworld₂]
    rfl
  refine ⟨by simp [hready₁, hready₂], fun hfree hquiet => ?_⟩
  have hstep₁ : (Act.step t).Proper c₁ :=
    Act.proper_step (by rw [hready₁, hfree]; rfl) (by rw [hcontrol₁]; rfl)
  have hstep₂ : (Act.step t).Proper c₂ := by
    refine ⟨hready₂.trans (by rw [hquiet]; rfl), ?_⟩
    show c₂.world.StepGiven t
    have hhanded : after.Handed c₂.world.store.heap := by
      rw [hworld₂]
      exact h.handed
    simpa only [World.StepGiven, show (c₂.world.thread t).control = _ from hcontrol₂] using hhanded
  have hrun₃ : Run Act.Proper c₃ := ((hrun.act ha).act hstep₁).act hstep₂
  obtain ⟨own₃, hsound₃, -⟩ := hrun₃.hosted
  have hsound₃ : (c.world.refused t why k).Sound own₃ none := hworld₃ ▸ hsound₃
  refine ⟨hrun₃, hcontrol₁, by rw [hworld₂]; rfl, ?_, Store.abandon_prepare hsound.drawn.lt,
    hworld₃, hworld₃ ▸ World.refused_refused hsound hsound₃ h.known⟩
  have hput : ∀ {s vm ctrl}, (c.world.put t s vm ctrl).threads.size = c.world.threads.size ∧
      ∀ u, u ≠ t → (c.world.put t s vm ctrl).thread u = c.world.thread u :=
    ⟨World.size_put, fun u hu => World.thread_put_of_ne hu⟩
  simp only [List.forall_mem_cons, List.not_mem_nil, IsEmpty.forall_iff, implies_true, and_true]
  exact ⟨hworld₁ ▸ hput, hworld₂ ▸ hput, hworld₃ ▸ hput⟩

/-! ### A system without threads -/

/-- A host thread with a value on its stack has started an isolate, which is to start another. -/
def Chronicle.starting : Chronicle :=
  [.spawn, .assign 0 .enroll, .step 0, .assign 0 .equip, .step 0, .push 0 (.int 7),
    .assign 0 (.request (.start (.ref 0) #[.ref 0])), .step 0, .step 0].foldl Act.record .standard

theorem run_starting : Run Act.Proper .starting := by
  refine (Run.standard _).acts ⟨⟨trivial, trivial⟩,
    ⟨⟨⟨by decide, rfl, rfl⟩, trivial⟩, rfl, trivial⟩, ⟨rfl, trivial⟩,
    ⟨⟨⟨by decide, rfl, rfl⟩, rfl⟩, rfl, trivial⟩, ⟨rfl, trivial⟩,
    ⟨⟨by decide, rfl, rfl⟩, rfl, rfl, rfl, Heap.holds_int _ _⟩,
    ⟨⟨⟨by decide, rfl, rfl⟩, trivial⟩, rfl, rfl, Heap.holds_ref.2 rfl, ?_⟩, ⟨rfl, trivial⟩,
    ⟨rfl, Heap.holds_ref.2 rfl, ?_⟩, trivial⟩
  all_goals
    simp only [Array.mem_singleton, forall_eq]
    exact Heap.holds_ref.2 rfl

/-- The isolate is registered and has a machine when the system runs out of threads. -/
def Chronicle.crowded : Chronicle :=
  (Act.supply (some "Resource temporarily unavailable (os error 11)")).record
    ((List.replicate 2 (.step 1)).foldl Act.record .starting)

theorem run_crowded : Run Act.Proper .crowded :=
  (run_starting.steps (t := 1) (i := ⟨0, .ref 0, #[.ref 0], 11, 4⟩) (by decide +kernel)
    (by decide +kernel)).act ⟨trivial, trivial⟩

/-- As the outermost call of the host, as its task, and in the isolate, which is live throughout. -/
theorem failed_spawns_leave_nothing_crowded :
    let c := Chronicle.crowded
    let why := "Resource temporarily unavailable (os error 11)"
    let next (t : ThreadId) := (Act.step t).record
    let called := (Act.assign 0 (.call (.ref 0) #[.ref 0])).record c
    let asked := (Act.assign 0 (.request (.start (.ref 0) #[]))).record c
    let inside := next 1 c
    c.world.store.live = 1 ∧
      c.Spurned 0 (.ref 0) #[] why (.call 1 true) called (next 0 called)
        (next 0 (next 0 called)) ∧
      ((next 0 (next 0 called)).world.thread 0).vm = ⟨#[.int 7, .ref 13], [], 1, true⟩ ∧
      (next 0 (next 0 called)).world.store.heap.object? 13 = some (.error ⟨.thread,
        "could not spawn isolate thread: Resource temporarily unavailable (os error 11)"⟩) ∧
      c.Spurned 0 (.ref 0) #[] why .host asked (next 0 asked) (next 0 (next 0 asked)) ∧
      (next 0 (next 0 asked)).world.control 0 = .finished (.failed (.spawnFailed why)) ∧
      c.Spurned 1 (.ref 0) #[] why (.call 0 true) inside (next 1 inside)
        (next 1 (next 1 inside)) ∧
      ((next 1 (next 1 inside)).world.thread 1).vm = ⟨#[.ref 13], [], 0, true⟩ ∧
      (next 1 (next 1 inside)).world.store.live = 1 := by
  intro c why next called asked inside
  let i : Isolate := ⟨0, .ref 0, #[.ref 0], 11, 4⟩
  let host : Thread :=
    { vm := { stack := #[.int 7] }, storage := some 2, root := some 3
      control := .finished (.value (.ref 11)) }
  have hthread : c.world.thread 0 = host := by decide +kernel
  have hisolate : (c.world.thread 1).role = .isolate i ∧ c.world.control 1 = .entering ∧
      c.world.ready 1 = true := by decide +kernel
  have hstate : c.world.store.live = 1 ∧ c.world.store.creating = false ∧
      c.world.collecting = false := by decide +kernel
  obtain ⟨hrole, hentering, hready⟩ := hisolate
  obtain ⟨hlive, hfree, hquiet⟩ := hstate
  have hname : c.world.store.Nameable := by
    show Char.ofNat 0 ∉ c.world.store.isolates.nameStem.toList
    decide +kernel
  have hshort : c.world.store.shortage = some why := rfl
  have hnative : c.world.store.heap.Holds (.ref 0) :=
    Heap.holds_ref.2 (Heap.live_iff_object?.2 ⟨.native .startIsolate, by decide +kernel⟩)
  have hspare : c.world.Spare 0 :=
    ⟨by decide +kernel, by rw [hthread], by rw [World.atRest, World.control, hthread]⟩
  have hcall : (Act.assign 0 (.call (.ref 0) #[.ref 0])).Proper c :=
    ⟨⟨hspare, by rw [hthread]; rfl⟩, by rw [hthread], by rw [hthread]; exact ⟨rfl, rfl⟩, hnative,
      by simpa using hnative⟩
  have htask : (Act.assign 0 (.request (.start (.ref 0) #[]))).Proper c :=
    ⟨⟨hspare, trivial⟩, by rw [hthread], by rw [hthread]; rfl, hnative, by simp⟩
  obtain ⟨w, hhost⟩ : ∃ w, World.Asks c.world 0 (.start (.ref 0) #[])
      (.assign 0 (.call (.ref 0) #[.ref 0])) (.call 1 true) w :=
    World.Asks.of_call (by decide +kernel)
  obtain ⟨w', hinner⟩ : ∃ w,
      World.Asks c.world 1 (.start (.ref 0) #[]) (.step 1) (.call 0 true) w :=
    World.Asks.of_isolate hentering hrole (by decide +kernel)
  have hcalled := (failed_spawns_leave_nothing c _ 0 _ _ why _ _ run_crowded hcall hhost hname
    hshort).2 hfree hquiet
  have hrefused := (failed_spawns_leave_nothing c _ 0 _ _ why _ _ run_crowded htask .task hname
    hshort).2 hfree hquiet
  have hinside := (failed_spawns_leave_nothing c _ 1 _ _ why _ _ run_crowded
    (run_crowded.proper_step hrole hready) hinner hname hshort).2 hfree hquiet
  refine ⟨hlive, hcalled, ?_, ?_, hrefused, ?_, hinside, ?_, ?_⟩
  · rw [show (next 0 (next 0 called)).world = _ from hcalled.world]
    decide +kernel
  · rw [show (next 0 (next 0 called)).world = _ from hcalled.world]
    decide +kernel
  · rw [show (next 0 (next 0 asked)).world = _ from hrefused.world]
    decide +kernel
  all_goals
    rw [show (next 1 (next 1 inside)).world = _ from hinside.world]
    decide +kernel

end ScriptCore
