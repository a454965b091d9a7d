import ScriptCore.Proofs.Join.Completion
import ScriptCore.Proofs.Machine.Suspension
import ScriptCore.Proofs.World.Keeping

/-!
# Calls that wait

A native call that waits is parked, and others collect meanwhile.  Callee and arguments stay on the
stack, which is a root; a bound method leads to its receiver, a future to its value; a join has two
roots of its own.  So nothing that the call reads later is freed, and what it comes to is live when
it takes the place of callee and arguments.

* `World.needs`: what a thread that waits reads later;
* `Chronicle.Waiting`: the run goes on while a thread waits in a call;
* `CallWait.Waits`, `CallWait.Returns`: what holds while it waits, and when it goes on;
* `waiting_calls_keep`: for every call that waits and everything that happens meanwhile.
-/

namespace ScriptCore

open World

/-! ### What is read after a wait -/

/-- The call or task that waits in a blocking region. -/
def Control.waiter? : Control → Option Consumer
  | .blocked _ k | .leaving _ k => k.consumer?
  | _ => none

/-- The future that is waited for. -/
def Wait.needs : Wait → List Value
  | .resolved f | .resolvedBy f _ => [.ref f]
  | _ => []

/-- The values that are handed over. -/
def Outcome.given : Outcome → List Value
  | .value v => [v]
  | .values vs => vs.toList
  | _ => []

/-- What is read when the wait is over. -/
def After.needs (g : Collector) : After → List Value
  | .start function args _ => function :: args.toList
  | .join j _ => j.pending.map .ref ++ (g.pinned j.results).toList
  | _ => []

/-- What a thread that waits reads later.  A join and a start do not look at the outcome of the wait
itself. -/
def World.needs (w : World) (t : ThreadId) : List Value :=
  match w.control t with
  | .blocked wait k => wait.needs ++ k.needs w.store.collector
  | .leaving o (.reply _) => o.given
  | .leaving _ k => k.needs w.store.collector
  | _ => []

/-- The run goes on, and before everything that happens the thread waits in the call. -/
def Chronicle.Waiting (t : ThreadId) (k : Consumer) : Chronicle → Chronicle → Prop :=
  Relation.ReflTransGen fun c c' =>
    ∃ a : Act, a.Proper c ∧ c' = a.record c ∧ (c.world.control t).waiter? = some k

/-- A native call that a thread makes: the index of its callee, whether it is the outermost call,
the machine, and what is asked for. -/
structure CallWait where
  thread : ThreadId
  callee : Nat
  outermost : Bool
  vm : Vm
  request : Request

namespace CallWait

def consumer (q : CallWait) : Consumer := .call q.callee q.outermost

/-- What holds while a call waits: the machine is as it was, and nothing that is on its stack, that
it reads later or that it was asked to join has been freed or is freed next. -/
structure Waits (q : CallWait) (c : Chronicle) : Prop where
  call : (c.world.control q.thread).waiter? = some q.consumer
  machine : (c.world.thread q.thread).vm = q.vm
  stack : c.Keeps q.vm.stack.toList
  needs : c.Keeps (c.world.needs q.thread)
  listed : ∀ fs poll tagged, q.request = .join fs poll tagged → c.Keeps fs.toList

/-- How an outcome changes a machine: a value takes the place of callee and arguments, a failure
unwinds to the outermost call, and a panic leaves the machine as it is. -/
def Lands (q : CallWait) (h : Heap) (vm : Vm) : Outcome → Prop
  | .value v => vm = (q.vm.truncate q.callee).push v
  | .values vs => ∃ d, vm = (q.vm.truncate q.callee).push (.ref d) ∧ h.object? d = some (.list vs)
  | .done | .absent => vm = (q.vm.truncate q.callee).push .nil
  | .failed e => ∃ d, vm.stack = (q.vm.truncate q.vm.entry).stack.push (.ref d) ∧
      h.object? d = some (.error e.failure)
  | .panicked _ => vm = q.vm

/-- What holds when a call goes on: what was handed over was live then and has landed on a stack
whose values are live.  Unless the call has failed the stack is unchanged below the callee. -/
structure Returns (q : CallWait) (c : Chronicle) : Prop where
  call : (c.world.control q.thread).waiter? = none
  handed : ∃ w o, c.world = deliver w q.thread q.consumer o ∧
    (∀ v ∈ o.given, w.store.heap.Holds v) ∧
    q.Lands c.world.store.heap (c.world.thread q.thread).vm o ∧
    ((∀ e, o ≠ .failed e) → ∀ i < q.callee,
      (c.world.thread q.thread).vm.stack[i]? = q.vm.stack[i]?)
  stack : c.Keeps (c.world.thread q.thread).vm.stack.toList

end CallWait

/-! ### How a call goes on -/

/-- What is done when the wait of a call is over.  A join has its arguments in a root of its own. -/
def After.Serves (q : CallWait) (roots : List (RootId × Holder)) : After → Prop
  | .reply k => k = q.consumer ∧ ∀ fs poll tagged, q.request ≠ .join fs poll tagged
  | .start function args k => k = q.consumer ∧ q.request = .start function args
  | .join j k => k = q.consumer ∧ j.anchor ≠ j.results ∧
      ∃ fs poll tagged, q.request = .join fs poll tagged ∧ (j.anchor, .pinned fs) ∈ roots ∧
        ∀ f ∈ j.pending, .ref f ∈ fs
  | _ => False

/-- A start waits for its turn, and a join for one of the futures that it misses. -/
def After.WaitsFor (wait : Wait) : After → Prop
  | .start _ _ _ => wait = .creation
  | .join j _ => ∃ f d, wait = .resolvedBy f d ∧ f ∈ j.pending
  | _ => True

/-- The thread waits for the call. -/
def Control.Serves (q : CallWait) (roots : List (RootId × Holder)) : Control → Prop
  | .blocked wait k => k.Serves q roots ∧ k.WaitsFor wait
  | .leaving _ k => k.Serves q roots
  | _ => False

namespace CallWait

variable {q : CallWait} {w w' : World} {own : Ledger}

/-- The thread has the machine of the call, and the stack is a root. -/
structure Ready (q : CallWait) (w : World) : Prop where
  known : q.thread < w.threads.size
  machine : (w.thread q.thread).vm = q.vm
  rooted : (w.thread q.thread).root.isSome

/-- The thread waits for the call. -/
structure Serving (q : CallWait) (w : World) : Prop extends q.Ready w where
  control : (w.control q.thread).Serves q w.store.collector.roots

/-- The call waits on, or it is handed an outcome whose values are live. -/
def Proceeds (q : CallWait) (w' : World) : Prop :=
  q.Serving w' ∨ ∃ w o, q.Ready w ∧ (∀ v ∈ o.given, w.store.heap.Holds v) ∧
    w' = w.deliver q.thread q.consumer o

theorem Ready.congr (h : q.Ready w) (hthreads : w'.threads = w.threads) : q.Ready w' := by
  have hthread := thread_congr hthreads q.thread
  exact ⟨hthreads ▸ h.known, hthread ▸ h.machine, hthread ▸ h.rooted⟩

theorem Ready.handed (h : q.Ready w) {o : Outcome} (hgiven : ∀ v ∈ o.given, w.store.heap.Holds v) :
    q.Proceeds (w.deliver q.thread q.consumer o) :=
  .inr ⟨w, o, h, hgiven, rfl⟩

/-- The call waits. -/
theorem Ready.block (h : q.Ready w) {wait : Wait} {k : After}
    (hk : (Control.blocked wait k).Serves q w.store.collector.roots) :
    q.Proceeds (w.block q.thread wait k) := by
  have hbecomes := becomes_setControl (threads_park w q.thread) h.known (.blocked wait k)
  refine .inl ⟨⟨hbecomes.size ▸ h.known, ?_, ?_⟩, ?_⟩
  · rw [World.block, hbecomes.mine]
    exact h.machine
  · rw [World.block, hbecomes.mine]
    exact h.rooted
  · rw [World.block, World.control, hbecomes.mine]
    show Control.Serves q (w.park q.thread).store.collector.roots _
    rw [(park_same w q.thread).2.2]
    exact hk

/-- One pass of a join. -/
theorem Ready.joinPass (h : q.Ready w) {away : Option ThreadId} (hsound : w.Sound own away)
    {j : Join} (hj : (After.join j q.consumer).Serves q w.store.collector.roots) :
    q.Proceeds (w.joinPass q.thread j q.consumer) := by
  obtain ⟨-, hdistinct, fs, poll, tagged, hr, hanchor, hpending⟩ := hj
  have harrived : ∀ v ∈ w.store.collector.pinned j.results ++
      (Join.arrived w.store.heap j.pending).toArray, w.store.heap.Holds v := by
    intro v hv
    rcases Array.mem_append.1 hv with hv | hv
    · exact hsound.holds_pinned j.results v hv
    · obtain ⟨c, -, hc⟩ := List.mem_filterMap.1 (List.mem_toArray.1 hv)
      exact hsound.closed.holds_resolved? hc
  unfold World.joinPass
  simp only
  split
  · refine Ready.handed (h.congr (by rw [threads_dropRoot, threads_dropRoot])) ?_
    rw [heap_dropRoot, heap_dropRoot]
    intro v hv
    have hv := Array.mem_toList_iff.1 hv
    split at hv
    · exact harrived v hv
    · obtain ⟨x, hx, rfl⟩ := Array.mem_map.1 hv
      exact Sound.holds_payload hsound.closed (harrived x hx)
  · rename_i first rest hmissing
    have hmem : ∀ f ∈ first :: rest, f ∈ j.pending := fun f hf =>
      (List.mem_filter.1 (hmissing ▸ hf : f ∈ Join.missing w.store.heap j.pending)).1
    let results := w.store.collector.pinned j.results ++
      (Join.arrived w.store.heap j.pending).toArray
    have hready : q.Ready (w.setPinned j.results results) := h.congr rfl
    refine hready.block ⟨⟨rfl, hdistinct, fs, poll, tagged, hr, ?_, ?_⟩, ?_⟩
    · exact List.mem_map.2 ⟨_, hanchor, if_neg hdistinct⟩
    · exact fun f hf => hpending f (hmem f hf)
    · exact ⟨first, _, rfl, List.mem_cons_self⟩

theorem Ready.joinStart (h : q.Ready w) (hsound : w.Sound own (some q.thread)) {fs : Array Value}
    {poll : Nat} {tagged : Bool} (hr : q.request = .join fs poll tagged)
    (hfs : ∀ v ∈ fs, w.store.heap.Holds v) :
    q.Proceeds (w.joinStart q.thread fs poll tagged q.consumer) := by
  unfold World.joinStart
  split
  · exact h.handed (by simp [Outcome.given])
  · exact h.handed (by simp [Outcome.given])
  · rename_i pending _ hpending
    -- the anchor is registered before the root of the results
    let g := (w.store.collector.addRoot (.pinned fs)).1
    let w₁ : World := { w with store := { w.store with collector := (g.addRoot (.pinned #[])).1 } }
    have hsound₁ := (hsound.addRoot (.pinned fs) (.join q.thread) fun v hv =>
      hfs v (Array.mem_toList_iff.1 hv)).addRoot (.pinned #[]) (.join q.thread) (by simp [heldBy])
    have hready : q.Ready w₁ := h.congr rfl
    refine hready.joinPass hsound₁ ⟨rfl, (Nat.lt_succ_self _).ne, fs, poll, tagged, hr, ?_, ?_⟩
    · exact List.mem_cons_of_mem _ List.mem_cons_self
    · intro f hf
      have hcells := (Join.futures_eq_ok_iff.1 hpending).1
      exact Array.mem_toList_iff.1 (hcells ▸ List.mem_map_of_mem hf)

/-- The call asks for something it may have to wait for. -/
theorem Ready.request (h : q.Ready w) (hsound : w.Sound own (some q.thread))
    (hcollect : q.request ≠ .collect)
    (hkept : q.request.Kept w.store.heap q.vm.stack q.callee) :
    q.Proceeds (w.request q.thread q.request q.consumer) := by
  have hblock : ∀ wait : Wait, (∀ fs poll tagged, q.request ≠ .join fs poll tagged) →
      q.Proceeds (w.block q.thread wait (.reply q.consumer)) := fun wait hr =>
    h.block ⟨⟨rfl, hr⟩, trivial⟩
  cases hr : q.request with
  | collect => exact absurd hr hcollect
  | start function args => exact h.block ⟨⟨rfl, hr⟩, rfl⟩
  | join fs poll tagged =>
    rw [hr] at hkept
    exact h.joinStart hsound hr hkept
  | _ => exact hblock _ (by simp [hr])

/-- The call has started an isolate, or it has not. -/
theorem Ready.launch (h : q.Ready w) (function : Value) (args : Array Value) :
    q.Proceeds (w.launch q.thread function args q.consumer) := by
  have hdropped : q.Ready ((w.anchored q.thread function args).dropRoot w.store.collector.nextId) :=
    h.congr (threads_dropRoot _ _)
  rcases launch_cases w q.thread function args q.consumer with
    ⟨why, -, heq⟩ | ⟨p, heq⟩ | ⟨name, heq⟩
  · rw [heq]
    exact hdropped.handed (by simp [Outcome.given])
  · rw [heq, interrupt_eq_deliver _ _ q.callee q.outermost]
    exact hdropped.handed (by simp [Outcome.given])
  · rw [heq]
    have hthread : (w.bearing q.thread function args name).thread q.thread = w.thread q.thread :=
      (thread_bearing w q.thread function args name _).trans (if_neg h.known.ne)
    refine Ready.handed ⟨?_, hthread ▸ h.machine, hthread ▸ h.rooted⟩ ?_
    · exact (size_bearing w q.thread function args name).symm ▸ Nat.lt_succ_of_lt h.known
    · intro v hv
      cases List.mem_singleton.1 hv
      exact Heap.holds_ref.2 (Heap.live_iff_object?.2
        ⟨_, object?_anchored w q.thread function args⟩)

/-- The wait of the call is over. -/
theorem Ready.continueWith (h : q.Ready w) {away : Option ThreadId} (hsound : w.Sound own away)
    {k : After} (hk : k.Serves q w.store.collector.roots) {o : Outcome}
    (ho : o.Kept w.store.heap q.vm.stack k) : q.Proceeds (w.continueWith q.thread k o) := by
  cases k with
  | reply k =>
    obtain ⟨rfl, -⟩ := hk
    refine h.handed fun v hv => ?_
    cases o with
    | value v' =>
      cases List.mem_singleton.1 hv
      rcases ho with himmediate | ⟨f, -, hslot⟩
      · exact fun c hc => absurd hc (himmediate c)
      · exact hsound.closed _ _ hslot _ (by simp [Object.edges])
    | values vs => exact ho.elim
    | _ => cases hv
  | start function args k =>
    obtain ⟨rfl, -⟩ := hk
    exact h.launch function args
  | join j k =>
    obtain ⟨rfl, -⟩ := id hk
    exact h.joinPass hsound hk
  | instruction | pause | retire => exact hk.elim

/-- A step of the thread that waits: the wait goes on or is over, or the call gets its outcome. -/
theorem Serving.step (h : q.Serving w) (hsound : w.Sound own none) :
    q.Proceeds (w.step q.thread) := by
  have hstands := hsound.stands q.thread (by simp)
  have hserves := h.control
  rw [World.control] at hserves
  unfold World.step
  cases hc : (w.thread q.thread).control <;> rw [hc] at hserves hstands
  case blocked wait k =>
    simp only [hc]
    have hthreads := threads_passWait w q.thread wait
    have hcollector := collector_passWait w q.thread wait
    have hset : ∀ {w₁ : World} {ctrl : Control}, w₁.threads = w.threads →
        w₁.store.collector = w.store.collector → ctrl.Serves q w.store.collector.roots →
        q.Proceeds (w₁.setControl q.thread ctrl) := by
      intro w₁ ctrl hthreads hcollector hctrl
      have hbecomes := becomes_setControl hthreads h.known ctrl
      refine .inl ⟨⟨hbecomes.size ▸ h.known, ?_, ?_⟩, ?_⟩
      · rw [hbecomes.mine]
        exact h.machine
      · rw [hbecomes.mine]
        exact h.rooted
      · rw [hbecomes.control]
        show ctrl.Serves q w₁.store.collector.roots
        rwa [hcollector]
    split <;> rename_i w₁ x heq <;> rw [heq] at hthreads hcollector
    · refine hset hthreads hcollector ⟨hserves.1, ?_⟩
      -- only a lock is waited for in phases
      cases k with
      | start function args k =>
        obtain rfl : wait = .creation := hserves.2
        cases heq
      | join j k =>
        obtain ⟨f, d, rfl, -⟩ := hserves.2
        simp only [World.passWait] at heq
        split at heq <;> cases heq
      | _ => trivial
    · exact hset hthreads hcollector hserves.1
  case leaving o k =>
    simp only [hc]
    have hready : q.Ready (w.unpark q.thread) := h.toReady.congr (threads_unpark w q.thread)
    refine hready.continueWith ((hsound.go q.thread).unpark q.thread) ?_ ?_
    · rw [(unpark_same w q.thread).2.2]
      exact hserves
    · rw [heap_unpark, ← h.machine]
      exact hstands.2
  all_goals exact hserves.elim

end CallWait

/-- Roots that a join in progress answers for can be relied on. -/
theorem Control.Serves.mono {q : CallWait} {roots roots' : List (RootId × Holder)} {ctrl : Control}
    (h : ctrl.Serves q roots)
    (hroots : ∀ r ∈ roots, r.1 ∈ ctrl.joined → r ∈ roots') : ctrl.Serves q roots' := by
  have hafter : ∀ k : After, k.Serves q roots → (∀ r ∈ roots, r.1 ∈ k.joined → r ∈ roots') →
      k.Serves q roots' := by
    intro k hk hroots
    cases k with
    | join j k =>
      obtain ⟨hconsumer, hdistinct, fs, poll, tagged, hr, hanchor, hpending⟩ := hk
      exact ⟨hconsumer, hdistinct, fs, poll, tagged, hr,
        hroots _ hanchor List.mem_cons_self, hpending⟩
    | _ => exact hk
  cases ctrl with
  | blocked wait k => exact ⟨hafter k h.1 hroots, h.2⟩
  | leaving o k => exact hafter k h hroots
  | _ => exact h

namespace Leads

variable {G : Outcome → Store → Prop} {me : Caller} {role : Role} {x y : Vm × Store}
  {ctrl : Control} {outermost : Bool}

theorem eq_of_next (h : Leads G me role (.machine .next outermost) x y ctrl) : y = x := by
  cases h
  rfl

theorem eq_of_failed {e : Cause} (h : Leads G me role (.machine (.failed e) outermost) x y ctrl) :
    y = x.1.fail me e x.2 := by
  cases h
  rfl

theorem eq_of_panicked {p : Panic}
    (h : Leads G me role (.machine (.panicked p) outermost) x y ctrl) : y = x := by
  cases h
  rfl

/-- A machine that is not suspended goes on outside of any wait. -/
theorem waiter?_eq_none {signal : Signal}
    (h : Leads G me role (.machine signal outermost) x y ctrl)
    (hsignal : ∀ callee r, signal ≠ .suspended callee r) : ctrl.waiter? = none := by
  cases h with
  | next | failed => cases outermost <;> cases role <;> rfl
  | panicked => cases role <;> rfl
  | collects | blocks | receives => exact absurd rfl (hsignal _ _)

end Leads

namespace CallWait

variable {q : CallWait} {c c' : Chronicle} {a : Act} {w : World}

/-- Whatever others do, the thread waits on. -/
theorem Serving.aside (h : q.Serving c.world) (hrun : Run Act.Proper c) (ha : a.Proper c)
    (hactor : a.actor? ≠ some q.thread) : q.Serving (a.record c).world := by
  obtain ⟨n, hn⟩ := Act.bystander ha.1 hactor h.known
  refine ⟨⟨h.known.trans_le (Act.size_le ha.1), hn ▸ h.machine, hn ▸ h.rooted⟩, ?_⟩
  rw [World.control, hn]
  refine h.control.mono fun r hr hid => hrun.root_kept ha hactor h.known hr ?_
  exact List.mem_append_left _ (List.mem_append_right _ hid)

/-- Everything that happens while the thread waits. -/
theorem Serving.act (h : q.Serving c.world) (hrun : Run Act.Proper c) (ha : a.Proper c) :
    q.Proceeds (a.record c).world := by
  by_cases hactor : a.actor? = some q.thread
  · have hstep : a = .step q.thread := by
      by_contra hne
      have hrests := (Act.spare_of_actor ha.1 hactor hne).rests
      have hserves := h.control
      rcases control_of_atRest hrests with hc | ⟨o, hc⟩ | hc <;> rw [hc] at hserves <;>
        exact hserves
    subst hstep
    obtain ⟨own, hsound, -⟩ := hrun.hosted
    exact h.step hsound
  · exact .inl (h.aside hrun ha hactor)

/-! ### When it goes on -/

/-- A thread that is handed an outcome goes on. -/
theorem Ready.lands (h : q.Ready w) (o : Outcome) :
    let w' := w.deliver q.thread q.consumer o
    (w'.control q.thread).waiter? = none ∧ (w'.thread q.thread).root.isSome ∧
      q.Lands w'.store.heap (w'.thread q.thread).vm o := by
  intro w'
  let me := (w.thread q.thread).caller q.thread
  let r := q.vm.receive me q.callee w.store o
  let w₁ : World := { (w.setVm q.thread {}) with store := r.2.1 }
  have hw' : w' = w₁.afterSignal q.thread q.outermost r.1 r.2.2 := by
    show w.deliver q.thread (.call q.callee q.outermost) o = _
    rw [deliver_call, h.machine]
  have hsequel : Sequel (fun _ _ => True) q.thread (.machine r.2.2 q.outermost) r.1 [] w₁ w' := by
    rw [hw']
    refine .answer ?_ q.outermost (Vm.receive_not_suspended _ _ _ _)
    exact (size_modifyThread _).ge.trans_lt' h.known
  obtain ⟨vm', ctrl, hmine, hleads⟩ := hsequel.mine
  have hroot : (w'.thread q.thread).root.isSome := by
    rw [hmine, show w₁.thread q.thread = _ from thread_setVm_self h.known {}]
    exact h.rooted
  rw [World.control, hmine] at *
  refine ⟨hleads.waiter?_eq_none (Vm.receive_not_suspended _ _ _ _), hroot, ?_⟩
  cases o with
  | value v =>
    obtain ⟨rfl, -⟩ := Prod.mk.inj hleads.eq_of_next
    rfl
  | values vs =>
    obtain ⟨rfl, hstore⟩ := Prod.mk.inj hleads.eq_of_next
    refine ⟨w.store.heap.size, rfl, ?_⟩
    rw [hstore]
    exact Store.object?_make _ _ _
  | done | absent =>
    obtain ⟨rfl, -⟩ := Prod.mk.inj hleads.eq_of_next
    rfl
  | failed e =>
    obtain ⟨rfl, hstore⟩ := Prod.mk.inj hleads.eq_of_failed
    refine ⟨w.store.heap.size, rfl, ?_⟩
    rw [hstore]
    exact Store.object?_make _ _ _
  | panicked p =>
    obtain ⟨rfl, -⟩ := Prod.mk.inj hleads.eq_of_panicked
    rfl

theorem Proceeds.serving (h : q.Proceeds w)
    (hwaiter : (w.control q.thread).waiter? = some q.consumer) : q.Serving w := by
  rcases h with h | ⟨w₁, o, hready, -, rfl⟩
  · exact h
  · rw [(hready.lands o).1] at hwaiter
    cases hwaiter

/-- Whatever happens while a call waits, it waits on or is handed an outcome. -/
theorem Proceeds.run (h : q.Proceeds c.world) (hrun : Run Act.Proper c)
    (hc : c.Waiting q.thread q.consumer c') : Run Act.Proper c' ∧ q.Proceeds c'.world ∧
      c.world.store.heap.Lasts c'.world.store.heap := by
  induction hc with
  | refl => exact ⟨hrun, h, .refl _⟩
  | tail _ hact ih =>
    obtain ⟨a, ha, rfl, hwaiter⟩ := hact
    obtain ⟨hbefore, hproceeds, hlasts⟩ := ih
    exact ⟨hbefore.act ha, (hproceeds.serving hwaiter).act hbefore ha,
      hlasts.trans (Act.lasts ha.1)⟩

/-! ### What it can rely on -/

/-- What is read after the wait is found on the stack or in the roots of a join. -/
theorem rooted_of_after {own : Ledger} (hsound : w.Sound own none) (hready : q.Ready w) {k : After}
    (hserves : k.Serves q w.store.collector.roots)
    (hstands : k.Stands own q.thread (w.thread q.thread))
    {d : CellId} (hd : .ref d ∈ k.needs w.store.collector) : w.Rooted d := by
  cases k with
  | start function args k =>
    obtain ⟨hfunction, hargs⟩ := hstands.2.2 (by rw [hserves.1]; simp [consumer])
    refine hsound.reaches_rootValues hready.rooted (.start (Array.mem_toList_iff.2 ?_))
    rcases List.mem_cons.1 hd with rfl | hd
    · exact hfunction
    · exact hargs _ (Array.mem_toList_iff.1 hd)
  | join j k =>
    obtain ⟨-, -, fs, poll, tagged, -, hanchor, hpending⟩ := hserves
    rcases List.mem_append.1 hd with hd | hd
    · obtain ⟨f, hf, hfd⟩ := List.mem_map.1 hd
      cases hfd
      exact rooted_of_held hanchor (Array.mem_toList_iff.2 (hpending _ hf))
    · exact rooted_of_pinned (Array.mem_toList_iff.1 hd)
  | _ => cases hd

/-- A future that is waited for is bound by the callee or listed in the anchor of a join. -/
theorem rooted_of_wait {own : Ledger} (hsound : w.Sound own none) (hready : q.Ready w) {wait : Wait}
    {k : After} (hserves : (Control.blocked wait k).Serves q w.store.collector.roots)
    (hkept : wait.Kept w.store.heap (w.thread q.thread).vm.stack k) {d : CellId}
    (hd : .ref d ∈ wait.needs) : w.Rooted d := by
  obtain ⟨hafter, hwait⟩ := hserves
  cases k with
  | reply k =>
    obtain ⟨rfl, -⟩ := hafter
    have hbound : BoundAt w.store.heap (w.thread q.thread).vm.stack q.callee d := by
      cases wait with
      | resolved f | resolvedBy f _ =>
        cases List.mem_singleton.1 hd
        exact hkept
      | _ => cases hd
    exact hsound.reaches_rootValues hready.rooted (Undisturbed.reaches_boundAt hbound)
  | start function args k =>
    obtain rfl : wait = .creation := hwait
    cases hd
  | join j k =>
    obtain ⟨f, deadline, rfl, hf⟩ := hwait
    obtain ⟨-, -, fs, poll, tagged, -, hanchor, hpending⟩ := hafter
    cases List.mem_singleton.1 hd
    exact rooted_of_held hanchor (Array.mem_toList_iff.2 (hpending _ hf))
  | instruction | pause | retire => exact hafter.elim

/-- The value that a call has waited for is that of the future bound by its callee. -/
theorem rooted_of_outcome {own : Ledger} (hsound : w.Sound own none) (hready : q.Ready w)
    {o : Outcome} (hkept : o.Kept w.store.heap (w.thread q.thread).vm.stack (.reply q.consumer))
    {d : CellId} (hd : .ref d ∈ o.given) : w.Rooted d := by
  cases o with
  | value v =>
    obtain rfl := List.mem_singleton.1 hd
    rcases hkept with himmediate | ⟨f, hbound, hslot⟩
    · exact absurd rfl (himmediate d)
    · have hfuture := hsound.reaches_rootValues hready.rooted (Undisturbed.reaches_boundAt hbound)
      exact .step hfuture ⟨_, hslot, by simp [Object.edges]⟩
  | values vs => exact hkept.elim
  | _ => cases hd

/-- A thread that waits finds everything that it reads later. -/
theorem Serving.keeps_needs (h : q.Serving c.world) (hrun : Run Act.Proper c) :
    c.Keeps (c.world.needs q.thread) := by
  obtain ⟨own, hsound, -⟩ := hrun.hosted
  have hstands := hsound.stands q.thread (by simp)
  have hserves := h.control
  refine hrun.keeps fun d hd => ?_
  unfold World.needs at hd
  rw [World.control] at hserves hd
  cases hc : (c.world.thread q.thread).control <;> rw [hc] at hserves hstands hd
  case blocked wait k =>
    rcases List.mem_append.1 hd with hd | hd
    · exact rooted_of_wait hsound h.toReady hserves hstands.2 hd
    · exact rooted_of_after hsound h.toReady hserves.1 hstands.1 hd
  case leaving o k =>
    have hafter : k.Serves q c.world.store.collector.roots := hserves
    cases k with
    | reply k =>
      obtain ⟨rfl, -⟩ := hafter
      exact rooted_of_outcome hsound h.toReady hstands.2 hd
    | _ => exact rooted_of_after hsound h.toReady hafter hstands.1 hd
  all_goals exact hserves.elim

theorem Serving.exists_after (h : q.Serving w) :
    ∃ k : After, k.Serves q w.store.collector.roots ∧
      (w.control q.thread).waiter? = k.consumer? := by
  have hserves := h.control
  cases hc : w.control q.thread <;> rw [hc] at hserves
  case blocked wait k => exact ⟨k, hserves.1, rfl⟩
  case leaving o k => exact ⟨k, hserves, rfl⟩
  all_goals exact hserves.elim

theorem Serving.waiter?_eq (h : q.Serving w) :
    (w.control q.thread).waiter? = some q.consumer := by
  obtain ⟨k, hk, hwaiter⟩ := h.exists_after
  rw [hwaiter]
  cases k with
  | reply k | start _ _ k | join _ k => exact congrArg some hk.1
  | instruction | pause | retire => exact hk.elim

/-- What a join was asked for lies in a root. -/
theorem Serving.exists_anchor (h : q.Serving w) {fs : Array Value} {poll : Nat} {tagged : Bool}
    (hr : q.request = .join fs poll tagged) :
    ∃ id, (id, .pinned fs) ∈ w.store.collector.roots := by
  obtain ⟨k, hk, -⟩ := h.exists_after
  cases k with
  | reply k => exact absurd hr (hk.2 fs poll tagged)
  | start function args k =>
    have hstart := hk.2
    rw [hr] at hstart
    cases hstart
  | join j k =>
    obtain ⟨-, -, fs', poll', tagged', hjoin, hanchor, -⟩ := hk
    rw [hr] at hjoin
    cases hjoin
    exact ⟨_, hanchor⟩
  | instruction | pause | retire => exact hk.elim

theorem Serving.waits (h : q.Serving c.world) (hrun : Run Act.Proper c) : q.Waits c where
  call := h.waiter?_eq
  machine := h.machine
  stack := hrun.keeps_stack h.rooted fun v hv => h.machine ▸ Array.mem_toList_iff.1 hv
  needs := h.keeps_needs hrun
  listed fs poll tagged hr := by
    obtain ⟨id, hid⟩ := h.exists_anchor hr
    exact hrun.keeps_held hid fun v hv => hv

theorem Ready.returns {o : Outcome} (h : q.Ready w) (hdepth : q.callee < q.vm.depth)
    (hgiven : ∀ v ∈ o.given, w.store.heap.Holds v) (hrun : Run Act.Proper c)
    (hc : c.world = w.deliver q.thread q.consumer o) : q.Returns c := by
  obtain ⟨hwaiter, hroot, hlands⟩ := h.lands o
  rw [← hc] at hwaiter hroot hlands
  refine ⟨hwaiter, ⟨w, o, hc, hgiven, hlands, fun hfailed i hi => ?_⟩,
    hrun.keeps_stack hroot fun v hv => Array.mem_toList_iff.1 hv⟩
  have hbelow : ∀ v, ((q.vm.truncate q.callee).push v).stack[i]? = q.vm.stack[i]? := fun v => by
    have hlt : i < q.vm.stack.size := hi.trans hdepth
    obtain ⟨x, hx⟩ : ∃ x, q.vm.stack[i]? = some x := ⟨_, Array.getElem?_eq_getElem hlt⟩
    have hkept : (q.vm.stack.shrink q.callee ++ #[v])[i]? = some x :=
      Vm.Seated.getElem?_shrink_append hi hx
    rw [← Array.push_eq_append] at hkept
    exact hkept.trans hx.symm
  cases o with
  | value v => rw [show _ = _ from hlands]; exact hbelow v
  | values vs =>
    obtain ⟨d, hvm, -⟩ := hlands
    rw [hvm]
    exact hbelow _
  | done | absent => rw [show _ = _ from hlands]; exact hbelow _
  | failed e => exact absurd rfl (hfailed e)
  | panicked p => rw [show _ = _ from hlands]

end CallWait

/-! ### Calls that ask for something -/

namespace World

variable {own : Ledger} {w : World} {t : ThreadId} {vm : Vm}

theorem Sound.resumed (h : w.Sound own none) (t : ThreadId) (hvm : vm.Sound w.store.heap) :
    (w.resumed t vm w.store).Sound own (some t) := by
  have hempty : Vm.Sound {} w.store.heap := fun v hv => by simp at hv
  exact ((h.go t).setVm hempty).setVm hvm

theorem thread_resumed (ht : t < w.threads.size) (s : Store) :
    (w.resumed t vm s).thread t = { w.thread t with vm } := by
  let w₁ : World := { w with store := s }
  have hempty : Becomes t { w.thread t with vm := {} } w (w₁.setVm t {}) :=
    becomes_modifyThread (by rfl) ht fun th => { th with vm := {} }
  exact (hempty.modifyThread ht fun th => { th with vm }).mine

/-- A thread that executes or enters its call has a machine whose stack is a root. -/
theorem Sound.equipped_of_executes (h : w.Sound own none) (hexecutes : w.executes t = true) :
    (w.thread t).Equipped := by
  have hstands := h.stands t (by simp)
  unfold executes at hexecutes
  rw [World.control] at hexecutes
  split at hexecutes
  · rename_i hc
    rwa [hc] at hstands
  · rename_i hc
    rwa [hc] at hstands
  · cases hexecutes

end World

namespace CallWait

variable {q : CallWait} {own : Ledger} {w : World}

/-- When a call asks for something, callee and arguments are on a rooted stack, nothing has happened
to the store, and the stack keeps what is asked for. -/
structure Begins (q : CallWait) (w w₁ : World) : Prop where
  store : w₁.store = w.store
  asking : Vm.Asking ((w.thread q.thread).caller q.thread) q.vm w₁.store q.callee q.request
  ready : q.Ready w₁
  sound : ∃ own, w₁.Sound own (some q.thread)
  kept : q.request.Kept w₁.store.heap q.vm.stack q.callee

theorem begins_of_suspended (h : w.Sound own none)
    (hequipped : (w.thread q.thread).Equipped) {vm : Vm} (hvm : vm.Sound w.store.heap)
    {r : Vm × Store × Signal}
    (hsafe : Vm.Safe ((w.thread q.thread).caller q.thread) vm w.store r)
    (hr : r = (q.vm, w.store, .suspended q.callee q.request))
    (hasking : Vm.Asking ((w.thread q.thread).caller q.thread) q.vm w.store q.callee q.request) :
    q.Begins w (w.resumed q.thread q.vm w.store) := by
  subst hr
  have ht := lt_size_of_storage hequipped.1
  have hthread : (w.resumed q.thread q.vm w.store).thread q.thread =
      { w.thread q.thread with vm := q.vm } := thread_resumed ht w.store
  have hsound := hsafe.sound h.closed h.holds_global hvm
  refine ⟨rfl, hasking, ⟨?_, by rw [hthread], by rw [hthread]; exact hequipped.2⟩,
    ⟨own, h.resumed q.thread hsound⟩, hsafe.signal h.closed hvm _ _ rfl⟩
  rwa [size_resumed]

end CallWait

/-- Every native call that asks for something is such a call. -/
theorem World.Asks.begins {c : Chronicle} {a : Act} {t : ThreadId} {r : Request} {callee : Nat}
    {outermost : Bool} {w₁ : World} (hrun : Run Act.Proper c) (ha : a.Proper c)
    (hask : Asks c.world t r a (.call callee outermost) w₁) :
    CallWait.Begins ⟨t, callee, outermost, (w₁.thread t).vm, r⟩ c.world w₁ := by
  obtain ⟨own, hsound, -⟩ := hrun.hosted
  cases hask with
  | @instruction vm s _ hexecutes hstep =>
    have hequipped := hsound.equipped_of_executes hexecutes
    obtain ⟨rfl, hasking⟩ := Vm.asking_step hstep
    rw [thread_resumed (lt_size_of_storage hequipped.1)]
    exact CallWait.begins_of_suspended hsound hequipped (hsound.holds_stack hequipped.2)
      (Vm.step_safe _ _ _) hstep hasking
  | @call vm s _ function args henter =>
    obtain ⟨-, hequipped, hfunction, hargs⟩ := ha.2
    obtain ⟨rfl, hasking⟩ := Vm.asking_enter henter
    rw [thread_resumed (lt_size_of_storage hequipped.1)]
    exact CallWait.begins_of_suspended hsound hequipped
      (((hsound.holds_stack hequipped.2).push hfunction).pushAll hargs)
      (Vm.enter_safe _ _ _ _ _) henter hasking
  | @isolate vm s _ i hentering hrole henter =>
    have hstands := hsound.stands t (by simp)
    rw [show (c.world.thread t).control = _ from hentering] at hstands
    obtain ⟨hequipped, hcarries⟩ := hstands
    obtain ⟨vs, hvs, hfunction, hargs⟩ := hcarries i hrole
    have hheld : ∀ v ∈ vs, c.world.store.heap.Holds v := fun v hv =>
      hsound.held _ _ hvs v (Array.mem_toList_iff.2 hv)
    obtain ⟨rfl, hasking⟩ := Vm.asking_enter henter
    rw [thread_resumed (lt_size_of_storage hequipped.1)]
    exact CallWait.begins_of_suspended hsound hequipped
      (((hsound.holds_stack hequipped.2).push (hheld _ hfunction)).pushAll fun v hv =>
        hheld v (hargs v hv)) (Vm.enter_safe _ _ _ _ _) henter hasking

/-- A callee that asks for something stays what it is as long as it is live. -/
theorem Vm.Asking.object?_eq {me : Caller} {vm : Vm} {s : Store} {callee : Nat} {r : Request}
    (h : vm.Asking me s callee r) {heap : Heap} (hlasts : s.heap.Lasts heap) {d : CellId}
    (hd : vm.stack[callee]? = some (.ref d)) (hlive : heap.Live d) :
    heap.object? d = s.heap.object? d := by
  cases h with
  | native hc ho =>
    cases hd.symm.trans hc
    exact (hlasts.settled (by rintro _ ⟨⟩) ho hlive).trans ho.symm
  | method hc ho =>
    cases hd.symm.trans hc
    exact (hlasts.settled (Object.settled_bound _ _) ho hlive).trans ho.symm

/-- **Calls that wait lose nothing to collections.**  A native call, by an instruction or as the
outermost call, asks for something it may have to wait for, with callee and arguments on its stack.
Whatever others do and however often they collect while it waits: its stack, what it reads later and
the futures that it was asked to join are kept with everything they lead to, its callee is what it
was, with the same receiver, and so is its machine.  When it goes on, every value that is handed
over is live, takes the place of callee and arguments and is kept there, and the stack below the
callee is unchanged unless the call has failed. -/
theorem waiting_calls_keep (c : Chronicle) (a : Act) (q : CallWait) (w : World)
    (hrun : Run Act.Proper c) (ha : a.Proper c)
    (hask : World.Asks c.world q.thread q.request a q.consumer w)
    (hvm : (w.thread q.thread).vm = q.vm) (hcollect : q.request ≠ .collect) :
    Vm.Asking ((c.world.thread q.thread).caller q.thread) q.vm w.store q.callee q.request ∧
    ∀ c', (a.record c).Waiting q.thread q.consumer c' →
      q.Waits c' ∧ (∀ d, q.vm.stack[q.callee]? = some (.ref d) →
        c'.world.store.heap.object? d = w.store.heap.object? d) ∨ q.Returns c' := by
  have hcall := hask.begins hrun ha
  rw [hvm] at hcall
  obtain ⟨hstore, hasking, hready, ⟨own, hsound⟩, hkept⟩ := hcall
  have hbegins : q.Proceeds (a.record c).world := by
    rw [show (a.record c).world = _ from hask.apply_eq]
    exact hready.request hsound hcollect hkept
  have hfirst : w.store.heap.Lasts (a.record c).world.store.heap := hstore ▸ Act.lasts ha.1
  refine ⟨hasking, fun c' hwaiting => ?_⟩
  obtain ⟨hrun', hproceeds, hlasts⟩ := hbegins.run (hrun.act ha) hwaiting
  rcases hproceeds with hserving | ⟨w', o, hready', hgiven, hw'⟩
  · have hwaits := hserving.waits hrun'
    refine .inl ⟨hwaits, fun d hd => hasking.object?_eq (hfirst.trans hlasts) hd ?_⟩
    exact Heap.holds_ref.1 (hwaits.stack.holds (Array.mem_toList_iff.2 (Array.mem_of_getElem? hd)))
  · exact .inr (hready'.returns hasking.lt_depth hgiven hrun' hw')

/-! ### A collection during a join -/

theorem Chronicle.waiting_acts {t : ThreadId} {k : Consumer} {c : Chronicle} {acts : List Act}
    (h : Act.All (fun c a => a.Proper c ∧ (c.world.control t).waiter? = some k) c acts) :
    c.Waiting t k (acts.foldl Act.record c) := by
  induction acts generalizing c with
  | nil => exact .refl
  | cons a acts ih => exact .head ⟨a, h.1.1, rfl, h.1.2⟩ (ih h.2)

/-- A thread with a machine and another thread, a list with a future that has no value, and a text
that nobody holds. -/
def Chronicle.listing : Chronicle :=
  [.spawn, .assign 0 .enroll, .step 0, .assign 0 .equip, .step 0, .spawn, .assign 1 .enroll,
    .step 1, .make 0 (.future none), .make 0 (.list #[.ref 11]), .make 1 (.str "lost"),
    .push 0 (.int 7)].foldl Act.record .standard

theorem run_listing : Run Act.Proper .listing := by
  refine (Run.standard _).acts ⟨⟨trivial, trivial⟩,
    ⟨⟨⟨by decide, rfl, rfl⟩, trivial⟩, rfl, trivial⟩, ⟨rfl, trivial⟩,
    ⟨⟨⟨by decide, rfl, rfl⟩, rfl⟩, rfl, trivial⟩, ⟨rfl, trivial⟩, ⟨trivial, trivial⟩,
    ⟨⟨⟨by decide, rfl, rfl⟩, trivial⟩, rfl, trivial⟩, ⟨rfl, trivial⟩,
    ⟨trivial, rfl, by simp [Object.edges]⟩, ⟨trivial, rfl, ?_⟩,
    ⟨trivial, rfl, by simp [Object.edges]⟩, ⟨⟨by decide, rfl, rfl⟩, rfl, rfl, rfl, ?_⟩, trivial⟩
  · simp only [Object.edges, List.mem_singleton, forall_eq]
    exact Heap.holds_ref.2 rfl
  · exact fun d hd => absurd hd (by simp)

/-- The first thread calls the native that waits for every future of a list. -/
def Act.joins : Act := .assign 0 (.call (.ref 1) #[.ref 12])

def CallWait.joining : CallWait :=
  ⟨0, 1, true, { stack := #[.int 7, .ref 1, .ref 12], entry := 1 },
    .join #[.ref 11] 10000000 false⟩

theorem proper_joins : Act.joins.Proper .listing := by
  refine ⟨⟨⟨by decide, rfl, rfl⟩, rfl⟩, rfl, ⟨rfl, rfl⟩, Heap.holds_ref.2 rfl, ?_⟩
  simp only [Array.mem_singleton, forall_eq]
  exact Heap.holds_ref.2 rfl

/-- The other thread collects. -/
def Chronicle.collecting : Chronicle :=
  [.assign 1 (.request .collect), .step 1, .step 1, .step 1].foldl Act.record
    (Act.joins.record .listing)

/-- The future gets a value, and the join is over. -/
def Chronicle.joined : Chronicle :=
  [.make 1 (.str "word"), .resolve 11 (.ref 14), .step 0, .step 0].foldl Act.record .collecting

theorem waiting_collecting :
    (Act.joins.record .listing).Waiting 0 CallWait.joining.consumer .collecting :=
  Chronicle.waiting_acts ⟨⟨⟨⟨⟨by decide, rfl, rfl⟩, rfl⟩, rfl, trivial⟩, rfl⟩,
    ⟨Act.proper_step rfl rfl, rfl⟩, ⟨Act.proper_step rfl rfl, rfl⟩,
    ⟨Act.proper_step rfl rfl, rfl⟩, trivial⟩

theorem waiting_joined :
    (Act.joins.record .listing).Waiting 0 CallWait.joining.consumer .joined := by
  refine waiting_collecting.trans (Chronicle.waiting_acts ⟨⟨⟨trivial, ?_, ?_⟩, ?_⟩,
    ⟨⟨trivial, ?_, ?_⟩, ?_⟩, ⟨Act.proper_step ?_ ?_, ?_⟩, ⟨Act.proper_step ?_ ?_, ?_⟩, trivial⟩)
  · decide +kernel
  · simp [Object.edges]
  · decide +kernel
  · decide +kernel
  · refine Heap.holds_ref.2 ?_
    decide +kernel
  all_goals decide +kernel

/-- A collection while the thread waits frees the text and nothing that the join needs.  The value
of the future takes the place of callee and argument, in a list. -/
theorem waiting_calls_keep_joining :
    let q := CallWait.joining
    Chronicle.collecting.world.store.collector.collections = 1 ∧
      Chronicle.collecting.world.store.heap.object? 13 = none ∧ q.Waits .collecting ∧
      q.Returns .joined ∧ (Chronicle.joined.world.thread 0).vm.stack = #[.int 7, .ref 15] ∧
      Chronicle.joined.world.store.heap.object? 15 = some (.list #[.ref 14]) := by
  intro q
  have hask : World.Asks Chronicle.listing.world 0 q.request .joins q.consumer
      (Chronicle.listing.world.resumed 0 q.vm Chronicle.listing.world.store) := .call rfl
  obtain ⟨-, hkeep⟩ := waiting_calls_keep .listing .joins q _ run_listing proper_joins hask
    rfl (by simp [q, CallWait.joining])
  refine ⟨by decide +kernel, by decide +kernel, ?_, ?_, by decide +kernel, by decide +kernel⟩
  · rcases hkeep _ waiting_collecting with ⟨hwaits, -⟩ | hreturns
    · exact hwaits
    · have hcall : (Chronicle.collecting.world.control 0).waiter? ≠ none := by decide +kernel
      exact absurd hreturns.call hcall
  · rcases hkeep _ waiting_joined with ⟨hwaits, -⟩ | hreturns
    · have hcall : (Chronicle.joined.world.control 0).waiter? = none := by decide +kernel
      have hnone := hcall.symm.trans hwaits.call
      cases hnone
    · exact hreturns

end ScriptCore
