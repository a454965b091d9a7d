import ScriptCore.Proofs.Heap.Lasts
import ScriptCore.Proofs.World.Step

/-!
# What becomes of a thread at work

Everything a thread does between two waits ends in one of few ways: its machine goes on, has failed
or has panicked, or the thread waits. This module says once what that can do to the world; whatever
is shown of whole runs is derived from it.

* `Pending`: what a thread has in hand, the signal of its machine or the task of a host;
* `Leads`: how machine and control of the thread come out of it;
* `World.Sequel`: what else changes. No other thread does; at most one isolate is born, no thread
  registers or leaves, and the thread is counted as parked exactly if it waits in a blocking region;
* `Sequel.deliver`, `Sequel.launch`, `Sequel.request`, …: one lemma an operation.
-/

namespace ScriptCore

/-! ### Where a thread goes on -/

/-- A registered thread with this control counts as parked. -/
def Control.parked : Control → Bool
  | .lingering _ | .gathering _ | .sweeping _ | .blocked _ _ | .leaving _ _ => true
  | _ => false

/-- Where a thread goes on when its call is over. -/
def Role.ended : Role → Control
  | .host => .finished .done
  | .isolate _ => .pausing .returned

/-- Where a thread goes on when its call is laid out. -/
def Role.entered : Role → Control
  | .host => .finished .done
  | .isolate _ => .running

/-- Where a thread goes on after a panic. -/
def Role.interrupted (p : Panic) : Role → Control
  | .host => .finished (.panicked p)
  | .isolate _ => .pausing (.panicked p)

/-- Who is waiting for the outcome. -/
def After.consumer? : After → Option Consumer
  | .reply k | .start _ _ k | .join _ k => some k
  | _ => none

/-- The roots of a join in progress. -/
def After.joined : After → List RootId
  | .join j _ => [j.anchor, j.results]
  | _ => []

def Control.joined : Control → List RootId
  | .blocked _ k | .waiting _ k | .leaving _ k => k.joined
  | _ => []

/-- An isolate has let go of its function and arguments. -/
def Control.released : Control → Bool
  | .retiring | .lingering .retire | .unrooting | .gone => true
  | _ => false

/-- The root that keeps future, function and arguments of an isolate alive. -/
def Thread.carried (th : Thread) : List RootId :=
  match th.role with
  | .host => []
  | .isolate i => if th.control.released then [] else [i.transfer]

/-- The roots a thread answers for: its stack, those of a join in progress and what an isolate
carries. -/
def Thread.rootIds (th : Thread) : List RootId := th.root.toList ++ th.control.joined ++ th.carried

/-- What a thread has in hand. -/
inductive Pending
  /-- Its machine has come to a signal, in the outermost call or in an instruction. -/
  | machine (signal : Signal) (outermost : Bool)
  /-- The task of a host thread. -/
  | host
  deriving DecidableEq, Repr

/-- What a thread has in hand while it waits for the outcome of a request. -/
def Consumer.pending (q : Request) : Consumer → Pending
  | .call callee outermost => .machine (.suspended callee q) outermost
  | .host => .host

/-- From what a thread has in hand, its machine and the store to machine, store and control at its
next rest. Outcomes are handed over as `G` allows. -/
inductive Leads (G : Outcome → Store → Prop) (me : Caller) (role : Role) :
    Pending → Vm × Store → Vm × Store → Control → Prop
  | next {vm : Vm} {s : Store} {outermost : Bool} :
      Leads G me role (.machine .next outermost) (vm, s) (vm, s)
        (if outermost then role.entered else .running)
  | failed {vm : Vm} {s : Store} {e : Cause} {outermost : Bool} :
      Leads G me role (.machine (.failed e) outermost) (vm, s) (vm.fail me e s)
        (if outermost then role.entered else role.ended)
  | panicked {vm : Vm} {s : Store} {p : Panic} {outermost : Bool} :
      Leads G me role (.machine (.panicked p) outermost) (vm, s) (vm, s) (role.interrupted p)
  | collects {vm : Vm} {s s' : Store} {callee : Nat} {q : Request} {outermost : Bool} :
      s.heap.Evolves s'.heap →
      Leads G me role (.machine (.suspended callee q) outermost) (vm, s) (vm, s')
        (.rendezvous true (.reply (.call callee outermost)))
  | blocks {vm : Vm} {s s' : Store} {callee : Nat} {q : Request} {outermost : Bool} {wait : Wait}
      {k : After} : k.consumer? = some (.call callee outermost) → s.heap.Evolves s'.heap →
      Leads G me role (.machine (.suspended callee q) outermost) (vm, s) (vm, s') (.blocked wait k)
  | receives {vm : Vm} {s s₁ : Store} {y : Vm × Store} {callee : Nat} {q : Request}
      {outermost : Bool} {o : Outcome} {c : Control} : G o s₁ → s.heap.Evolves s₁.heap →
      Leads G me role (.machine (vm.receive me callee s₁ o).2.2 outermost)
        ((vm.receive me callee s₁ o).1, (vm.receive me callee s₁ o).2.1) y c →
      Leads G me role (.machine (.suspended callee q) outermost) (vm, s) y c
  | finishes {vm : Vm} {s s' : Store} {o : Outcome} : s.heap.Evolves s'.heap →
      Leads G me role .host (vm, s) (vm, s') (.finished o)
  | hostPanics {vm : Vm} {s s' : Store} {p : Panic} : s.heap.Evolves s'.heap →
      Leads G me role .host (vm, s) (vm, s') (role.interrupted p)
  | hostBlocks {vm : Vm} {s s' : Store} {wait : Wait} {k : After} : k.consumer? = some .host →
      s.heap.Evolves s'.heap → Leads G me role .host (vm, s) (vm, s') (.blocked wait k)

/-- Receiving an outcome is work of the machine. -/
theorem Vm.evolves_receive (me : Caller) (callee : Nat) (vm : Vm) (s : Store) (o : Outcome) :
    s.heap.Evolves (vm.receive me callee s o).2.1.heap := by
  cases o with
  | values vs => exact Heap.evolves_alloc _ _
  | _ => exact .refl _

namespace Leads

variable {G : Outcome → Store → Prop} {me : Caller} {role : Role} {p : Pending} {vm : Vm}
  {s s' : Store} {c : Control}

theorem evolves {x y : Vm × Store} (h : Leads G me role p x y c) : x.2.heap.Evolves y.2.heap := by
  induction h with
  | next | panicked => exact .refl _
  | failed => exact Heap.evolves_alloc _ _
  | receives _ he _ ih => exact (he.trans (Vm.evolves_receive _ _ _ _ _)).trans ih
  | collects he | blocks _ he | finishes he | hostPanics he | hostBlocks _ he => exact he

/-- While a request is pending the store may change. -/
theorem of_evolves {k : Consumer} {q : Request} {y : Vm × Store}
    (h : Leads G me role (k.pending q) (vm, s') y c) (he : s.heap.Evolves s'.heap) :
    Leads G me role (k.pending q) (vm, s) y c := by
  cases k with
  | host =>
    cases h with
    | finishes he' => exact .finishes (he.trans he')
    | hostPanics he' => exact .hostPanics (he.trans he')
    | hostBlocks hk he' => exact .hostBlocks hk (he.trans he')
  | call callee outermost =>
    cases h with
    | collects he' => exact .collects (he.trans he')
    | blocks hk he' => exact .blocks hk (he.trans he')
    | receives hG he' h => exact .receives hG (he.trans he') h

end Leads

namespace World

/-- Outcomes that an operation hands over as its last step are allowed. -/
def Hands (G : Outcome → Store → Prop) (t : ThreadId) (w' : World) : Prop :=
  ∀ w₁ k o, w' = deliver w₁ t k o → G o w₁.store

/-- The names of the registered roots. -/
def rootIds (w : World) : List RootId := w.store.collector.roots.map (·.1)

/-- The names of the allocation lists. -/
def storageIds (w : World) : List StorageId := w.store.collector.storages.map (·.id)

def sync (w : World) : Rendezvous := w.store.collector.sync

/-- Every root has a name of its own that has been drawn. -/
structure Drawn (w : World) : Prop where
  nodup : w.rootIds.Nodup
  lt : ∀ id ∈ w.rootIds, id < w.store.collector.nextId

/-- The roots new threads answer for. -/
def brought (w w' : World) : List RootId :=
  (List.range' w.threads.size (w'.threads.size - w.threads.size)).flatMap fun u =>
    (w'.thread u).rootIds

/-- An isolate that is about to register; its transfer root holds its future. -/
structure Newborn (th : Thread) (w : World) : Prop where
  fresh : ∃ name i, th = { name, role := .isolate i, control := .enrolling }
  future : ∀ i, th.role = .isolate i → ∃ slot, w.store.heap.object? i.future = some (.future slot)
  transfer : ∀ i, th.role = .isolate i →
    ∃ vs, (i.transfer, .pinned vs) ∈ w.store.collector.roots ∧ .ref i.future ∈ vs

/-- No thread is new, or one isolate is. -/
def Bears (w w' : World) : Prop :=
  w'.threads.size = w.threads.size ∨
  w'.threads.size = w.threads.size + 1 ∧ Newborn (w'.thread w.threads.size) w'

/-- What becomes of the world while thread `t` goes on with what it has in hand: `p` with the
machine `vm`, and the roots of a join. -/
structure Sequel (G : Outcome → Store → Prop) (t : ThreadId) (p : Pending) (vm : Vm)
    (held : List RootId) (w w' : World) : Prop where
  mine : ∃ vm' c, w'.thread t = { w.thread t with vm := vm', control := c } ∧
    Leads G ((w.thread t).caller t) (w.thread t).role p (vm, w.store) (vm', w'.store) c
  sync : w'.sync = if (w'.control t).parked then (w.park t).sync else w.sync
  others : ∀ u, u ≠ t → u < w.threads.size → w'.thread u = w.thread u
  born : Bears w w'
  live : w'.store.live + w.threads.size = w.store.live + w'.threads.size
  storages : w'.storageIds = w.storageIds
  /-- Roots stay, those of a finished join apart. -/
  kept : w.Drawn → ∀ r ∈ w.store.collector.roots, r.1 ∉ held → r ∈ w'.store.collector.roots
  /-- Roots are neither left behind nor lost. -/
  tally : w.Drawn → (∀ id, held.count id ≤ w.rootIds.count id) → ∀ id,
    w'.rootIds.count id + held.count id =
      w.rootIds.count id + (w'.control t).joined.count id + (brought w w').count id

/-! ### Operations on what is shared -/

section shared

variable (w : World) (t : ThreadId)

@[simp] theorem threads_park : (w.park t).threads = w.threads := by
  unfold park
  split <;> rfl

@[simp] theorem threads_unpark : (w.unpark t).threads = w.threads := by
  unfold unpark
  split <;> rfl

@[simp] theorem threads_dropRoot (id : RootId) : (w.dropRoot id).threads = w.threads := by
  unfold dropRoot
  split <;> rfl

theorem threads_passWait (wait : Wait) : (w.passWait t wait).1.threads = w.threads := by
  cases wait with
  | resolved f | resolvedBy f d =>
    simp only [passWait]
    split <;> rfl
  | _ => rfl

theorem collector_passWait (wait : Wait) :
    (w.passWait t wait).1.store.collector = w.store.collector := by
  cases wait with
  | resolved f | resolvedBy f d =>
    simp only [passWait]
    split <;> rfl
  | _ => rfl

theorem live_passWait (wait : Wait) : (w.passWait t wait).1.store.live = w.store.live := by
  cases wait with
  | resolved f | resolvedBy f d =>
    simp only [passWait]
    split <;> rfl
  | _ => rfl

theorem roots_dropRoot (id : RootId) :
    (w.dropRoot id).store.collector.roots = w.store.collector.roots.filter (·.1 != id) := by
  unfold dropRoot Collector.removeRoot
  split
  · rename_i g hg
    split at hg <;> cases hg
    rfl
  · rename_i hg
    split at hg
    · cases hg
    · rename_i hany
      refine (List.filter_eq_self.2 fun r hr => ?_).symm
      have hall : ∀ x, (id, x) ∉ w.store.collector.roots := by simpa using hany
      have hne : r.1 ≠ id := fun heq => hall r.2 (heq ▸ hr)
      simpa using hne

theorem mem_roots_dropRoot {id : RootId} {r : RootId × Holder} :
    r ∈ (w.dropRoot id).store.collector.roots ↔ r ∈ w.store.collector.roots ∧ r.1 ≠ id := by
  rw [roots_dropRoot, List.mem_filter]
  simp

theorem mem_rootIds_dropRoot {id id' : RootId} :
    id' ∈ (w.dropRoot id).rootIds ↔ id' ∈ w.rootIds ∧ id' ≠ id := by
  simp only [rootIds, List.mem_map, mem_roots_dropRoot]
  constructor
  · rintro ⟨r, ⟨hr, hne⟩, rfl⟩
    exact ⟨⟨r, hr, rfl⟩, hne⟩
  · rintro ⟨⟨r, hr, rfl⟩, hne⟩
    exact ⟨r, ⟨hr, hne⟩, rfl⟩

theorem count_rootIds_dropRoot (id id' : RootId) :
    (w.dropRoot id).rootIds.count id' = if id = id' then 0 else w.rootIds.count id' := by
  split
  · rename_i heq
    rw [List.count_eq_zero, mem_rootIds_dropRoot]
    exact fun hmem => hmem.2 heq.symm
  · rename_i hne
    have hfilter : (w.dropRoot id).rootIds = w.rootIds.filter (· != id) := by
      rw [rootIds, rootIds, roots_dropRoot, List.filter_map]
      rfl
    rw [hfilter, List.count_filter (by simpa using Ne.symm hne)]

/-- Dropping a root changes nothing else. -/
theorem dropRoot_same (id : RootId) : (w.dropRoot id).sync = w.sync ∧
    (w.dropRoot id).storageIds = w.storageIds ∧ (w.dropRoot id).store.live = w.store.live ∧
    (w.dropRoot id).store.collector.nextId = w.store.collector.nextId := by
  unfold dropRoot Collector.removeRoot
  split
  · rename_i g hg
    split at hg <;> cases hg
    exact ⟨rfl, rfl, rfl, rfl⟩
  · exact ⟨rfl, rfl, rfl, rfl⟩

theorem park_same : (w.park t).storageIds = w.storageIds ∧ (w.park t).store.live = w.store.live ∧
    (w.park t).store.collector.roots = w.store.collector.roots := by
  unfold park
  split <;> exact ⟨rfl, rfl, rfl⟩

theorem unpark_same : (w.unpark t).storageIds = w.storageIds ∧
    (w.unpark t).store.live = w.store.live ∧
    (w.unpark t).store.collector.roots = w.store.collector.roots := by
  unfold unpark
  split <;> exact ⟨rfl, rfl, rfl⟩

end shared

variable {G : Outcome → Store → Prop} {t u : ThreadId} {p : Pending} {vm : Vm}
  {held held' : List RootId} {w w₀ w₁ w' : World}

/-- One more root is registered. -/
theorem Drawn.cons (h : w.Drawn) (hids : w'.rootIds = w.store.collector.nextId :: w.rootIds)
    (hnext : w'.store.collector.nextId = w.store.collector.nextId + 1) : w'.Drawn where
  nodup := by
    rw [hids, List.nodup_cons]
    exact ⟨fun hmem => (h.lt _ hmem).ne rfl, h.nodup⟩
  lt id hid := by
    rw [hids, List.mem_cons] at hid
    rw [hnext]
    rcases hid with rfl | hid
    · exact Nat.lt_succ_self _
    · exact (h.lt id hid).trans (Nat.lt_succ_self _)

theorem Drawn.dropRoot (h : w.Drawn) (id : RootId) : (w.dropRoot id).Drawn where
  nodup := by
    rw [rootIds, roots_dropRoot]
    exact h.nodup.sublist ((List.filter_sublist).map _)
  lt id' hid := by
    rw [(dropRoot_same w id).2.2.2]
    exact h.lt id' ((mem_rootIds_dropRoot w).1 hid).1

/-- Without new threads nothing is brought. -/
theorem brought_of_size (hsize : w'.threads.size = w.threads.size) : brought w w' = [] := by
  rw [brought, hsize, Nat.sub_self]
  rfl

theorem brought_of_succ (hsize : w'.threads.size = w.threads.size + 1) :
    brought w w' = (w'.thread w.threads.size).rootIds := by
  rw [brought, hsize, Nat.add_sub_cancel_left]
  simp [List.range']

theorem sync_park_congr (hstorage : (w₁.thread t).storage = (w.thread t).storage)
    (hsync : w₁.sync = w.sync) : (w₁.park t).sync = (w.park t).sync := by
  unfold park
  rw [hstorage]
  split
  · exact congrArg Rendezvous.park hsync
  · exact hsync

theorem endRun_eq (w : World) (t : ThreadId) :
    w.endRun t = w.setControl t (w.thread t).role.ended := by
  unfold endRun
  split <;> rename_i hrole <;> rw [hrole] <;> rfl

theorem endEnter_eq (w : World) (t : ThreadId) :
    w.endEnter t = w.setControl t (w.thread t).role.entered := by
  unfold endEnter
  split <;> rename_i hrole <;> rw [hrole] <;> rfl

theorem interrupt_eq (w : World) (t : ThreadId) (p : Panic) :
    w.interrupt t p = w.setControl t ((w.thread t).role.interrupted p) := by
  unfold interrupt
  split <;> rename_i hrole <;> rw [hrole] <;> rfl

/-! ### The thread itself -/

theorem thread_setVm_self (ht : t < w.threads.size) (vm : Vm) :
    (w.setVm t vm).thread t = { w.thread t with vm } :=
  thread_modifyThread_self _ ht

/-- A thread that is not idle is known. -/
theorem lt_size_of_control (h : w.control t ≠ .idle) : t < w.threads.size := by
  by_contra hsize
  rw [control, thread_of_size_le (Nat.not_lt.1 hsize)] at h
  exact h rfl

/-- Only thread `t` changes, and this is what becomes of it. -/
structure Becomes (t : ThreadId) (th : Thread) (w w' : World) : Prop where
  mine : w'.thread t = th
  others : ∀ u, u ≠ t → w'.thread u = w.thread u
  size : w'.threads.size = w.threads.size

theorem Becomes.control {th : Thread} (h : Becomes t th w w₁) : w₁.control t = th.control :=
  congrArg Thread.control h.mine

theorem thread_congr (hthreads : w₁.threads = w.threads) (u : ThreadId) :
    w₁.thread u = w.thread u := by
  rw [thread, thread, hthreads]

/-- A change of the thread, possibly after one of the store. -/
theorem becomes_modifyThread (hthreads : w₁.threads = w.threads) (ht : t < w.threads.size)
    (f : Thread → Thread) : Becomes t (f (w.thread t)) w (w₁.modifyThread t f) where
  mine := by rw [thread_modifyThread_self f (hthreads ▸ ht), thread_congr hthreads]
  others u hu := (thread_modifyThread_of_ne f hu).trans (thread_congr hthreads u)
  size := by rw [size_modifyThread, hthreads]

/-- The thread changes once more. -/
theorem Becomes.modifyThread {th : Thread} (h : Becomes t th w w₁) (ht : t < w.threads.size)
    (f : Thread → Thread) : Becomes t (f th) w (w₁.modifyThread t f) where
  mine := by rw [thread_modifyThread_self f (h.size ▸ ht), h.mine]
  others u hu := (thread_modifyThread_of_ne f hu).trans (h.others u hu)
  size := (size_modifyThread f).trans h.size

theorem Becomes.setControl {th : Thread} (h : Becomes t th w w₁) (ht : t < w.threads.size)
    (c : Control) : Becomes t { th with control := c } w (w₁.setControl t c) :=
  h.modifyThread ht fun th => { th with control := c }

theorem becomes_setControl (hthreads : w₁.threads = w.threads) (ht : t < w.threads.size)
    (c : Control) : Becomes t { w.thread t with control := c } w (w₁.setControl t c) :=
  becomes_modifyThread hthreads ht fun th => { th with control := c }

theorem becomes_setVm (hthreads : w₁.threads = w.threads) (ht : t < w.threads.size) (vm : Vm)
    (c : Control) :
    Becomes t { w.thread t with vm, control := c } w ((w₁.setVm t vm).setControl t c) :=
  (becomes_modifyThread hthreads ht fun th => { th with vm }).setControl ht c

theorem becomes_register (ht : t < w.threads.size) :
    Becomes t { w.thread t with storage := some w.store.collector.nextId } w (w.register t) := by
  let w₁ : World := { w with store := { w.store with collector := w.store.collector.enroll.1 } }
  have hthreads : w₁.threads = w.threads := rfl
  exact becomes_modifyThread hthreads ht fun th =>
    { th with storage := some w.store.collector.nextId }

theorem becomes_equip (ht : t < w.threads.size) :
    Becomes t { w.thread t with vm := {}, root := some w.store.collector.nextId } w
      (w.equip t) := by
  let g := (w.store.collector.addRoot (.stack t)).1
  let w₁ : World := { w with store := { w.store with collector := g } }
  have hthreads : w₁.threads = w.threads := rfl
  exact becomes_modifyThread hthreads ht fun th =>
    { th with vm := {}, root := some w.store.collector.nextId }

/-- A blocking region inside another: the panic leaves the outer one. -/
theorem nest_eq (ht : t < w.threads.size) : w.nest t =
    (w.block t (.until w.store.now) (.reply .host)).setControl t
      (.leaving (.panicked .nestedBlocking) (.reply .host)) := by
  have hblocked := becomes_setControl (threads_park w t) ht
    (.blocked (.until w.store.now) (.reply .host))
  simp only [nest, enterRegion, block, control, hblocked.mine]

theorem becomes_nest (ht : t < w.threads.size) : Becomes t
    { w.thread t with control := .leaving (.panicked .nestedBlocking) (.reply .host) } w
    (w.nest t) := by
  rw [nest_eq ht]
  exact (becomes_setControl (threads_park w t) ht
    (.blocked (.until w.store.now) (.reply .host))).setControl ht _

namespace Sequel

/-- A thread comes to rest and no thread is born. -/
theorem of_becomes {vm' : Vm} {c : Control}
    (h : Becomes t { w.thread t with vm := vm', control := c } w w')
    (hlead : Leads G ((w.thread t).caller t) (w.thread t).role p (vm, w.store) (vm', w'.store) c)
    (hsync : w'.sync = if c.parked then (w.park t).sync else w.sync)
    (hlive : w'.store.live = w.store.live) (hstorages : w'.storageIds = w.storageIds)
    (hroots : w'.store.collector.roots = w.store.collector.roots) (hjoined : c.joined = held) :
    Sequel G t p vm held w w' where
  mine := ⟨vm', c, h.mine, hlead⟩
  sync := by rw [h.control]; exact hsync
  others u hu _ := h.others u hu
  born := .inl h.size
  live := by rw [hlive, h.size]
  storages := hstorages
  kept _ r hr _ := hroots ▸ hr
  tally _ _ id := by
    rw [h.control, show c.joined = held from hjoined, rootIds, rootIds, hroots,
      brought_of_size h.size]
    rfl

/-- A change before the thread comes to rest, after which the roots `held'` of a join are in
hand. -/
theorem rebase {p' : Pending} {vm' x : Vm} (h : Sequel G t p' vm' held' w₁ w')
    (hmine : w₁.thread t = { w.thread t with vm := x })
    (hothers : ∀ u, u ≠ t → w₁.thread u = w.thread u) (hsize : w₁.threads.size = w.threads.size)
    (hsync : w₁.sync = w.sync) (hlive : w₁.store.live = w.store.live)
    (hstorages : w₁.storageIds = w.storageIds) (hdrawn : w.Drawn → w₁.Drawn)
    (hkept : w.Drawn → ∀ r ∈ w.store.collector.roots, r.1 ∉ held →
      r ∈ w₁.store.collector.roots ∧ r.1 ∉ held')
    (htally : w.Drawn → (∀ id, held.count id ≤ w.rootIds.count id) → ∀ id,
      w₁.rootIds.count id + held.count id = w.rootIds.count id + held'.count id)
    (hlead : ∀ y c, Leads G ((w.thread t).caller t) (w.thread t).role p' (vm', w₁.store) y c →
      Leads G ((w.thread t).caller t) (w.thread t).role p (vm, w.store) y c) :
    Sequel G t p vm held w w' := by
  have hcaller : (w₁.thread t).caller t = (w.thread t).caller t := by rw [hmine]; rfl
  have hrole : (w₁.thread t).role = (w.thread t).role := by rw [hmine]
  have hpark : (w₁.park t).sync = (w.park t).sync := sync_park_congr (by rw [hmine]) hsync
  obtain ⟨vm'', c, hself, hleads⟩ := h.mine
  rw [hcaller, hrole] at hleads
  refine ⟨⟨vm'', c, by rw [hself, hmine], hlead _ _ hleads⟩, ?_, ?_, ?_, ?_, ?_, ?_, ?_⟩
  · rw [h.sync, hpark, hsync]
  · exact fun u hu hlt => (h.others u hu (hsize ▸ hlt)).trans (hothers u hu)
  · simpa only [Bears, hsize] using h.born
  · rw [← hsize, ← hlive]
    exact h.live
  · exact h.storages.trans hstorages
  · intro hd r hr hheld
    obtain ⟨hr, hheld⟩ := hkept hd r hr hheld
    exact h.kept (hdrawn hd) r hr hheld
  · intro hd hheld id
    have hfirst := htally hd hheld
    have hle : ∀ id, held'.count id ≤ w₁.rootIds.count id := fun id => by
      have heq := hfirst id
      have hle := hheld id
      omega
    have hlast := h.tally (hdrawn hd) hle id
    have heq := hfirst id
    rw [show brought w w' = brought w₁ w' by rw [brought, brought, hsize]]
    omega

/-- A change before the thread comes to rest that leaves the registry of roots alone. -/
theorem after {p' : Pending} {vm' x : Vm} (h : Sequel G t p' vm' held w₁ w')
    (hmine : w₁.thread t = { w.thread t with vm := x })
    (hothers : ∀ u, u ≠ t → w₁.thread u = w.thread u) (hsize : w₁.threads.size = w.threads.size)
    (hsync : w₁.sync = w.sync) (hlive : w₁.store.live = w.store.live)
    (hstorages : w₁.storageIds = w.storageIds)
    (hroots : w₁.store.collector.roots = w.store.collector.roots)
    (hnext : w₁.store.collector.nextId = w.store.collector.nextId)
    (hlead : ∀ y c, Leads G ((w.thread t).caller t) (w.thread t).role p' (vm', w₁.store) y c →
      Leads G ((w.thread t).caller t) (w.thread t).role p (vm, w.store) y c) :
    Sequel G t p vm held w w' := by
  have hids : w₁.rootIds = w.rootIds := congrArg (List.map Prod.fst) hroots
  refine h.rebase hmine hothers hsize hsync hlive hstorages ?_ ?_ ?_ hlead
  · exact fun hd => ⟨hids ▸ hd.nodup, hids ▸ hnext ▸ hd.lt⟩
  · exact fun _ r hr hheld => ⟨hroots ▸ hr, hheld⟩
  · exact fun _ _ id => by rw [hids]

/-- A machine that does not wait. -/
theorem answer (ht : t < w.threads.size) (outermost : Bool) {signal : Signal}
    (hsignal : ∀ callee q, signal ≠ .suspended callee q) :
    Sequel G t (.machine signal outermost) vm [] w (w.afterSignal t outermost vm signal) := by
  have hfree : ∀ c : Control, c = .running ∨ c = (w.thread t).role.entered ∨
      c = (w.thread t).role.ended ∨ (∃ p, c = (w.thread t).role.interrupted p) →
      c.parked = false ∧ c.joined = [] := by
    intro c hc
    cases hrole : (w.thread t).role <;> rw [hrole] at hc <;>
      rcases hc with rfl | rfl | rfl | ⟨p, rfl⟩ <;> exact ⟨rfl, rfl⟩
  cases signal with
  | next =>
    have heq : w.afterSignal t outermost vm .next = (w.setVm t vm).setControl t
        (if outermost then (w.thread t).role.entered else .running) := by
      simp only [World.afterSignal, World.proceed]
      split
      · rw [endEnter_eq, role_setVm]
      · rfl
    rw [heq]
    obtain ⟨hparked, hjoined⟩ := hfree (if outermost then (w.thread t).role.entered else .running)
      (by cases outermost <;> simp)
    exact of_becomes (becomes_setVm rfl ht vm _) .next (by rw [hparked]; rfl) rfl rfl rfl hjoined
  | failed e =>
    let r := vm.fail ((w.thread t).caller t) e w.store
    have heq : w.afterSignal t outermost vm (.failed e) =
        ({ w with store := r.2 }.setVm t r.1).setControl t
          (if outermost then (w.thread t).role.entered else (w.thread t).role.ended) := by
      simp only [World.afterSignal, World.proceed]
      split
      · rw [endEnter_eq, role_setVm]
        rfl
      · rw [endRun_eq, role_setVm]
        rfl
    rw [heq]
    obtain ⟨hparked, hjoined⟩ :=
      hfree (if outermost then (w.thread t).role.entered else (w.thread t).role.ended)
        (by cases outermost <;> simp)
    exact of_becomes (becomes_setVm (by rfl) ht r.1 _) .failed (by rw [hparked]; rfl) rfl
      (Collector.Tidy.ids_make _ _ _) rfl hjoined
  | panicked q =>
    have heq : w.afterSignal t outermost vm (.panicked q) =
        (w.setVm t vm).setControl t ((w.thread t).role.interrupted q) := by
      simp only [World.afterSignal]
      rw [interrupt_eq, role_setVm]
    rw [heq]
    obtain ⟨hparked, hjoined⟩ := hfree _ (.inr (.inr (.inr ⟨q, rfl⟩)))
    exact of_becomes (becomes_setVm rfl ht vm _) .panicked (by rw [hparked]; rfl) rfl rfl rfl
      hjoined
  | suspended callee q => exact absurd rfl (hsignal callee q)

/-- Whoever asked for an operation gets its outcome. -/
theorem deliver (ht : t < w.threads.size) (q : Request) (k : Consumer) {o : Outcome}
    (hG : G o w.store) : Sequel G t (k.pending q) (w.thread t).vm [] w (w.deliver t k o) := by
  cases k with
  | host => exact of_becomes (becomes_setControl rfl ht _) (.finishes (.refl _)) rfl rfl rfl rfl rfl
  | call callee outermost =>
    let r := (w.thread t).vm.receive ((w.thread t).caller t) callee w.store o
    let w₁ : World := { (w.setVm t {}) with store := r.2.1 }
    have hsame : w₁.sync = w.sync ∧ w₁.store.live = w.store.live ∧
        w₁.storageIds = w.storageIds ∧ w₁.store.collector.roots = w.store.collector.roots ∧
        w₁.store.collector.nextId = w.store.collector.nextId := by
      cases o with
      | values vs => exact ⟨rfl, rfl, Collector.Tidy.ids_make _ _ _, rfl, rfl⟩
      | _ => exact ⟨rfl, rfl, rfl, rfl, rfl⟩
    obtain ⟨hsync, hlive, hstorages, hroots, hnext⟩ := hsame
    rw [deliver_call]
    have hrest : Sequel G t (.machine r.2.2 outermost) r.1 [] w₁
        (w₁.afterSignal t outermost r.1 r.2.2) := by
      refine answer ?_ outermost (Vm.receive_not_suspended _ _ _ _)
      exact (size_modifyThread _).ge.trans_lt' ht
    exact hrest.after (thread_setVm_self ht {}) (fun u hu => thread_modifyThread_of_ne _ hu)
      (size_modifyThread _) hsync hlive hstorages hroots hnext
      fun y c hleads => .receives hG (.refl _) hleads

/-- Enter a blocking region. -/
theorem block (ht : t < w.threads.size) (q : Request) {k : Consumer} (after : After)
    (hk : after.consumer? = some k) (wait : Wait) :
    Sequel G t (k.pending q) (w.thread t).vm after.joined w (w.block t wait after) := by
  obtain ⟨hstorages, hlive, hroots⟩ := park_same w t
  refine of_becomes (becomes_setControl (threads_park w t) ht _) ?_ rfl hlive hstorages hroots rfl
  cases k with
  | call callee outermost => exact .blocks hk (heap_park ▸ .refl _)
  | host => exact .hostBlocks hk (heap_park ▸ .refl _)

end Sequel

/-! ### Isolates -/

theorem setVm_setVm_self (w : World) (t : ThreadId) (vm : Vm) :
    (w.setVm t vm).setVm t (w.thread t).vm = w := by
  have hthreads : ((w.setVm t vm).setVm t (w.thread t).vm).threads = w.threads := by
    apply Array.ext_getElem?
    intro u
    simp only [setVm, modifyThread, Array.getElem?_modify]
    split
    · rename_i heq
      subst heq
      rcases hu : w.threads[t]? with _ | th
      · rfl
      · simp [thread, Array.getD_eq_getD_getElem?, hu]
    · rfl
  exact congrArg (fun threads => { w with threads }) hthreads

/-- A panic reaches the machine that asked for the operation. -/
theorem interrupt_eq_deliver (w : World) (t : ThreadId) (callee : Nat) (outermost : Bool)
    (q : Panic) : w.interrupt t q = w.deliver t (.call callee outermost) (.panicked q) := by
  simp only [World.deliver, takeVm]
  rw [setVm_setVm_self]

theorem Newborn.mono {th : Thread} (h : Newborn th w)
    (he : w.store.heap.Evolves w'.store.heap)
    (hroots : ∀ r ∈ w.store.collector.roots, r ∈ w'.store.collector.roots) : Newborn th w' := by
  refine ⟨h.fresh, fun i hi => ?_, fun i hi => ?_⟩
  · obtain ⟨slot, ho⟩ := h.future i hi
    obtain ⟨o', ho', hgrows⟩ := he.forth _ _ ho
    obtain ⟨slot', rfl⟩ := hgrows.of_future
    exact ⟨slot', ho'⟩
  · obtain ⟨vs, hvs, hmem⟩ := h.transfer i hi
    exact ⟨vs, hroots _ hvs, hmem⟩

/-- A store in which a launch has made the future and the transfer root. -/
def anchored (w : World) (t : ThreadId) (function : Value) (args : Array Value) : World :=
  let (s, future) := w.store.make ((w.thread t).caller t).storage (.future none)
  let (g, _) := s.collector.addRoot (.pinned (#[.ref future, function] ++ args))
  { w with store := { s with collector := g, spawned := s.spawned + 1, creating := false } }

/-- The isolate a launch starts. -/
def offspring (w : World) (function : Value) (args : Array Value) : Isolate :=
  ⟨w.store.spawned, function, args, w.store.heap.size, w.store.collector.nextId⟩

/-- A world in which a launch has added its isolate. -/
def bearing (w : World) (t : ThreadId) (function : Value) (args : Array Value) (name : String) :
    World :=
  ((w.anchored t function args).add
    { name, role := .isolate (w.offspring function args), control := .enrolling }).1.modifyStore
      fun s => { s with live := s.live + 1 }

theorem size_bearing (w : World) (t : ThreadId) (function : Value) (args : Array Value)
    (name : String) : (w.bearing t function args name).threads.size = w.threads.size + 1 :=
  Array.size_push ..

theorem thread_bearing (w : World) (t : ThreadId) (function : Value) (args : Array Value)
    (name : String) (u : ThreadId) : (w.bearing t function args name).thread u =
      if u = w.threads.size then
        { name, role := .isolate (w.offspring function args), control := .enrolling }
      else w.thread u :=
  thread_add _ u

/-- An isolate is not started, because there is no thread for it or because of its name, or it is
there before its caller goes on. -/
theorem launch_cases (w : World) (t : ThreadId) (function : Value) (args : Array Value)
    (k : Consumer) :
    let w₁ := (w.anchored t function args).dropRoot w.store.collector.nextId
    (∃ why, w.store.shortage = some why ∧
      w.launch t function args k = w₁.deliver t k (.failed (.spawnFailed why))) ∨
    (∃ q, w.launch t function args k = w₁.interrupt t q) ∨
    ∃ name, w.launch t function args k = (w.bearing t function args name).deliver t k
      (.value (.ref (w.offspring function args).future)) := by
  unfold World.launch
  simp only
  split
  · exact .inr (.inl ⟨_, rfl⟩)
  · split
    · rename_i why hwhy
      exact .inl ⟨why, hwhy, rfl⟩
    · exact .inr (.inr ⟨_, rfl⟩)

/-- The system has a thread to give, and its name is in order: the isolate is started. -/
theorem launch_granted {w : World}
    (hname : (w.store.isolates.threadName w.store.spawned).toList.contains (Char.ofNat 0) = false)
    (hsupply : w.store.shortage = none) (t : ThreadId) (function : Value) (args : Array Value)
    (k : Consumer) : w.launch t function args k =
      (w.bearing t function args (w.store.isolates.threadName w.store.spawned)).deliver t k
        (.value (.ref (w.offspring function args).future)) := by
  unfold World.launch
  refine (if_neg (Bool.eq_false_iff.1 hname)).trans ?_
  split
  · rename_i why hwhy
    cases hsupply.symm.trans hwhy
  · rfl

section anchored

variable (w : World) (t : ThreadId) (function : Value) (args : Array Value)

theorem evolves_anchored : w.store.heap.Evolves (w.anchored t function args).store.heap :=
  Heap.evolves_alloc _ _

theorem storageIds_anchored : (w.anchored t function args).storageIds = w.storageIds :=
  Collector.Tidy.ids_make _ ((w.thread t).caller t).storage (.future none)

theorem roots_anchored : (w.anchored t function args).store.collector.roots =
    (w.store.collector.nextId, .pinned (#[.ref w.store.heap.size, function] ++ args)) ::
      w.store.collector.roots := rfl

theorem object?_anchored : (w.anchored t function args).store.heap.object? w.store.heap.size =
    some (.future none) :=
  Store.object?_make _ ((w.thread t).caller t).storage _

end anchored

/-- Handing over an outcome adds no thread and leaves the registry of roots alone. -/
theorem deliver_same (w : World) (t : ThreadId) (k : Consumer) (o : Outcome) :
    (w.deliver t k o).store.collector.roots = w.store.collector.roots ∧
    (w.deliver t k o).store.live = w.store.live ∧
    (w.deliver t k o).threads.size = w.threads.size := by
  cases k with
  | host => exact ⟨rfl, rfl, size_modifyThread _⟩
  | call callee outermost =>
    cases o <;> simp only [World.deliver, takeVm, proceed, endEnter_eq, endRun_eq, interrupt_eq] <;>
      (try split) <;> refine ⟨rfl, rfl, ?_⟩ <;> simp [setControl, setVm]

namespace Sequel

/-- An isolate could not be started: the transfer root is taken back. -/
theorem unanchored {k : Consumer} {q : Request} (function : Value) (args : Array Value)
    (h : let w₁ := (w.anchored t function args).dropRoot w.store.collector.nextId
      Sequel G t (k.pending q) (w₁.thread t).vm [] w₁ w') :
    Sequel G t (k.pending q) (w.thread t).vm [] w w' := by
  let n := w.store.collector.nextId
  let w₁ := (w.anchored t function args).dropRoot n
  have hrest : Sequel G t (k.pending q) (w₁.thread t).vm [] w₁ w' := h
  have hthread : ∀ u, w₁.thread u = w.thread u := fun u => thread_dropRoot _
  have hsame := dropRoot_same (w.anchored t function args) n
  have hroots : w.Drawn → w₁.store.collector.roots = w.store.collector.roots := by
    intro hd
    have hne : ∀ r ∈ w.store.collector.roots, (r.1 != n) = true := fun r hr => by
      simpa using (hd.lt r.1 (List.mem_map_of_mem hr)).ne
    rw [roots_dropRoot, roots_anchored, List.filter_cons_of_neg (by simp [n]),
      List.filter_eq_self.2 hne]
  have hids : w.Drawn → w₁.rootIds = w.rootIds := fun hd => congrArg (List.map Prod.fst) (hroots hd)
  refine hrest.rebase (x := (w.thread t).vm) (by rw [hthread]) (fun u _ => hthread u) ?_ hsame.1
    hsame.2.2.1 (hsame.2.1.trans (storageIds_anchored w t function args)) ?_ ?_ ?_ ?_
  · rw [threads_dropRoot]
    rfl
  · intro hd
    refine ⟨hids hd ▸ hd.nodup, fun id hid => ?_⟩
    rw [hsame.2.2.2]
    exact (hd.lt id (hids hd ▸ hid)).trans (Nat.lt_succ_self _)
  · exact fun hd r hr hheld => ⟨hroots hd ▸ hr, hheld⟩
  · exact fun hd _ id => by rw [hids hd]
  · intro y c hleads
    rw [hthread] at hleads
    refine hleads.of_evolves ?_
    rw [heap_dropRoot]
    exact evolves_anchored w t function args

/-- Start an isolate. -/
theorem launch (ht : t < w.threads.size) (q : Request) (function : Value) (args : Array Value)
    (k : Consumer) (hG : Hands G t (w.launch t function args k)) :
    Sequel G t (k.pending q) (w.thread t).vm [] w (w.launch t function args k) := by
  let n := w.store.collector.nextId
  have hlt : t < ((w.anchored t function args).dropRoot n).threads.size := by
    rwa [threads_dropRoot]
  rcases launch_cases w t function args k with ⟨why, -, heq⟩ | ⟨p, heq⟩ | ⟨name, heq⟩
  · rw [heq]
    exact unanchored function args (deliver hlt q k (hG _ _ _ heq))
  · rw [heq]
    refine unanchored function args ?_
    cases k with
    | host =>
      rw [interrupt_eq]
      exact of_becomes (becomes_setControl rfl hlt _) (.hostPanics (.refl _))
        (by cases ((World.dropRoot _ _).thread t).role <;> rfl) rfl rfl rfl
        (by cases ((World.dropRoot _ _).thread t).role <;> rfl)
    | call callee outermost =>
      rw [interrupt_eq_deliver _ _ callee outermost] at heq ⊢
      exact deliver hlt q _ (hG _ _ _ heq)
  -- the isolate is there before the caller goes on
  · let i := w.offspring function args
    let th : Thread := { name, role := .isolate i, control := .enrolling }
    let w₁ := w.bearing t function args name
    have hsize : w₁.threads.size = w.threads.size + 1 := size_bearing w t function args name
    have hold : ∀ u, u < w.threads.size → w₁.thread u = w.thread u := fun u hu =>
      (thread_bearing w t function args name u).trans (if_neg hu.ne)
    have hnew : w₁.thread w.threads.size = th :=
      (thread_bearing w t function args name _).trans (if_pos rfl)
    have hrest : Sequel G t (k.pending q) (w₁.thread t).vm [] w₁
        (w₁.deliver t k (.value (.ref i.future))) :=
      deliver (hsize ▸ Nat.lt_succ_of_lt ht) q k (hG _ _ _ heq)
    have hdrawn : w.Drawn → w₁.Drawn := fun hd => hd.cons rfl rfl
    obtain ⟨hroots, hlive, hsize'⟩ :=
      deliver_same w₁ t k (.value (.ref i.future))
    have hthread : (w₁.deliver t k (.value (.ref i.future))).thread w.threads.size = th :=
      (hrest.others _ ht.ne' (hsize ▸ Nat.lt_succ_self _)).trans hnew
    have hborn : Newborn th w₁ := by
      refine ⟨⟨name, i, rfl⟩, ?_, ?_⟩
      · rintro _ ⟨⟩
        exact ⟨none, object?_anchored w t function args⟩
      · rintro _ ⟨⟩
        refine ⟨#[.ref w.store.heap.size, function] ++ args, List.mem_cons_self, ?_⟩
        exact Array.mem_append.2 (.inl (by simp [i, offspring]))
    obtain ⟨vm', c, hmine, hleads⟩ := hrest.mine
    have hevolves := hleads.evolves
    rw [hold t ht] at hmine hleads
    rw [heq]
    refine ⟨⟨vm', c, hmine, hleads.of_evolves (evolves_anchored w t function args)⟩, ?_, ?_, ?_, ?_,
      ?_, ?_, ?_⟩
    · have hpark : (w₁.park t).sync = (w.park t).sync := sync_park_congr (by rw [hold t ht]) rfl
      exact hpark ▸ hrest.sync
    · intro u hu hlt
      rw [hrest.others u hu (hsize ▸ Nat.lt_succ_of_lt hlt), hold u hlt]
    · refine .inr ⟨hsize'.trans hsize, ?_⟩
      rw [hthread]
      exact hborn.mono hevolves fun r hr => hroots ▸ hr
    · rw [show _ = w.store.live + 1 from hlive, show _ = w.threads.size + 1 from hsize'.trans hsize]
      exact Nat.add_right_comm _ _ _
    · exact hrest.storages.trans (storageIds_anchored w t function args)
    · exact fun _ r hr _ => hroots ▸ List.mem_cons_of_mem _ hr
    · intro hd _ id
      have hlast := hrest.tally (hdrawn hd) (fun id => Nat.zero_le _) id
      have hids : w₁.rootIds = n :: w.rootIds := rfl
      have hbrought : brought w (w₁.deliver t k (.value (.ref i.future))) = [n] := by
        rw [brought_of_succ (hsize'.trans hsize), hthread]
        rfl
      rw [brought_of_size hsize', hids, List.count_cons] at hlast
      rw [show brought w _ = [n] from hbrought, List.count_cons]
      simp only [List.count_nil, Nat.add_zero, Nat.zero_add] at hlast ⊢
      exact hlast.trans (Nat.add_right_comm _ _ _)

end Sequel

/-! ### Joins -/

/-- Replace the values of a pinned root. -/
def setPinned (w : World) (id : RootId) (vs : Array Value) : World :=
  { w with store := { w.store with collector := w.store.collector.setPinned id vs } }

theorem joinPass_cases (w : World) (t : ThreadId) (j : Join) (k : Consumer) :
    (∃ vs, w.joinPass t j k = ((w.dropRoot j.results).dropRoot j.anchor).deliver t k (.values vs)) ∨
    ∃ vs wait pending, w.joinPass t j k =
      (w.setPinned j.results vs).block t wait (.join { j with pending } k) := by
  unfold World.joinPass
  simp only
  split
  · exact .inl ⟨_, rfl⟩
  · exact .inr ⟨_, _, _, rfl⟩

namespace Sequel

/-- One pass of a join. -/
theorem joinPass (ht : t < w.threads.size) (q : Request) (j : Join) (k : Consumer)
    (hG : Hands G t (w.joinPass t j k)) :
    Sequel G t (k.pending q) (w.thread t).vm [j.anchor, j.results] w (w.joinPass t j k) := by
  rcases joinPass_cases w t j k with ⟨vs, heq⟩ | ⟨vs, wait, pending, heq⟩
  · let w₁ := (w.dropRoot j.results).dropRoot j.anchor
    have hthread : ∀ u, w₁.thread u = w.thread u := fun u => by
      rw [thread_dropRoot, thread_dropRoot]
    have hsize : w₁.threads.size = w.threads.size := by rw [threads_dropRoot, threads_dropRoot]
    have hresults := dropRoot_same w j.results
    have hanchor := dropRoot_same (w.dropRoot j.results) j.anchor
    have hrest : Sequel G t (k.pending q) (w₁.thread t).vm [] w₁ (w₁.deliver t k (.values vs)) :=
      deliver (hsize ▸ ht) q k (hG _ _ _ heq)
    rw [heq]
    refine hrest.rebase (x := (w.thread t).vm) (by rw [hthread]) (fun u _ => hthread u) hsize
      (hanchor.1.trans hresults.1) (hanchor.2.2.1.trans hresults.2.2.1)
      (hanchor.2.1.trans hresults.2.1) ?_ ?_ ?_ ?_
    · exact fun hd => (hd.dropRoot _).dropRoot _
    · intro _ r hr hheld
      simp only [List.mem_cons, List.not_mem_nil, or_false, not_or] at hheld
      exact ⟨(mem_roots_dropRoot _).2 ⟨(mem_roots_dropRoot _).2 ⟨hr, hheld.2⟩, hheld.1⟩,
        List.not_mem_nil⟩
    · intro hd hheld id
      -- both roots of the join are registered, each of them once
      have hone := List.nodup_iff_count_le_one.1 hd.nodup id
      have hle := hheld id
      rw [count_rootIds_dropRoot, count_rootIds_dropRoot]
      simp only [List.count_cons, List.count_nil, beq_iff_eq] at hle ⊢
      split_ifs at hle ⊢ <;> omega
    · intro y c hleads
      rw [hthread] at hleads
      refine hleads.of_evolves ?_
      rw [heap_dropRoot, heap_dropRoot]
      exact .refl _
  · let w₁ := w.setPinned j.results vs
    have hids : w₁.rootIds = w.rootIds := Collector.Tidy.ids_setPinned _ _ _
    have hrest : Sequel G t (k.pending q) (w₁.thread t).vm [j.anchor, j.results] w₁
        (w₁.block t wait (.join { j with pending } k)) :=
      block (w := w₁) ht q (.join { j with pending } k) rfl wait
    rw [heq]
    refine hrest.rebase (x := (w.thread t).vm) rfl (fun _ _ => rfl) rfl rfl rfl rfl ?_ ?_ ?_ ?_
    · exact fun hd => ⟨hids ▸ hd.nodup, hids ▸ hd.lt⟩
    · intro _ r hr hheld
      refine ⟨List.mem_map.2 ⟨r, hr, if_neg ?_⟩, hheld⟩
      simp only [List.mem_cons, List.not_mem_nil, or_false, not_or] at hheld
      exact hheld.2
    · exact fun _ _ id => by rw [hids]
    · exact fun y c hleads => hleads.of_evolves (.refl _)

/-- Begin a join. -/
theorem joinStart (ht : t < w.threads.size) (q : Request) (fs : Array Value) (poll : Nat)
    (tagged : Bool) (k : Consumer) (hG : Hands G t (w.joinStart t fs poll tagged k)) :
    Sequel G t (k.pending q) (w.thread t).vm [] w (w.joinStart t fs poll tagged k) := by
  unfold World.joinStart at hG ⊢
  split
  · rename_i heq
    simp only [heq] at hG
    exact deliver ht q k (hG _ _ _ rfl)
  · rename_i heq
    simp only [heq] at hG
    exact deliver ht q k (hG _ _ _ rfl)
  · rename_i pending hne heq
    simp only [heq] at hG
    let n := w.store.collector.nextId
    let g := ((w.store.collector.addRoot (.pinned fs)).1.addRoot (.pinned #[])).1
    let w₁ : World := { w with store := { w.store with collector := g } }
    have hids : w₁.rootIds = (n + 1) :: n :: w.rootIds := rfl
    let j : Join := { pending, anchor := n, results := n + 1, poll, tagged }
    have hrest : Sequel G t (k.pending q) (w₁.thread t).vm [n, n + 1] w₁ (w₁.joinPass t j k) := by
      refine joinPass (w := w₁) ht q j k ?_
      cases pending with
      | nil => exact absurd rfl hne
      | cons f pending => exact hG
    refine hrest.rebase (x := (w.thread t).vm) rfl (fun _ _ => rfl) rfl rfl rfl rfl ?_ ?_ ?_ ?_
    · intro hd
      let w₂ : World :=
        { w with store := { w.store with collector := (w.store.collector.addRoot (.pinned fs)).1 } }
      have hfirst : w₂.Drawn := hd.cons rfl rfl
      exact hfirst.cons rfl rfl
    · intro hd r hr _
      refine ⟨List.mem_cons_of_mem _ (List.mem_cons_of_mem _ hr), ?_⟩
      have hlt : r.1 < n := hd.lt r.1 (List.mem_map_of_mem hr)
      simp only [List.mem_cons, List.not_mem_nil, or_false, not_or]
      exact ⟨hlt.ne, (hlt.trans (Nat.lt_succ_self _)).ne⟩
    · intro _ _ id
      rw [hids]
      simp only [List.count_cons, List.count_nil]
      omega
    · exact fun y c hleads => hleads.of_evolves (.refl _)

/-- Begin an operation that may have to wait. -/
theorem request (ht : t < w.threads.size) (q r : Request) (k : Consumer)
    (hr : k = .host → r ≠ .collect) (hG : Hands G t (w.request t r k)) :
    Sequel G t (k.pending q) (w.thread t).vm [] w (w.request t r k) := by
  cases r with
  | collect =>
    cases k with
    | call callee outermost =>
      exact of_becomes (becomes_setControl rfl ht _) (.collects (.refl _)) rfl rfl rfl rfl rfl
    | host => exact absurd rfl (hr rfl)
  | join fs poll tagged => exact joinStart ht q fs poll tagged k hG
  | start function args => exact block ht q (.start function args k) rfl _
  | _ => exact block ht q (.reply k) rfl _

/-! ### The machine of a thread -/

/-- Carry on with a machine after an instruction or a call. -/
theorem afterSignal (ht : t < w.threads.size) (outermost : Bool) (signal : Signal)
    (hG : Hands G t (w.afterSignal t outermost vm signal)) :
    Sequel G t (.machine signal outermost) vm [] w (w.afterSignal t outermost vm signal) := by
  cases signal with
  | suspended callee q =>
    have hrest : Sequel G t (.machine (.suspended callee q) outermost)
        ((w.setVm t vm).thread t).vm [] (w.setVm t vm)
        (w.afterSignal t outermost vm (.suspended callee q)) := by
      refine request (k := .call callee outermost) ?_ q q (by simp) hG
      rwa [setVm, size_modifyThread]
    refine hrest.after (thread_setVm_self ht vm) (fun u hu => thread_modifyThread_of_ne _ hu)
      (size_modifyThread _) rfl rfl rfl rfl rfl fun y c hleads => ?_
    rwa [thread_setVm_self ht] at hleads
  | _ => exact answer ht outermost (by simp)

/-- A thread goes on with its machine after an instruction or the beginning of a call. -/
theorem resume (ht : t < w.threads.size) (outermost : Bool) (r : Vm × Store × Signal)
    (hG : Hands G t ({ (w.setVm t {}) with store := r.2.1 }.afterSignal t outermost r.1 r.2.2)) :
    Sequel G t (.machine r.2.2 outermost) r.1 [] { w with store := r.2.1 }
      ({ (w.setVm t {}) with store := r.2.1 }.afterSignal t outermost r.1 r.2.2) := by
  let w₁ : World := { (w.setVm t {}) with store := r.2.1 }
  have hrest : Sequel G t (.machine r.2.2 outermost) r.1 [] w₁
      (w₁.afterSignal t outermost r.1 r.2.2) :=
    afterSignal (w := w₁) ((size_modifyThread _).ge.trans_lt' ht) outermost r.2.2 hG
  exact hrest.after (x := {}) (thread_setVm_self ht {})
    (fun u hu => thread_modifyThread_of_ne _ hu) (size_modifyThread _) rfl rfl rfl rfl rfl
    fun _ _ => id

/-- One instruction of a thread. -/
theorem execute (ht : t < w.threads.size) (hG : Hands G t (w.execute t)) :
    let r := (w.thread t).vm.step ((w.thread t).caller t) w.store
    Sequel G t (.machine r.2.2 false) r.1 [] { w with store := r.2.1 } (w.execute t) :=
  resume ht false _ hG

/-- A thread lays out a call. -/
theorem enter (ht : t < w.threads.size) (function : Value) (args : Array Value)
    (hG : Hands G t (w.enter t function args)) :
    let r := (w.thread t).vm.enter ((w.thread t).caller t) function args w.store
    Sequel G t (.machine r.2.2 true) r.1 [] { w with store := r.2.1 } (w.enter t function args) :=
  resume ht true _ hG

/-- A thread goes on after a wait. -/
theorem continueWith (ht : t < w.threads.size) (q : Request) {k : Consumer} {after : After}
    (hafter : after.consumer? = some k) (o : Outcome)
    (hG : Hands G t (w.continueWith t after o)) :
    Sequel G t (k.pending q) (w.thread t).vm after.joined w (w.continueWith t after o) := by
  cases after with
  | reply k =>
    cases hafter
    exact deliver ht q _ (hG _ _ _ rfl)
  | start function args k =>
    cases hafter
    exact launch ht q function args _ hG
  | join j k =>
    cases hafter
    exact joinPass ht q j _ hG
  | _ => cases hafter

end Sequel

end World

end ScriptCore
