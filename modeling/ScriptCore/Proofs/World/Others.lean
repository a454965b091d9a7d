import ScriptCore.Proofs.World.Sequel

/-!
# What a step of one thread does to the others

A thread changes nobody's machine and nobody's control but its own. What all threads share changes
all the time, but no cell is used twice, and only a collection that sweeps frees any.

* `World.Minds`: what other threads can rely on while no collection sweeps;
* `World.Passes`: what they can rely on in any case;
* `World.Minds.step`, `World.Passes.step`: whole steps respect that.
-/

namespace ScriptCore

theorem Collector.retire_of_mem {g : Collector} {id : StorageId}
    (hid : id ∈ g.storages.map (·.id)) : ∃ g', g.retire id = .ok g' := by
  obtain ⟨st, hst, rfl⟩ := List.mem_map.1 hid
  unfold Collector.retire
  cases hfind : g.storages.find? (·.id == st.id) with
  | some st' => exact ⟨_, rfl⟩
  | none => exact absurd hst (fun hmem => by simpa using List.find?_eq_none.1 hfind st hmem)

namespace World

/-- What a step of one thread does to the others: they stay as they are, at most one isolate is
new, and no object is freed. -/
structure Minds (t : ThreadId) (w w' : World) : Prop where
  evolves : w.store.heap.Evolves w'.store.heap
  others : ∀ u, u ≠ t → u < w.threads.size → w'.thread u = w.thread u
  born : Bears w w'

/-- The same when objects may be freed. -/
structure Passes (t : ThreadId) (w w' : World) : Prop where
  lasts : w.store.heap.Lasts w'.store.heap
  others : ∀ u, u ≠ t → u < w.threads.size → w'.thread u = w.thread u
  born : Bears w w'

theorem Minds.passes {t : ThreadId} {w w' : World} (h : Minds t w w') : Passes t w w' :=
  ⟨.of_evolves h.evolves, h.others, h.born⟩

theorem Bears.size_le {w w' : World} (h : Bears w w') : w.threads.size ≤ w'.threads.size := by
  rcases h with h | ⟨h, -⟩ <;> omega

/-- A thread that is beyond the old ones is an isolate that is about to register. -/
theorem Bears.newborn {w w' : World} (h : Bears w w') {u : ThreadId} (hu : w.threads.size ≤ u) :
    w'.thread u = {} ∨ u = w.threads.size ∧ Newborn (w'.thread u) w' := by
  by_cases hlt : w'.threads.size ≤ u
  · exact .inl (thread_of_size_le hlt)
  · rcases h with h | ⟨h, hnew⟩
    · exact absurd (h ▸ hu) hlt
    · rw [h, Nat.not_le] at hlt
      obtain rfl : w.threads.size = u := Nat.le_antisymm hu (Nat.le_of_lt_succ hlt)
      exact .inr ⟨rfl, hnew⟩

/-! ### The end of an isolate -/

/-- What an isolate publishes: store, machine, tag and payload. -/
def verdict (w : World) (t : ThreadId) : Ending → Store × Vm × Bool × Value
  | .returned => (w.store, (w.thread t).vm.dropTop, (w.thread t).vm.error,
      (w.thread t).vm.peek?.getD .nil)
  | .panicked p =>
      let cause := Cause.isolatePanicked (p.message?.getD "unknown panic")
      let (s, c) := w.store.make ((w.thread t).caller t).storage (.error cause.failure)
      (s, (w.thread t).vm, true, .ref c)

/-- The result of an isolate is made. -/
def tagged (w : World) (t : ThreadId) (ending : Ending) : Store × CellId :=
  let (s, _, isError, payload) := w.verdict t ending
  s.make ((w.thread t).caller t).storage (.result isError payload)

/-- The result of an isolate is in its future, or the future had a value. -/
def published (w : World) (t : ThreadId) (i : Isolate) (ending : Ending) : Store :=
  let (s, r) := w.tagged t ending
  match s.heap.resolve i.future (.ref r) with
  | .ok h => s.withHeap h
  | .error _ => s

theorem publish_eq (w : World) (t : ThreadId) (i : Isolate) (ending : Ending) :
    w.publish t i ending = ({ w with store := w.published t i ending }.setVm t
      (w.verdict t ending).2.1).setControl t .resuming := by
  cases ending <;> rfl

theorem becomes_publish {w : World} {t : ThreadId} (ht : t < w.threads.size) (i : Isolate)
    (ending : Ending) :
    Becomes t { w.thread t with vm := (w.verdict t ending).2.1, control := .resuming } w
      (w.publish t i ending) := by
  rw [publish_eq]
  exact becomes_setVm (by rfl) ht _ _

theorem evolves_tagged (w : World) (t : ThreadId) (ending : Ending) :
    w.store.heap.Evolves (w.tagged t ending).1.heap := by
  have hmake : ∀ (s : Store) (o : Object),
      s.heap.Evolves (s.make ((w.thread t).caller t).storage o).1.heap :=
    fun _ _ => Heap.evolves_alloc _ _
  cases ending with
  | returned => exact hmake _ _
  | panicked p => exact (hmake _ _).trans (hmake _ _)

theorem evolves_published (w : World) (t : ThreadId) (i : Isolate) (ending : Ending) :
    w.store.heap.Evolves (w.published t i ending).heap :=
  (evolves_tagged w t ending).trans (Store.evolves_resolve _ _ _)

/-- Publishing leaves the bookkeeping of threads and roots alone. -/
theorem published_same (w : World) (t : ThreadId) (i : Isolate) (ending : Ending) :
    let s := w.published t i ending
    s.collector.sync = w.sync ∧ s.collector.roots = w.store.collector.roots ∧
      s.collector.storages.map (·.id) = w.storageIds ∧ s.live = w.store.live := by
  have htagged : let s := (w.tagged t ending).1
      s.collector.sync = w.sync ∧ s.collector.roots = w.store.collector.roots ∧
        s.collector.storages.map (·.id) = w.storageIds ∧ s.live = w.store.live := by
    cases ending with
    | returned => exact ⟨rfl, rfl, Collector.Tidy.ids_make _ _ _, rfl⟩
    | panicked p =>
      exact ⟨rfl, rfl, (Collector.Tidy.ids_make _ _ _).trans (Collector.Tidy.ids_make _ _ _), rfl⟩
  unfold published
  simp only
  split <;> exact htagged

/-- A thread that leaves has no allocation list, or the list is taken out, or that fails. -/
theorem leave_eq (w : World) (t : ThreadId) :
    ((w.thread t).storage = none ∧ w.leave t = w.setControl t .unrooting) ∨
    (∃ id g, (w.thread t).storage = some id ∧ w.store.collector.retire id = .ok g ∧
      w.leave t = ({ w with store := { w.store with collector := g } }.modifyThread t fun th =>
        { th with storage := none }).setControl t .unrooting) ∨
    ∃ id p, (w.thread t).storage = some id ∧ w.store.collector.retire id = .error p ∧
      w.leave t = w.setControl t ((w.thread t).role.interrupted p) := by
  unfold World.leave World.unregister
  cases hstorage : (w.thread t).storage with
  | none => exact .inl ⟨rfl, rfl⟩
  | some id =>
    cases hg : w.store.collector.retire id with
    | ok g => exact .inr (.inl ⟨id, g, rfl, hg, by simp only [hg, Except.map]⟩)
    | error p =>
      refine .inr (.inr ⟨id, p, rfl, hg, ?_⟩)
      simp only [hg, Except.map]
      exact interrupt_eq w t p

/-- A thread leaves the collector unless its allocation list is not there. -/
theorem leave_cases {w : World} {t : ThreadId} (ht : t < w.threads.size) :
    Becomes t { w.thread t with storage := none, control := .unrooting } w (w.leave t) ∨
    ∃ id p, (w.thread t).storage = some id ∧ w.store.collector.retire id = .error p ∧
      w.leave t = w.setControl t ((w.thread t).role.interrupted p) := by
  rcases w.leave_eq t with ⟨hstorage, heq⟩ | ⟨id, g, -, -, heq⟩ | ⟨id, p, hstorage, hg, heq⟩ <;>
    rw [heq]
  · have hset := becomes_setControl (w := w) rfl ht .unrooting
    exact .inl ⟨by rw [hset.mine, ← hstorage], hset.others, hset.size⟩
  · exact .inl ((becomes_modifyThread (by rfl) ht fun th =>
      { th with storage := none }).setControl ht .unrooting)
  · exact .inr ⟨id, p, hstorage, hg, rfl⟩

/-- A registered thread can leave. -/
theorem becomes_leave {w : World} {own : Ledger} {away : Option ThreadId} {t : ThreadId}
    (h : w.Sound own away) (ht : t < w.threads.size) :
    Becomes t { w.thread t with storage := none, control := .unrooting } w (w.leave t) := by
  rcases leave_cases ht with hleave | ⟨id, p, hstorage, hretire, -⟩
  · exact hleave
  · obtain ⟨g, hg⟩ := Collector.retire_of_mem (h.storage t id hstorage)
    rw [hg] at hretire
    cases hretire

/-- Leaving the collector leaves heap and registry of roots alone. -/
theorem leave_same (w : World) (t : ThreadId) :
    (w.leave t).store.collector.roots = w.store.collector.roots ∧
    (w.leave t).store.live = w.store.live ∧ (w.leave t).store.heap = w.store.heap := by
  rcases w.leave_eq t with ⟨-, heq⟩ | ⟨id, g, -, hg, heq⟩ | ⟨id, p, -, -, heq⟩ <;> rw [heq]
  · exact ⟨rfl, rfl, rfl⟩
  · obtain ⟨st, -, -, rfl⟩ := Collector.Tidy.retire_cases hg
    exact ⟨rfl, rfl, rfl⟩
  · exact ⟨rfl, rfl, rfl⟩

/-- The stack of a thread is taken out of the roots. -/
def uproot (w : World) (t : ThreadId) : World :=
  match (w.thread t).root with
  | some id => (w.dropRoot id).modifyThread t fun th => { th with root := none }
  | none => w

/-- Where a thread goes when its stack is no root any more. -/
def farewell : Role → Control
  | .host => .finished .done
  | .isolate _ => .gone

/-- The isolates that are live when a thread has left. -/
def remaining (w : World) : Role → Nat
  | .host => w.store.live
  | .isolate _ => w.store.live - 1

theorem unroot_eq (w : World) (t : ThreadId) : w.unroot t =
    ((w.uproot t).modifyStore fun s =>
      { s with live := (w.uproot t).remaining (w.thread t).role }).setControl t
        (farewell (w.thread t).role) := by
  unfold World.unroot
  simp only
  split <;> rename_i hrole <;> rw [hrole] <;> rfl

theorem becomes_uproot {w : World} {t : ThreadId} (ht : t < w.threads.size) :
    Becomes t { w.thread t with root := none } w (w.uproot t) := by
  unfold uproot
  split
  · exact becomes_modifyThread (threads_dropRoot w _) ht fun th => { th with root := none }
  · rename_i hroot
    exact ⟨by rw [← hroot], fun _ _ => rfl, rfl⟩

/-- Taking a stack out of the roots changes nothing else. -/
theorem uproot_same (w : World) (t : ThreadId) : (w.uproot t).sync = w.sync ∧
    (w.uproot t).storageIds = w.storageIds ∧ (w.uproot t).store.live = w.store.live := by
  unfold uproot
  split
  · obtain ⟨hsync, hstorages, hlive, -⟩ := dropRoot_same w _
    exact ⟨hsync, hstorages, hlive⟩
  · exact ⟨rfl, rfl, rfl⟩

theorem becomes_unroot {w : World} {t : ThreadId} (ht : t < w.threads.size) :
    Becomes t { w.thread t with root := none, control := farewell (w.thread t).role } w
      (w.unroot t) := by
  have hbecomes := becomes_uproot ht
  have hshared : Becomes t { w.thread t with root := none } w ((w.uproot t).modifyStore fun s =>
      { s with live := (w.uproot t).remaining (w.thread t).role }) :=
    ⟨hbecomes.mine, hbecomes.others, hbecomes.size⟩
  rw [unroot_eq]
  exact hshared.setControl ht _

namespace Minds

variable {G : Outcome → Store → Prop} {t : ThreadId} {w w₁ w' : World}

theorem refl (w : World) : Minds t w w := ⟨.refl _, fun _ _ _ => rfl, .inl rfl⟩

/-- A change of the store before. -/
theorem before (h : Minds t w₁ w') (hthreads : w₁.threads = w.threads)
    (hevolves : w.store.heap.Evolves w₁.store.heap) : Minds t w w' where
  evolves := hevolves.trans h.evolves
  others u hu hlt := by
    have hthread : w₁.thread u = w.thread u := by rw [thread, thread, hthreads]
    rw [h.others u hu (hthreads ▸ hlt), hthread]
  born := by
    have hborn := h.born
    rwa [Bears, hthreads] at hborn

theorem of_sequel {p : Pending} {vm : Vm} {held : List RootId}
    (h : Sequel G t p vm held w w') : Minds t w w' := by
  obtain ⟨vm', c, -, hleads⟩ := h.mine
  exact ⟨hleads.evolves, h.others, h.born⟩

theorem of_becomes {th : Thread} (h : Becomes t th w w')
    (hevolves : w.store.heap.Evolves w'.store.heap) : Minds t w w' :=
  ⟨hevolves, fun u hu _ => h.others u hu, .inl h.size⟩

/-- A change of the thread after a change of the store. -/
theorem modifyThread (hthreads : w₁.threads = w.threads)
    (hevolves : w.store.heap.Evolves w₁.store.heap) (f : Thread → Thread) :
    Minds t w (w₁.modifyThread t f) where
  evolves := hevolves
  others u hu _ := by rw [thread_modifyThread_of_ne f hu, thread, thread, hthreads]
  born := .inl (by rw [size_modifyThread, hthreads])

theorem setControl (w : World) (t : ThreadId) (c : Control) : Minds t w (w.setControl t c) :=
  modifyThread rfl (.refl _) _

/-- The thread steps on after a change of its own. -/
theorem trans (h : Minds t w w₁) (h' : Minds t w₁ w') (hsize : w₁.threads.size = w.threads.size) :
    Minds t w w' where
  evolves := h.evolves.trans h'.evolves
  others u hu hlt := (h'.others u hu (hsize ▸ hlt)).trans (h.others u hu hlt)
  born := by
    have hborn := h'.born
    rwa [Bears, hsize] at hborn

theorem execute (ht : t < w.threads.size) : Minds t w (w.execute t) :=
  (of_sequel (Sequel.execute (G := fun _ _ => True) ht fun _ _ _ _ => trivial)).before rfl
    (Vm.step_safe _ _ _).edited.evolves

theorem enter (ht : t < w.threads.size) (function : Value) (args : Array Value) :
    Minds t w (w.enter t function args) :=
  (of_sequel (Sequel.enter (G := fun _ _ => True) ht function args fun _ _ _ _ => trivial)).before
    rfl (Vm.enter_safe _ _ _ _ _).edited.evolves

theorem pause (w : World) (t : ThreadId) (ending : Option Ending) :
    Minds t w (w.pause t ending) := by
  refine modifyThread ?_ ?_ _
  · rfl
  · exact .refl _

/-- A change of the thread's registration. -/
theorem register (w : World) (t : ThreadId) (c : Control) :
    Minds t w ((w.register t).setControl t c) := by
  refine (modifyThread ?_ ?_ _ : Minds t w (w.register t)).trans (setControl _ _ _)
    (size_modifyThread _)
  · rfl
  · exact .refl _

theorem equip (w : World) (t : ThreadId) (c : Control) :
    Minds t w ((w.equip t).setControl t c) := by
  refine (modifyThread ?_ ?_ _ : Minds t w (w.equip t)).trans (setControl _ _ _)
    (size_modifyThread _)
  · rfl
  · exact .refl _

theorem leave (ht : t < w.threads.size) : Minds t w (w.leave t) := by
  rcases leave_cases ht with hbecomes | ⟨id, p, -, -, heq⟩
  · refine of_becomes hbecomes ?_
    rw [(leave_same w t).2.2]
    exact .refl _
  · rw [heq]
    exact setControl _ _ _

theorem unroot (ht : t < w.threads.size) : Minds t w (w.unroot t) := by
  refine of_becomes (becomes_unroot ht) ?_
  rw [unroot_eq]
  show w.store.heap.Evolves (w.uproot t).store.heap
  unfold uproot
  cases (w.thread t).root with
  | none => exact .refl _
  | some id => exact heap_dropRoot id ▸ .refl _

theorem publish (ht : t < w.threads.size) (i : Isolate) (ending : Ending) :
    Minds t w (w.publish t i ending) := by
  refine of_becomes (becomes_publish ht i ending) ?_
  rw [publish_eq]
  exact evolves_published w t i ending

theorem continueWith (ht : t < w.threads.size) (k : After) (o : Outcome) :
    Minds t w (w.continueWith t k o) := by
  have hsequel : ∀ c, k.consumer? = some c → Minds t w (w.continueWith t k o) := fun c hc =>
    of_sequel (Sequel.continueWith (G := fun _ _ => True) ht .collect hc o fun _ _ _ _ => trivial)
  cases k with
  | instruction => exact setControl _ _ _
  | pause ending => exact pause _ _ _
  | retire => exact leave ht
  | reply consumer => exact hsequel _ rfl
  | start function args consumer => exact hsequel _ rfl
  | join j consumer => exact hsequel _ rfl

/-- A step that does not sweep. -/
theorem step (hc : ∀ k, w.control t ≠ .sweeping k) : Minds t w (w.step t) := by
  by_cases ht : t < w.threads.size
  swap
  · have hidle : (w.thread t).control = .idle := by rw [thread_of_size_le (Nat.not_lt.1 ht)]
    unfold World.step
    simp only [hidle]
    exact refl w
  have hpark : ∀ c, Minds t w ((w.park t).setControl t c) := fun c =>
    modifyThread (threads_park w t) (heap_park ▸ .refl _) _
  have hunpark : ∀ k o, Minds t w ((w.unpark t).continueWith t k o) := fun k o =>
    (continueWith (by rwa [threads_unpark]) k o).before (threads_unpark w t) (heap_unpark ▸ .refl _)
  have hstore : ∀ (s : Store) k o, w.store.heap.Evolves s.heap →
      Minds t w (World.continueWith { w with store := s } t k o) := fun s k o hevolves =>
    (continueWith (w := { w with store := s }) ht k o).before rfl hevolves
  have hpass : ∀ wait, (w.passWait t wait).1.threads = w.threads ∧
      w.store.heap.Evolves (w.passWait t wait).1.store.heap := fun wait => by
    refine ⟨threads_passWait w t wait, ?_⟩
    rw [Store.heap, Store.heap, collector_passWait]
    exact .refl _
  unfold World.step
  simp only
  unfold control at hc
  generalize (w.thread t).control = c at hc
  cases c with
  | idle | finished _ | gone => exact refl w
  | running =>
    simp only
    split
    · rw [endRun_eq]
      exact setControl _ _ _
    split
    · exact setControl _ _ _
    · exact execute ht
  | stepping => exact execute ht
  | rendezvous force k =>
    simp only
    split
    · exact hpark _
    · split
      · exact hstore w.store.clearRequest _ _ (.refl _)
      · exact (setControl _ _ _).before rfl (.refl _)
  | lingering k => exact hunpark _ _
  | gathering k => exact setControl _ _ _
  | sweeping k => exact absurd rfl (hc k)
  | blocked wait k =>
    obtain ⟨hthreads, hevolves⟩ := hpass wait
    rcases hp : w.passWait t wait with ⟨w', wait' | outcome⟩ <;> rw [hp] at hthreads hevolves <;>
      simp only [hp] <;> exact (setControl _ _ _).before hthreads hevolves
  | waiting wait k =>
    obtain ⟨hthreads, hevolves⟩ := hpass wait
    rcases hp : w.passWait t wait with ⟨w', wait' | outcome⟩ <;> rw [hp] at hthreads hevolves <;>
      simp only [hp]
    · exact (setControl _ _ _).before hthreads hevolves
    · exact (continueWith (hthreads ▸ ht) k outcome).before hthreads hevolves
  | leaving outcome k => exact hunpark _ _
  | enrolling => exact register _ _ _
  | equipping => exact equip _ _ _
  | entering =>
    simp only
    split
    · exact setControl _ _ _
    · exact enter ht _ _
  | pausing ending =>
    simp only
    split
    · exact hpark _
    · exact pause _ _ _
  | publishing ending =>
    simp only
    split
    · exact setControl _ _ _
    · exact publish ht _ _
  | resuming => exact (setControl _ _ _).before rfl (.refl _)
  | releasing =>
    simp only
    split
    · exact setControl _ _ _
    · exact (setControl _ _ _).before (threads_dropRoot w _) (heap_dropRoot _ ▸ .refl _)
  | retiring =>
    simp only
    split
    · exact hpark _
    · exact leave ht
  | unrooting => exact unroot ht
  | littering n =>
    cases n with
    | zero => exact setControl _ _ _
    | succ n =>
      refine (setControl _ _ _).before ?_ (Heap.evolves_alloc _ _)
      rfl
  | resolving agenda =>
    simp only
    split
    · exact setControl _ _ _
    · rename_i d f v rest
      have hresolve := Store.evolves_resolve w.store f v
      cases hr : w.store.heap.resolve f v <;> simp only [hr] at hresolve ⊢
      · exact setControl _ _ _
      · exact (setControl _ _ _).before rfl hresolve

end Minds

/-- A step of one thread leaves all others as they are. -/
theorem Passes.step (w : World) (t : ThreadId) : Passes t w (w.step t) := by
  by_cases hc : ∃ k, w.control t = .sweeping k
  · obtain ⟨k, hk⟩ := hc
    have ht : t < w.threads.size := lt_size_of_control (by simp [hk])
    let w₁ := w.collect.modifySync (·.dismiss)
    have hstep : w.step t = w₁.continueWith t k (.value (.bool true)) := by
      unfold World.step
      simp only [show (w.thread t).control = _ from hk, w₁]
    have hrest := Minds.continueWith (w := w₁) ht k (.value (.bool true))
    rw [hstep]
    exact ⟨(Collector.lasts_collect _ _).trans (.of_evolves hrest.evolves), hrest.others,
      hrest.born⟩
  · exact (Minds.step fun k hk => hc ⟨k, hk⟩).passes

end World

end ScriptCore
