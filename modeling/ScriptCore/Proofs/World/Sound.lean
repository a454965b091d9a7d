import ScriptCore.Proofs.Machine.Safe
import ScriptCore.World

/-!
# The invariant of a world

No root, no stored value and no thread that waits depends on a freed cell.

* `Owner`: who may change or remove a root. The registry does not say; the invariant keeps a ledger
  of it beside the world;
* `Control.Stands`: what the next step of a thread relies on. A thread that waits for a future has
  the bound method it called on its stack, one that starts an isolate has function and arguments
  there, an isolate that has not entered its call has them in its transfer root;
* `World.Sound`: the invariant, for all threads but possibly one that is in the middle of a step;
* `Sound.edited`, `Sound.setControl`, `Sound.collect`, …: one lemma a kind of change.
-/

namespace ScriptCore

/-- Who may change or remove a root. -/
inductive Owner
  | nobody | globals | host
  | stack (thread : ThreadId)
  | transfer (thread : ThreadId)
  | join (thread : ThreadId)
  deriving DecidableEq, Repr

/-- The owner of every root name. -/
abbrev Ledger := RootId → Owner

/-- Names that have an owner keep it. -/
def Ledger.Extends (own own' : Ledger) : Prop := ∀ id, own id ≠ .nobody → own' id = own id

theorem Ledger.Extends.refl (own : Ledger) : own.Extends own := fun _ _ => rfl

theorem Ledger.Extends.trans {own own' own'' : Ledger} (h : own.Extends own')
    (h' : own'.Extends own'') : own.Extends own'' := by
  intro id hid
  have heq := h id hid
  rw [h' id (heq ▸ hid), heq]

theorem Ledger.Extends.owner {own own' : Ledger} (h : own.Extends own') {id : RootId} {o : Owner}
    (ho : own id = o) (hne : o ≠ .nobody) : own' id = o := by
  subst ho
  exact h id hne

/-- A name without an owner can be given one. -/
theorem Ledger.extends_update {own : Ledger} {n : RootId} (hn : own n = .nobody) (o : Owner) :
    own.Extends (Function.update own n o) := by
  intro id hid
  refine Function.update_of_ne (fun heq => hid ?_) _ _
  exact heq ▸ hn

/-! ### What a thread relies on -/

/-- The thread has an allocation list and its stack is a root. -/
def Thread.Equipped (th : Thread) : Prop := th.storage.isSome ∧ th.root.isSome

/-- Function and arguments of an isolate lie in its transfer root. -/
def Thread.Carries (g : Collector) (th : Thread) : Prop :=
  ∀ i, th.role = .isolate i → ∃ vs, (i.transfer, .pinned vs) ∈ g.roots ∧
    i.function ∈ vs ∧ ∀ a ∈ i.args, a ∈ vs

/-- Native calls are made by threads with a machine, tasks are given to host threads. -/
def Consumer.Fits (th : Thread) : Consumer → Prop
  | .call _ _ => th.Equipped
  | .host => th.role = .host

/-- What a thread does after a collection. -/
def After.Rejoins (th : Thread) : After → Prop
  | .instruction => th.Equipped
  | .reply k => k.Fits th
  | .pause ending => ending.isSome → th.Equipped
  | .retire => True
  | .start _ _ _ | .join _ _ => False

/-- What a thread does after a wait. -/
def After.Stands (own : Ledger) (t : ThreadId) (th : Thread) : After → Prop
  | .reply k => k.Fits th
  | .start f args k => k.Fits th ∧ th.storage.isSome ∧
      (k ≠ .host → f ∈ th.vm.stack ∧ ∀ a ∈ args, a ∈ th.vm.stack)
  | .join j k => k.Fits th ∧ own j.anchor = .join t ∧ own j.results = .join t
  | .instruction | .pause _ | .retire => False

/-- A future that a native call waits for is bound by its callee. -/
def Wait.Kept (h : Heap) (stack : Array Value) : Wait → After → Prop
  | .resolved f, .reply (.call callee _) | .resolvedBy f _, .reply (.call callee _) =>
      BoundAt h stack callee f
  | _, _ => True

/-- A value that a native call waited for is the value of the future bound by its callee. -/
def Outcome.Kept (h : Heap) (stack : Array Value) : Outcome → After → Prop
  | .value v, .reply (.call callee _) => (∀ c, v ≠ .ref c) ∨
      ∃ f, BoundAt h stack callee f ∧ h.object? f = some (.future (some v))
  | .values _, .reply (.call _ _) => False
  | _, _ => True

/-- What the next step of a thread relies on. -/
def Control.Stands (own : Ledger) (g : Collector) (t : ThreadId) (th : Thread) : Control → Prop
  | .running | .stepping | .pausing _ | .publishing _ => th.Equipped
  | .entering => th.Equipped ∧ th.Carries g
  | .enrolling => th.Carries g
  | .equipping => th.Carries g ∧ (th.role ≠ .host → th.storage.isSome)
  | .littering _ => th.storage.isSome
  | .rendezvous _ k | .lingering k | .gathering k | .sweeping k => k.Rejoins th
  | .blocked wait k | .waiting wait k => k.Stands own t th ∧ wait.Kept g.heap th.vm.stack k
  | .leaving outcome k => k.Stands own t th ∧ outcome.Kept g.heap th.vm.stack k
  | _ => True

/-- What a step of another thread leaves alone. -/
structure Undisturbed (own own' : Ledger) (g g' : Collector) (th : Thread) : Prop where
  ledger : own.Extends own'
  transfer : ∀ i, th.role = .isolate i → ∀ vs, (i.transfer, .pinned vs) ∈ g.roots →
    (i.transfer, .pinned vs) ∈ g'.roots
  objects : th.root.isSome → ∀ c o, o.Settled → g.heap.object? c = some o →
    g.heap.Reaches th.vm.stack.toList c → g'.heap.object? c = some o

namespace Undisturbed

variable {own own' : Ledger} {g g' : Collector} {th : Thread} {t : ThreadId}

theorem carries (h : Undisturbed own own' g g' th) (hc : th.Carries g) : th.Carries g' := by
  intro i hi
  obtain ⟨vs, hvs, hf, hargs⟩ := hc i hi
  exact ⟨vs, h.transfer i hi vs hvs, hf, hargs⟩

theorem reaches_boundAt {callee : Nat} {f : CellId} (hb : BoundAt g.heap th.vm.stack callee f) :
    g.heap.Reaches th.vm.stack.toList f := by
  obtain ⟨b, m, hget, ho⟩ := hb
  refine .step (.start (Array.mem_toList_iff.2 (Array.mem_of_getElem? hget))) ⟨_, ho, ?_⟩
  simp [Object.edges]

theorem boundAt (h : Undisturbed own own' g g' th) (hroot : th.root.isSome) {callee : Nat}
    {f : CellId} (hb : BoundAt g.heap th.vm.stack callee f) :
    BoundAt g'.heap th.vm.stack callee f := by
  obtain ⟨b, m, hget, ho⟩ := hb
  refine ⟨b, m, hget, h.objects hroot b _ (Object.settled_bound f m) ho ?_⟩
  exact .start (Array.mem_toList_iff.2 (Array.mem_of_getElem? hget))

theorem after (h : Undisturbed own own' g g' th) {k : After} (hk : k.Stands own t th) :
    k.Stands own' t th := by
  cases k with
  | join j k =>
    obtain ⟨hfits, hanchor, hresults⟩ := hk
    exact ⟨hfits, h.ledger.owner hanchor (by simp), h.ledger.owner hresults (by simp)⟩
  | _ => exact hk

theorem wait (h : Undisturbed own own' g g' th) {wait : Wait} {k : After}
    (hk : k.Stands own t th) (hw : wait.Kept g.heap th.vm.stack k) :
    wait.Kept g'.heap th.vm.stack k := by
  unfold Wait.Kept at hw ⊢
  split at hw
  · exact h.boundAt hk.2 hw
  · exact h.boundAt hk.2 hw
  · trivial

theorem outcome (h : Undisturbed own own' g g' th) {outcome : Outcome} {k : After}
    (hk : k.Stands own t th) (ho : outcome.Kept g.heap th.vm.stack k) :
    outcome.Kept g'.heap th.vm.stack k := by
  unfold Outcome.Kept at ho ⊢
  split at ho
  · rcases ho with himm | ⟨f, hb, hf⟩
    · exact .inl himm
    · refine .inr ⟨f, h.boundAt hk.2 hb, ?_⟩
      exact h.objects hk.2 f _ (Object.settled_future _) hf (reaches_boundAt hb)
  · exact ho
  · trivial

/-- A thread that is not disturbed can go on. -/
theorem stands (h : Undisturbed own own' g g' th) {c : Control} (hc : c.Stands own g t th) :
    c.Stands own' g' t th := by
  cases c with
  | entering => exact ⟨hc.1, h.carries hc.2⟩
  | enrolling => exact h.carries hc
  | equipping => exact ⟨h.carries hc.1, hc.2⟩
  | blocked wait k => exact ⟨h.after hc.1, h.wait hc.1 hc.2⟩
  | waiting wait k => exact ⟨h.after hc.1, h.wait hc.1 hc.2⟩
  | leaving outcome k => exact ⟨h.after hc.1, h.outcome hc.1 hc.2⟩
  | _ => exact hc

end Undisturbed

namespace World

/-- The invariant. The thread that is away is in the middle of a step. -/
structure Sound (own : Ledger) (away : Option ThreadId) (w : World) : Prop where
  tidy : w.store.collector.Tidy
  closed : w.store.heap.Closed
  /-- Roots hold live values. -/
  held : ∀ id holder, (id, holder) ∈ w.store.collector.roots →
    ∀ v ∈ w.heldBy holder, w.store.heap.Holds v
  fresh : ∀ id, w.store.collector.nextId ≤ id → own id = .nobody
  globals : (1, .globals) ∈ w.store.collector.roots ∧ own 1 = .globals
  storage : ∀ t s, (w.thread t).storage = some s → s ∈ w.store.collector.storages.map (·.id)
  storage_inj : ∀ t u s, (w.thread t).storage = some s → (w.thread u).storage = some s → t = u
  root : ∀ t r, (w.thread t).root = some r →
    (r, .stack t) ∈ w.store.collector.roots ∧ own r = .stack t
  transfer : ∀ t i, (w.thread t).role = .isolate i → own i.transfer = .transfer t
  stands : ∀ t, away ≠ some t → (w.thread t).control.Stands own w.store.collector t (w.thread t)

variable {own own' : Ledger} {away : Option ThreadId} {w : World} {t u : ThreadId}

theorem mem_rootValues {v : Value} :
    v ∈ w.rootValues ↔
      ∃ id holder, (id, holder) ∈ w.store.collector.roots ∧ v ∈ w.heldBy holder := by
  simp only [rootValues, List.mem_flatMap, Prod.exists]

theorem thread_modifyThread_of_ne (f : Thread → Thread) (hu : u ≠ t) :
    (w.modifyThread t f).thread u = w.thread u := by
  simp only [thread, modifyThread, Array.getD_eq_getD_getElem?, Array.getElem?_modify, hu.symm,
    ↓reduceIte]

theorem thread_modifyThread_self (f : Thread → Thread) (ht : t < w.threads.size) :
    (w.modifyThread t f).thread t = f (w.thread t) := by
  simp [thread, modifyThread, Array.getD_eq_getD_getElem?, Array.getElem_modify, ht]

theorem modifyThread_of_size_le (f : Thread → Thread) (ht : w.threads.size ≤ t) :
    w.modifyThread t f = w := by
  have hsame : w.threads.modify t f = w.threads := by
    apply Array.ext_getElem?
    intro i
    rw [Array.getElem?_modify]
    split
    · rename_i hi
      subst hi
      simp [ht]
    · rfl
  rw [modifyThread, hsame]

theorem thread_of_size_le (ht : w.threads.size ≤ t) : w.thread t = {} := by
  simp [thread, Array.getD_eq_getD_getElem?, ht]

@[simp] theorem store_modifyThread (f : Thread → Thread) :
    (w.modifyThread t f).store = w.store := rfl

@[simp] theorem size_modifyThread (f : Thread → Thread) :
    (w.modifyThread t f).threads.size = w.threads.size := by
  simp [modifyThread]

namespace Sound

/-- The values of roots are live. -/
theorem holds_rootValues (h : w.Sound own away) : ∀ v ∈ w.rootValues, w.store.heap.Holds v := by
  intro v hv
  obtain ⟨id, holder, hmem, hv⟩ := mem_rootValues.1 hv
  exact h.held id holder hmem v hv

theorem holds_global (h : w.Sound own away) : ∀ p ∈ w.store.globals, w.store.heap.Holds p.2 :=
  fun _ hp => h.held 1 .globals h.globals.1 _ (List.mem_map_of_mem hp)

theorem holds_stack (h : w.Sound own away) (hroot : (w.thread t).root.isSome) :
    (w.thread t).vm.Sound w.store.heap := by
  obtain ⟨r, hr⟩ := Option.isSome_iff_exists.1 hroot
  exact fun v hv => h.held r (.stack t) (h.root t r hr).1 v (Array.mem_toList_iff.2 hv)

theorem mem_storages (h : w.Sound own away) (hs : (w.thread t).storage.isSome) :
    ((w.thread t).caller t).storage ∈ w.store.collector.storages.map (·.id) := by
  obtain ⟨s, hs⟩ := Option.isSome_iff_exists.1 hs
  have hcaller : ((w.thread t).caller t).storage = s := by simp [Thread.caller, hs]
  exact hcaller ▸ h.storage t s hs

/-- Take a thread out of its control. -/
theorem go (h : w.Sound own none) (t : ThreadId) : w.Sound own (some t) :=
  { h with stands := fun u _ => h.stands u (by simp) }

/-- A thread that can go on is back. -/
theorem back (h : w.Sound own (some t))
    (ht : (w.thread t).control.Stands own w.store.collector t (w.thread t)) : w.Sound own none := by
  refine { h with stands := fun u _ => ?_ }
  by_cases hu : u = t
  · exact hu ▸ ht
  · exact h.stands u (by simpa using Ne.symm hu)

/-! ### Changes of the thread that is away -/

/-- A change of the thread's machine, allocation list and root. -/
theorem modifyThread (h : w.Sound own (some t)) (f : Thread → Thread)
    (hvm : ∀ id, (id, .stack t) ∈ w.store.collector.roots → (f (w.thread t)).vm.Sound w.store.heap)
    (hstorage : ∀ s, (f (w.thread t)).storage = some s →
      s ∈ w.store.collector.storages.map (·.id) ∧ ∀ u, u ≠ t → (w.thread u).storage ≠ some s)
    (hroot : ∀ r, (f (w.thread t)).root = some r →
      (r, .stack t) ∈ w.store.collector.roots ∧ own r = .stack t)
    (hrole : (f (w.thread t)).role = (w.thread t).role) :
    (w.modifyThread t f).Sound own (some t) := by
  by_cases ht : w.threads.size ≤ t
  · rw [modifyThread_of_size_le f ht]
    exact h
  have ht : t < w.threads.size := Nat.not_le.1 ht
  have hself := thread_modifyThread_self f ht
  have hother : ∀ u, u ≠ t → (w.modifyThread t f).thread u = w.thread u := fun u hu =>
    thread_modifyThread_of_ne f hu
  refine ⟨h.tidy, h.closed, ?_, h.fresh, h.globals, ?_, ?_, ?_, ?_, ?_⟩
  · intro id holder hmem v hv
    cases holder with
    | stack u =>
      by_cases hu : u = t
      · subst hu
        simp only [heldBy, hself, Array.mem_toList_iff] at hv
        exact hvm id hmem v hv
      · simp only [heldBy, hother u hu] at hv
        exact h.held id (.stack u) hmem v hv
    | globals => exact h.held id .globals hmem v hv
    | pinned vs => exact h.held id (.pinned vs) hmem v hv
  · intro u s hs
    by_cases hu : u = t
    · subst hu
      rw [hself] at hs
      exact (hstorage s hs).1
    · rw [hother u hu] at hs
      exact h.storage u s hs
  · intro u u' s hs hs'
    by_cases hu : u = t <;> by_cases hu' : u' = t
    · rw [hu, hu']
    · rw [hu, hself] at hs
      rw [hother u' hu'] at hs'
      exact absurd hs' ((hstorage s hs).2 u' hu')
    · rw [hu', hself] at hs'
      rw [hother u hu] at hs
      exact absurd hs ((hstorage s hs').2 u hu)
    · rw [hother u hu] at hs
      rw [hother u' hu'] at hs'
      exact h.storage_inj u u' s hs hs'
  · intro u r hr
    by_cases hu : u = t
    · subst hu
      rw [hself] at hr
      exact hroot r hr
    · rw [hother u hu] at hr
      exact h.root u r hr
  · intro u i hi
    by_cases hu : u = t
    · subst hu
      rw [hself, hrole] at hi
      exact h.transfer u i hi
    · rw [hother u hu] at hi
      exact h.transfer u i hi
  · intro u hu
    have hne : u ≠ t := fun heq => hu (congrArg some heq.symm)
    rw [hother u hne]
    exact h.stands u hu

/-- Facts about the storage that a thread has already. -/
theorem storage_own (h : w.Sound own away) {s : StorageId} (hs : (w.thread t).storage = some s) :
    s ∈ w.store.collector.storages.map (·.id) ∧ ∀ u, u ≠ t → (w.thread u).storage ≠ some s :=
  ⟨h.storage t s hs, fun u hu hus => hu (h.storage_inj u t s hus hs)⟩

theorem setVm (h : w.Sound own (some t)) {vm : Vm} (hvm : vm.Sound w.store.heap) :
    (w.setVm t vm).Sound own (some t) :=
  h.modifyThread _ (fun _ _ => hvm) (fun _ hs => h.storage_own hs) (h.root t) rfl

/-- The thread goes on with a control whose needs are met. -/
theorem setControl (h : w.Sound own (some t)) {c : Control}
    (hc : c.Stands own w.store.collector t (w.thread t)) : (w.setControl t c).Sound own none := by
  have hmod : (w.setControl t c).Sound own (some t) :=
    h.modifyThread _ (fun id hmem v hv => h.held id _ hmem v (Array.mem_toList_iff.2 hv))
      (fun _ hs => h.storage_own hs) (h.root t) rfl
  refine hmod.back ?_
  by_cases ht : w.threads.size ≤ t
  · rw [World.setControl, modifyThread_of_size_le _ ht, thread_of_size_le ht]
    trivial
  · rw [World.setControl, thread_modifyThread_self _ (Nat.not_le.1 ht)]
    cases c <;> exact hc

/-! ### Changes of the store -/

/-- A change of the store that disturbs no other thread. -/
theorem setStore (h : w.Sound own away) {s : Store} (htidy : s.collector.Tidy)
    (hclosed : s.heap.Closed)
    (hheld : ∀ id holder, (id, holder) ∈ s.collector.roots →
      ∀ v ∈ heldBy { w with store := s } holder, s.heap.Holds v)
    (hfresh : ∀ id, s.collector.nextId ≤ id → own' id = .nobody)
    (hglobals : (1, .globals) ∈ s.collector.roots)
    (hstorages : ∀ t id, (w.thread t).storage = some id → id ∈ s.collector.storages.map (·.id))
    (hroots : ∀ t r, (w.thread t).root = some r → (r, .stack t) ∈ s.collector.roots)
    (hledger : own.Extends own')
    (hother : ∀ t, away ≠ some t →
      Undisturbed own own' w.store.collector s.collector (w.thread t)) :
    Sound own' away { w with store := s } where
  tidy := htidy
  closed := hclosed
  held := hheld
  fresh := hfresh
  globals := ⟨hglobals, hledger.owner h.globals.2 (by simp)⟩
  storage := hstorages
  storage_inj := h.storage_inj
  root t r hr := ⟨hroots t r hr, hledger.owner (h.root t r hr).2 (by simp)⟩
  transfer t i hi := hledger.owner (h.transfer t i hi) (by simp)
  stands t ht := (hother t ht).stands (h.stands t ht)

/-- Work of a thread disturbs nobody. -/
theorem edited (h : w.Sound own away) {storage : StorageId} {s : Store}
    (he : Store.Edited storage w.store.heap.Holds w.store s)
    (hs : s.heap.size = w.store.heap.size ∨ storage ∈ w.store.collector.storages.map (·.id)) :
    Sound own away { w with store := s } := by
  refine h.setStore (he.tidy h.tidy hs) (he.closed (fun _ hv => hv) h.closed) ?_ ?_ ?_ ?_ ?_
    (.refl own) ?_
  · intro id holder hmem v hv
    rw [he.roots] at hmem
    refine he.evolves.holds (h.held id holder hmem v ?_)
    cases holder with
    | globals => simpa only [heldBy, he.globals] using hv
    | stack t => exact hv
    | pinned vs => exact hv
  · rw [he.nextId]
    exact h.fresh
  · rw [he.roots]
    exact h.globals.1
  · intro t id hid
    rw [he.storages]
    exact h.storage t id hid
  · intro t r hr
    rw [he.roots]
    exact (h.root t r hr).1
  · intro t _
    refine ⟨.refl own, fun i _ vs hvs => he.roots ▸ hvs, fun _ c o ho hc _ => ?_⟩
    exact he.evolves.settled ho hc

/-- Work of a thread on the list of its own. -/
theorem work (h : w.Sound own away) {s : Store} (hs : (w.thread t).storage.isSome)
    (he : Store.Edited ((w.thread t).caller t).storage w.store.heap.Holds w.store s) :
    Sound own away { w with store := s } :=
  h.edited he (.inr (h.mem_storages hs))

/-- Work without an allocation needs no list. -/
theorem rewrite (h : w.Sound own away) {s : Store}
    (he : Store.Edited 0 w.store.heap.Holds w.store s) (hs : s.heap.size = w.store.heap.size) :
    Sound own away { w with store := s } :=
  h.edited he (.inl hs)

/-- Counters, locks and the clock play no part. -/
theorem neutral (h : w.Sound own away) {s : Store} (hc : s.collector = w.store.collector)
    (hg : s.globals = w.store.globals) : Sound own away { w with store := s } := by
  refine h.rewrite (.of_collector_eq hc hg) ?_
  rw [Store.heap, Store.heap, hc]

theorem modifySync (h : w.Sound own away) (f : Rendezvous → Rendezvous) :
    (w.modifySync f).Sound own away :=
  h.rewrite (Store.edited_modifySync w.store f) rfl

theorem park (h : w.Sound own away) (t : ThreadId) : (w.park t).Sound own away := by
  unfold World.park
  split
  · exact h.modifySync _
  · exact h

theorem unpark (h : w.Sound own away) (t : ThreadId) : (w.unpark t).Sound own away := by
  unfold World.unpark
  split
  · exact h.modifySync _
  · exact h

/-! ### Changes of the registry of roots -/

/-- A new root with live values and its owner. -/
theorem addRoot (h : w.Sound own away) (holder : Holder) (o : Owner)
    (hholder : ∀ v ∈ w.heldBy holder, w.store.heap.Holds v) :
    Sound (Function.update own w.store.collector.nextId o) away
      { w with store := { w.store with collector := (w.store.collector.addRoot holder).1 } } := by
  have hledger := Ledger.extends_update (h.fresh w.store.collector.nextId le_rfl) o
  refine h.setStore (h.tidy.addRoot holder) h.closed ?_ ?_ ?_ h.storage ?_ hledger ?_
  · intro id holder' hmem v hv
    rcases List.mem_cons.1 hmem with heq | hmem
    · cases heq
      exact hholder v hv
    · exact h.held id holder' hmem v hv
  · intro id hid
    have hlt : w.store.collector.nextId < id := hid
    rw [Function.update_of_ne hlt.ne']
    exact h.fresh id hlt.le
  · exact List.mem_cons_of_mem _ h.globals.1
  · exact fun t r hr => List.mem_cons_of_mem _ (h.root t r hr).1
  · intro t _
    exact ⟨hledger, fun i _ vs hvs => List.mem_cons_of_mem _ hvs, fun _ c o _ hc _ => hc⟩

/-- A root that no thread relies on can be removed. -/
theorem dropRoot (h : w.Sound own away) {id : RootId} (hglobals : id ≠ 1)
    (hroot : ∀ t, (w.thread t).root ≠ some id)
    (htransfer : ∀ t i, away ≠ some t → (w.thread t).role = .isolate i → i.transfer ≠ id) :
    (w.dropRoot id).Sound own away := by
  unfold World.dropRoot
  split
  · rename_i g hg
    have hroots : g.roots = w.store.collector.roots.filter (·.1 != id) ∧
        g.heap = w.store.collector.heap ∧ g.storages = w.store.collector.storages ∧
        g.nextId = w.store.collector.nextId := by
      unfold Collector.removeRoot at hg
      split at hg <;> cases hg
      exact ⟨rfl, rfl, rfl, rfl⟩
    obtain ⟨hroots, hheap, hstorages, hnext⟩ := hroots
    have hkeep : ∀ r holder, r ≠ id → (r, holder) ∈ w.store.collector.roots →
        (r, holder) ∈ g.roots := by
      intro r holder hne hmem
      rw [hroots]
      exact List.mem_filter.2 ⟨hmem, by simpa using hne⟩
    refine h.setStore (h.tidy.removeRoot hg) ?_ ?_ ?_ ?_ ?_ ?_ (.refl own) ?_
    · show g.heap.Closed
      rw [hheap]
      exact h.closed
    · intro r holder hmem v hv
      show g.heap.Holds v
      rw [hroots] at hmem
      rw [hheap]
      exact h.held r holder (List.mem_filter.1 hmem).1 v hv
    · rw [hnext]
      exact h.fresh
    · exact hkeep 1 _ hglobals.symm h.globals.1
    · rw [hstorages]
      exact h.storage
    · intro t r hr
      exact hkeep r _ (fun heq => hroot t (heq ▸ hr)) (h.root t r hr).1
    · intro t ht
      refine ⟨.refl own, fun i hi vs hvs => hkeep _ _ (htransfer t i ht hi) hvs, ?_⟩
      intro _ c o _ hc _
      rw [hheap]
      exact hc
  · exact h

/-- Roots of joins and of the host can be removed at any time, the transfer root of an isolate by
the isolate itself. -/
theorem dropRoot_of_owner (h : w.Sound own away) {id : RootId}
    (ho : own id = .host ∨ (∃ t, own id = .join t) ∨ ∃ t, away = some t ∧ own id = .transfer t) :
    (w.dropRoot id).Sound own away := by
  refine h.dropRoot ?_ ?_ ?_
  · rintro rfl
    rcases ho with ho | ⟨t, ho⟩ | ⟨t, -, ho⟩ <;> simp [h.globals.2] at ho
  · intro u hu
    rcases ho with ho | ⟨t, ho⟩ | ⟨t, -, ho⟩ <;> simp [(h.root u id hu).2] at ho
  · rintro u i hu hi rfl
    rcases ho with ho | ⟨t, ho⟩ | ⟨t, haway, ho⟩
    · simp [h.transfer u i hi] at ho
    · simp [h.transfer u i hi] at ho
    · rw [h.transfer u i hi] at ho
      cases ho
      exact hu haway

/-- The values of a root of a join or of the host can be replaced by live ones. -/
theorem setPinned (h : w.Sound own away) {id : RootId} {vs : Array Value}
    (ho : own id = .host ∨ ∃ t, own id = .join t) (hvs : ∀ v ∈ vs, w.store.heap.Holds v) :
    Sound own away
      { w with store := { w.store with collector := w.store.collector.setPinned id vs } } := by
  -- the ledger tells the replaced root from those that threads rely on
  have hkeep : ∀ r holder, own r ≠ own id → (r, holder) ∈ w.store.collector.roots →
      (r, holder) ∈ (w.store.collector.setPinned id vs).roots := by
    intro r holder hne hmem
    refine List.mem_map.2 ⟨(r, holder), hmem, if_neg ?_⟩
    rintro rfl
    exact hne rfl
  refine h.setStore (h.tidy.setPinned id vs) h.closed ?_ h.fresh ?_ h.storage ?_ (.refl own) ?_
  · intro r holder hmem v hv
    obtain ⟨⟨r', holder'⟩, hmem', heq⟩ := List.mem_map.1 hmem
    split at heq
    · cases heq
      exact hvs v (by simpa [heldBy] using hv)
    · cases heq
      exact h.held r holder hmem' v hv
  · refine hkeep 1 _ ?_ h.globals.1
    rw [h.globals.2]
    rcases ho with ho | ⟨t, ho⟩ <;> simp [ho]
  · intro u r hr
    refine hkeep r _ ?_ (h.root u r hr).1
    rw [(h.root u r hr).2]
    rcases ho with ho | ⟨t, ho⟩ <;> simp [ho]
  · intro u _
    refine ⟨.refl own, fun i hi vs' hvs' => hkeep _ _ ?_ hvs', fun _ c o _ hc _ => hc⟩
    rw [h.transfer u i hi]
    rcases ho with ho | ⟨t, ho⟩ <;> simp [ho]

/-- What a root holds is live, whatever root it is. -/
theorem holds_pinned (h : w.Sound own away) (id : RootId) :
    ∀ v ∈ w.store.collector.pinned id, w.store.heap.Holds v := by
  intro v hv
  unfold Collector.pinned at hv
  split at hv
  · rename_i r vs hfind
    exact h.held r (.pinned vs) (List.mem_of_find?_eq_some hfind) v (Array.mem_toList_iff.2 hv)
  · simp at hv

/-! ### Collections -/

/-- What a rooted stack reaches, the registry reaches. -/
theorem reaches_rootValues (h : w.Sound own away) (hroot : (w.thread t).root.isSome) {c : CellId}
    (hc : w.store.heap.Reaches (w.thread t).vm.stack.toList c) :
    w.store.heap.Reaches (w.store.collector.starts w.rootValues) c := by
  obtain ⟨r, hr⟩ := Option.isSome_iff_exists.1 hroot
  induction hc with
  | start hc =>
    refine .start (List.mem_append_left _ (mem_rootValues.2 ⟨r, .stack t, (h.root t r hr).1, hc⟩))
  | step _ hp ih => exact .step ih hp

theorem collect (h : w.Sound own away) : w.collect.Sound own away := by
  have hroots := h.holds_rootValues
  refine h.setStore (h.tidy.collect _) (h.tidy.closed_collect h.closed hroots) ?_ h.fresh
    h.globals.1 ?_ (fun t r hr => (h.root t r hr).1) (.refl own) ?_
  · intro id holder hmem v hv
    refine h.tidy.holds_collect_of_reaches h.closed hroots fun d hd => ?_
    refine .start (List.mem_append_left _ (mem_rootValues.2 ⟨id, holder, hmem, hd ▸ ?_⟩))
    cases holder <;> exact hv
  · intro t s hs
    rw [Collector.Tidy.ids_collect]
    exact h.storage t s hs
  -- a suspended call relies on objects its stack reaches, and the stack is a root
  · intro t _
    refine ⟨.refl own, fun i _ vs hvs => hvs, fun hroot c o _ ho hc => ?_⟩
    have hreach := h.reaches_rootValues hroot hc
    exact (h.tidy.object?_collect_of_reaches h.closed hroots hreach).trans ho

end Sound

end World

end ScriptCore
