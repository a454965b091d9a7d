import ScriptCore.Proofs.Join.Passes
import ScriptCore.Proofs.Machine.Twins
import ScriptCore.Proofs.World.Seats

/-!
# Twin worlds in step

The same thread in two worlds with twin stores. Apart from its safepoints and the moments it waits
for, what it does next is the same in both: a step that has to do with a collection changes nothing
that the other world could notice, and any other step keeps the two in step.

* `Thread.Twins`, `World.Twins`: the same threads beside twin stores, whatever they do next;
* `Control.Twins`: the same next step, but for safepoints and deadlines;
* `World.InStep`: both;
* `World.silent`: the step has to do with a collection;
* `InStep.silent`, `InStep.step`: what one step does.
-/

namespace ScriptCore

/-- The same thread in two worlds. -/
structure Thread.Twins (th th' : Thread) : Prop where
  vm : th.vm = th'.vm
  name : th.name = th'.name
  storage : th.storage = th'.storage
  root : th.root = th'.root
  role : th.role = th'.role

/-- Twin stores and the same threads. -/
structure World.Twins (w w' : World) : Prop where
  store : w.store.Twins w'.store
  size : w.threads.size = w'.threads.size
  thread : ∀ t, (w.thread t).Twins (w'.thread t)

/-- The futures that a join waits for lie in its anchor. -/
def Join.Anchored (roots : List (RootId × Holder)) (j : Join) : Prop :=
  j.anchor ≠ j.results ∧ ∃ vs, (j.anchor, .pinned vs) ∈ roots ∧ ∀ f ∈ j.pending, .ref f ∈ vs

/-- An instruction comes next, after the safepoint before it. -/
def Control.interprets : Control → Bool
  | .running | .stepping | .rendezvous _ .instruction | .lingering .instruction
  | .gathering .instruction | .sweeping .instruction => true
  | _ => false

/-- How far the thread is from the next instruction. -/
def Control.distance : Control → Nat
  | .running => 4
  | .rendezvous _ _ => 3
  | .lingering _ | .gathering _ => 2
  | .sweeping _ => 1
  | _ => 0

/-- What a thread of the host does next in two worlds, if there are no other threads. -/
inductive Control.Twins (vm : Vm) (roots : List (RootId × Holder)) : Control → Control → Prop
  | idle : Twins vm roots .idle .idle
  | finished (o : Outcome) : Twins vm roots (.finished o) (.finished o)
  | enrolling : Twins vm roots .enrolling .enrolling
  | equipping : Twins vm roots .equipping .equipping
  | running : Twins vm roots .running .running
  | interpreting {c c' : Control} : vm.frames ≠ [] → c.interprets = true → c'.interprets = true →
      Twins vm roots c c'
  | sleeping (d d' callee : Nat) (outermost : Bool) :
      Twins vm roots (.blocked (.until d) (.reply (.call callee outermost)))
        (.blocked (.until d') (.reply (.call callee outermost)))
  | awaiting (f : CellId) (callee : Nat) (outermost : Bool) :
      Twins vm roots (.blocked (.resolved f) (.reply (.call callee outermost)))
        (.blocked (.resolved f) (.reply (.call callee outermost)))
  | locking (l : LockId) (phase : LockPhase) (callee : Nat) (outermost : Bool) :
      Twins vm roots (.blocked (.lock l phase) (.reply (.call callee outermost)))
        (.blocked (.lock l phase) (.reply (.call callee outermost)))
  | joining {f : CellId} {j : Join} (d d' callee : Nat) (outermost : Bool) :
      f ∈ j.pending → j.Anchored roots →
      Twins vm roots (.blocked (.resolvedBy f d) (.join j (.call callee outermost)))
        (.blocked (.resolvedBy f d') (.join j (.call callee outermost)))
  | leaving (o : Outcome) (callee : Nat) (outermost : Bool) :
      Twins vm roots (.leaving o (.reply (.call callee outermost)))
        (.leaving o (.reply (.call callee outermost)))
  | passing {j : Join} (o : Outcome) (callee : Nat) (outermost : Bool) : j.Anchored roots →
      Twins vm roots (.leaving o (.join j (.call callee outermost)))
        (.leaving o (.join j (.call callee outermost)))

/-- Twin worlds in which the thread does the same next. -/
structure World.InStep (t : ThreadId) (w w' : World) : Prop where
  twins : w.Twins w'
  control : Control.Twins (w.thread t).vm w.store.collector.roots (w.control t) (w'.control t)

theorem Control.Twins.symm {vm : Vm} {roots : List (RootId × Holder)} {c c' : Control}
    (h : Control.Twins vm roots c c') : Control.Twins vm roots c' c := by
  cases h with
  | idle => exact .idle
  | finished o => exact .finished o
  | enrolling => exact .enrolling
  | equipping => exact .equipping
  | running => exact .running
  | interpreting hframes hc hc' => exact .interpreting hframes hc' hc
  | sleeping d d' callee outermost => exact .sleeping d' d callee outermost
  | awaiting f callee outermost => exact .awaiting f callee outermost
  | locking l phase callee outermost => exact .locking l phase callee outermost
  | joining d d' callee outermost hf hj => exact .joining d' d callee outermost hf hj
  | leaving o callee outermost => exact .leaving o callee outermost
  | passing o callee outermost hj => exact .passing o callee outermost hj

/-! ### Twins -/

namespace World.Twins

variable {w w' w₁ : World} {t : ThreadId}

theorem symm (h : w.Twins w') : w'.Twins w where
  store := h.store.symm
  size := h.size.symm
  thread t := ⟨(h.thread t).vm.symm, (h.thread t).name.symm, (h.thread t).storage.symm,
    (h.thread t).root.symm, (h.thread t).role.symm⟩

theorem caller (h : w.Twins w') (t : ThreadId) :
    (w.thread t).caller t = (w'.thread t).caller t := by
  rw [Thread.caller, Thread.caller, (h.thread t).storage, (h.thread t).name]

theorem withStore (h : w.Twins w') {s s' : Store} (hs : s.Twins s') :
    World.Twins { w with store := s } { w' with store := s' } :=
  ⟨hs, h.size, h.thread⟩

theorem modifyThread (h : w.Twins w') {f f' : Thread → Thread}
    (hf : ∀ th th', th.Twins th' → (f th).Twins (f' th')) :
    (w.modifyThread t f).Twins (w'.modifyThread t f') where
  store := h.store
  size := by rw [size_modifyThread, size_modifyThread, h.size]
  thread u := by
    by_cases hu : u = t
    · subst hu
      by_cases hsize : u < w.threads.size
      · rw [thread_modifyThread_self _ hsize, thread_modifyThread_self _ (h.size ▸ hsize)]
        exact hf _ _ (h.thread u)
      · rw [modifyThread_of_size_le _ (Nat.not_lt.1 hsize),
          modifyThread_of_size_le _ (h.size ▸ Nat.not_lt.1 hsize)]
        exact h.thread u
    · rw [thread_modifyThread_of_ne _ hu, thread_modifyThread_of_ne _ hu]
      exact h.thread u

theorem setVm (h : w.Twins w') (t : ThreadId) (vm : Vm) : (w.setVm t vm).Twins (w'.setVm t vm) :=
  h.modifyThread fun _ _ hth => { hth with vm := rfl }

theorem setControl (h : w.Twins w') (t : ThreadId) (c c' : Control) :
    (w.setControl t c).Twins (w'.setControl t c') :=
  h.modifyThread fun _ _ hth => { hth with }

theorem park (h : w.Twins w') (t : ThreadId) : (w.park t).Twins (w'.park t) := by
  unfold World.park
  rw [(h.thread t).storage]
  split
  · exact h.withStore ((h.store.modifySync _).symm.modifySync _).symm
  · exact h

theorem unpark (h : w.Twins w') (t : ThreadId) : (w.unpark t).Twins (w'.unpark t) := by
  unfold World.unpark
  rw [(h.thread t).storage]
  split
  · exact h.withStore ((h.store.modifySync _).symm.modifySync _).symm
  · exact h

theorem dropRoot (h : w.Twins w') (id : RootId) : (w.dropRoot id).Twins (w'.dropRoot id) := by
  unfold World.dropRoot Collector.removeRoot
  rw [← h.store.roots]
  split
  · rename_i g hg
    split at hg <;> cases hg
    rw [if_pos ‹_›]
    exact h.withStore { h.store with roots := rfl }
  · rename_i e hg
    split at hg <;> cases hg
    rw [if_neg ‹_›]
    exact h

end World.Twins

namespace World

/-- A thread of the host. -/
structure Ours (t : ThreadId) (w : World) : Prop where
  known : t < w.threads.size
  host : (w.thread t).role = .host

variable {w w' : World} {t : ThreadId} {own own' : Ledger} {away away' : Option ThreadId}

theorem Ours.withStore (h : Ours t w) (s : Store) : Ours t { w with store := s } :=
  ⟨h.known, h.host⟩

theorem Ours.setVm (h : Ours t w) (vm : Vm) : Ours t (w.setVm t vm) :=
  ⟨(size_modifyThread _).symm ▸ h.known, (role_setVm vm t).trans h.host⟩

theorem Ours.dropRoot (h : Ours t w) (id : RootId) : Ours t (w.dropRoot id) :=
  ⟨(threads_dropRoot w id).symm ▸ h.known, (thread_dropRoot id).symm ▸ h.host⟩

namespace Twins

theorem ours (h : w.Twins w') (ht : Ours t w) : Ours t w' :=
  ⟨h.size ▸ ht.known, (h.thread t).role ▸ ht.host⟩

/-! ### What a thread does next -/

theorem inStep (h : w.Twins w') (ht : t < w.threads.size) {c c' : Control}
    (hc : Control.Twins (w.thread t).vm w.store.collector.roots c c') :
    InStep t (w.setControl t c) (w'.setControl t c') := by
  refine ⟨h.setControl t c c', ?_⟩
  rw [control, control, (becomes_setControl rfl ht c).mine,
    (becomes_setControl rfl (h.size ▸ ht) c').mine]
  exact hc

theorem block (h : w.Twins w') (ht : t < w.threads.size) {wait wait' : Wait} {k : After}
    (hc : Control.Twins (w.thread t).vm w.store.collector.roots (.blocked wait k)
      (.blocked wait' k)) : InStep t (w.block t wait k) (w'.block t wait' k) := by
  have hroots : (w.park t).store.collector.roots = w.store.collector.roots := by
    unfold World.park
    split <;> rfl
  refine (h.park t).inStep (by rwa [threads_park]) ?_
  rwa [thread_park, hroots]

theorem finish (h : w.Twins w') (ht : Ours t w) {f : Role → Control}
    (hf : ∃ o, f .host = .finished o) :
    InStep t (w.setControl t (f (w.thread t).role)) (w'.setControl t (f (w'.thread t).role)) := by
  obtain ⟨o, ho⟩ := hf
  rw [ht.host, (h.ours ht).host, ho]
  exact h.inStep ht.known (.finished o)

/-- The machine goes on or has come to an end. -/
theorem afterSignal (h : w.Twins w') (ht : Ours t w) (outermost : Bool) (vm : Vm) {signal : Signal}
    (hsignal : ∀ callee q, signal ≠ .suspended callee q) :
    InStep t (w.afterSignal t outermost vm signal) (w'.afterSignal t outermost vm signal) := by
  cases signal with
  | next =>
    simp only [World.afterSignal, proceed]
    split
    · rw [endEnter_eq, endEnter_eq]
      exact (h.setVm t vm).finish (ht.setVm vm) ⟨_, rfl⟩
    · exact (h.setVm t vm).inStep (ht.setVm vm).known .running
  | failed e =>
    obtain ⟨hvm, hstore⟩ := Vm.twins_fail h.store ((w.thread t).caller t) e vm
    have hset := (h.withStore hstore).setVm t (vm.fail ((w.thread t).caller t) e w.store).1
    simp only [World.afterSignal, proceed, ← h.caller t, ← hvm]
    split
    · rw [endEnter_eq, endEnter_eq]
      exact hset.finish ((ht.withStore _).setVm _) ⟨_, rfl⟩
    · rw [endRun_eq, endRun_eq]
      exact hset.finish ((ht.withStore _).setVm _) ⟨_, rfl⟩
  | panicked p =>
    simp only [World.afterSignal]
    rw [interrupt_eq, interrupt_eq]
    exact (h.setVm t vm).finish (f := Role.interrupted p) (ht.setVm vm) ⟨_, rfl⟩
  | suspended callee q => exact absurd rfl (hsignal callee q)

/-- A native call that waited gets its outcome. -/
theorem deliver (h : w.Twins w') (ht : Ours t w) (callee : Nat) (outermost : Bool) (o : Outcome) :
    InStep t (w.deliver t (.call callee outermost) o)
      (w'.deliver t (.call callee outermost) o) := by
  have hr := Vm.twins_receive h.store ((w.thread t).caller t) callee (w.thread t).vm o
  rw [deliver_call, deliver_call, ← h.caller t, ← (h.thread t).vm]
  simp only [← hr.machine, ← hr.signal]
  exact ((h.setVm t {}).withStore hr.store).afterSignal ((ht.setVm {}).withStore _) outermost _
    (Vm.receive_not_suspended _ _ _ _)

/-! ### Joins -/

/-- The heaps are closed, and a list of values is live in both. -/
structure Shares (w w' : World) (vs : List Value) : Prop where
  closed : w.store.heap.Closed
  closed' : w'.store.heap.Closed
  held : ∀ v ∈ vs, w.store.heap.Holds v ∧ w'.store.heap.Holds v

theorem Shares.agree {vs : List Value} (hs : Shares w w' vs) (h : w.Twins w') {v : Value}
    (hv : v ∈ vs) : w.store.heap.Agree w'.store.heap v :=
  h.store.heap.agree hs.closed hs.closed' (hs.held v hv).1 (hs.held v hv).2

/-- One pass of a join. -/
theorem joinPass (h : w.Twins w') (ht : Ours t w) {j : Join}
    (hj : j.Anchored w.store.collector.roots)
    (hpending : Shares w w' (j.pending.map .ref))
    (hresults : Shares w w' (w.store.collector.pinned j.results).toList) (callee : Nat)
    (outermost : Bool) : InStep t (w.joinPass t j (.call callee outermost))
      (w'.joinPass t j (.call callee outermost)) := by
  have hresolved : ∀ f ∈ j.pending, w'.store.heap.resolved? f = w.store.heap.resolved? f :=
    fun f hf => (hpending.agree h (List.mem_map_of_mem hf)).resolved?.symm
  have hmissing : Join.missing w'.store.heap j.pending = Join.missing w.store.heap j.pending :=
    List.filter_congr fun f hf => by rw [hresolved f hf]
  have harrived : Join.arrived w'.store.heap j.pending = Join.arrived w.store.heap j.pending :=
    List.filterMap_congr hresolved
  have hpayload : ∀ v ∈ w.store.collector.pinned j.results ++
      (Join.arrived w.store.heap j.pending).toArray,
      Join.payload w'.store.heap v = Join.payload w.store.heap v := by
    intro v hv
    rcases Array.mem_append.1 hv with hv | hv
    · exact (hresults.agree h (Array.mem_toList_iff.2 hv)).payload.symm
    · obtain ⟨f, hf, hslot⟩ := List.mem_filterMap.1 (List.mem_toArray.1 hv)
      refine Heap.Agree.payload ?_ |>.symm
      exact h.store.heap.agree hpending.closed hpending.closed'
        (hpending.closed.holds_resolved? hslot)
        (hpending.closed'.holds_resolved? ((hresolved f hf).trans hslot))
  have hmap : (w.store.collector.pinned j.results ++
      (Join.arrived w.store.heap j.pending).toArray).map (Join.payload w'.store.heap) =
      (w.store.collector.pinned j.results ++
        (Join.arrived w.store.heap j.pending).toArray).map (Join.payload w.store.heap) :=
    Array.map_congr_left hpayload
  simp only [World.joinPass, hmissing, harrived, ← h.store.pinned, hmap]
  cases hm : Join.missing w.store.heap j.pending with
  | nil => exact ((h.dropRoot _).dropRoot _).deliver ((ht.dropRoot _).dropRoot _) _ _ _
  | cons first rest =>
    obtain ⟨hne, vs, hanchor, hvs⟩ := hj
    have hsub : ∀ f ∈ first :: rest, f ∈ j.pending := fun f hf =>
      List.mem_of_mem_filter (hm ▸ hf)
    have hpinned := h.withStore (h.store.setPinned j.results
      (w.store.collector.pinned j.results ++ (Join.arrived w.store.heap j.pending).toArray))
    refine hpinned.block ht.known
      (.joining _ _ callee outermost List.mem_cons_self ⟨hne, vs, ?_, ?_⟩)
    · exact List.mem_map.2 ⟨_, hanchor, if_neg hne⟩
    · exact fun f hf => hvs f (hsub f hf)

theorem futures_congr {h h' : Heap} {vs : List Value} (hvs : ∀ v ∈ vs, h.Agree h' v) (i : Nat) :
    Join.futures h vs i = Join.futures h' vs i := by
  induction vs generalizing i with
  | nil => rfl
  | cons v vs ih =>
    have hv := hvs v List.mem_cons_self
    have hfuture : h.future? v = h'.future? v := by simp only [Heap.future?, hv.deref?]
    simp only [Join.futures, hfuture, hv.typeOf, ih fun u hu => hvs u (List.mem_cons_of_mem _ hu)]

/-- The futures of a join are anchored, and it has a root for the values. -/
def joinRoots (w : World) (fs : Array Value) : World :=
  { w with store := { w.store with
      collector := ((w.store.collector.addRoot (.pinned fs)).1.addRoot (.pinned #[])).1 } }

/-- The beginning of a join. -/
theorem joinStart (h : w.Twins w') (ht : Ours t w) {fs : Array Value}
    (hfs : Shares w w' fs.toList) (poll : Nat) (tagged : Bool) (callee : Nat) (outermost : Bool) :
    InStep t (w.joinStart t fs poll tagged (.call callee outermost))
      (w'.joinStart t fs poll tagged (.call callee outermost)) := by
  unfold World.joinStart
  rw [futures_congr fun v hv => hfs.agree h hv]
  cases hfutures : Join.futures w'.store.heap fs.toList with
  | error e => exact h.deliver ht _ _ _
  | ok pending =>
    cases pending with
    | nil => exact h.deliver ht _ _ _
    | cons first rest =>
      obtain ⟨hall, -⟩ := Join.futures_eq_ok_iff.1 hfutures
      have hroots : (joinRoots w fs).Twins (joinRoots w' fs) :=
        h.withStore ((h.store.addRoot (.pinned fs)).addRoot (.pinned #[]))
      let id := w.store.collector.nextId
      show InStep t ((joinRoots w fs).joinPass t ⟨first :: rest, id, id + 1, poll, tagged⟩ _)
        ((joinRoots w' fs).joinPass t ⟨first :: rest, w'.store.collector.nextId,
          w'.store.collector.nextId + 1, poll, tagged⟩ _)
      rw [← h.store.nextId]
      refine hroots.joinPass (ht.withStore _) ⟨(Nat.lt_succ_self id).ne, fs, ?_, ?_⟩ ?_ ?_ _ _
      · exact List.mem_cons_of_mem _ List.mem_cons_self
      · intro f hf
        rw [← Array.mem_toList_iff, hall]
        exact List.mem_map_of_mem hf
      · refine ⟨hfs.closed, hfs.closed', fun v hv => hfs.held v ?_⟩
        rw [hall]
        exact hv
      · have hnone : (joinRoots w fs).store.collector.pinned (id + 1) = #[] := by
          simp [Collector.pinned, joinRoots, Collector.addRoot, id]
        refine ⟨hfs.closed, hfs.closed', fun v hv => ?_⟩
        rw [hnone] at hv
        cases hv

/-! ### Machines -/

/-- An operation that may have to wait. -/
theorem request (h : w.Twins w') (ht : Ours t w) {q : Request} (hmild : q.mild = true)
    (hjoin : ∀ fs poll tagged, q = .join fs poll tagged → Shares w w' fs.toList) (callee : Nat)
    (outermost : Bool) : InStep t (w.request t q (.call callee outermost))
      (w'.request t q (.call callee outermost)) := by
  cases q with
  | sleep ns => exact h.block ht.known (.sleeping _ _ callee outermost)
  | await f => exact h.block ht.known (.awaiting f callee outermost)
  | lock l => exact h.block ht.known (.locking l .check callee outermost)
  | join fs poll tagged => exact h.joinStart ht (hjoin fs poll tagged rfl) poll tagged _ _
  | collect | awaitFor | start | settle => cases hmild

/-- The same machine comes to the same signal. -/
theorem resumes (h : w.Twins w') (ht : Ours t w) (outermost : Bool) {vm : Vm}
    {r r' : Vm × Store × Signal} (hr : Vm.TwinSteps r r') {me : Caller}
    (hsafe : Vm.Safe me vm w.store r) (hsafe' : Vm.Safe me vm w'.store r')
    (hshares : Shares w w' vm.stack.toList) :
    InStep t (World.afterSignal { w.setVm t {} with store := r.2.1 } t outermost r.1 r.2.2)
      (World.afterSignal { w'.setVm t {} with store := r'.2.1 } t outermost r'.1 r'.2.2) := by
  have hset := (h.setVm t {}).withStore hr.store
  have hours := (ht.setVm {}).withStore r.2.1
  have hvm : vm.Sound w.store.heap := fun v hv => (hshares.held v (Array.mem_toList_iff.2 hv)).1
  have hvm' : vm.Sound w'.store.heap := fun v hv => (hshares.held v (Array.mem_toList_iff.2 hv)).2
  rw [← hr.machine, ← hr.signal]
  cases hsignal : r.2.2 with
  | suspended callee q =>
    have hkept := hsafe.signal hshares.closed hvm callee q hsignal
    have hkept' := hsafe'.signal hshares.closed' hvm' callee q (hr.signal ▸ hsignal)
    refine (hset.setVm t r.1).request (hours.setVm r.1) (hr.mild callee q hsignal) ?_ _ _
    rintro fs poll tagged rfl
    refine ⟨?_, ?_, fun v hv => ?_⟩
    · exact hsafe.edited.closed (fun v hv => hv.holds hvm) hshares.closed
    · exact hsafe'.edited.closed (fun v hv => hv.holds hvm') hshares.closed'
    · exact ⟨hkept v (Array.mem_toList_iff.1 hv), hkept' v (Array.mem_toList_iff.1 hv)⟩
  | next | failed | panicked => exact hset.afterSignal hours outermost _ nofun

section

variable (h : w.Twins w') (ht : Ours t w) (hsound : w.Sound own away)
  (hsound' : w'.Sound own' away')

include h hsound hsound'

/-- The stack of a thread with a machine is live in both worlds. -/
theorem shares_stack (hroot : (w.thread t).root.isSome) :
    Shares w w' (w.thread t).vm.stack.toList := by
  refine ⟨hsound.closed, hsound'.closed, fun v hv => ⟨?_, ?_⟩⟩
  · exact hsound.holds_stack hroot v (Array.mem_toList_iff.1 hv)
  · refine hsound'.holds_stack ((h.thread t).root ▸ hroot) v ?_
    rw [← (h.thread t).vm]
    exact Array.mem_toList_iff.1 hv

include ht

/-- One instruction, whose code has its seat on the stack. -/
theorem execute (hequipped : (w.thread t).Equipped) (hseated : (w.thread t).vm.Seated)
    (hcallee : ∀ v f, (w.thread t).vm.callee? w.store.heap = some v →
      w.store.heap.deref? v = some (.native f) → f.oblivious = true) :
    InStep t (w.execute t) (w'.execute t) := by
  have hshares := h.shares_stack hsound hsound' hequipped.2
  have hvm : (w.thread t).vm.Sound w.store.heap := fun v hv =>
    (hshares.held v (Array.mem_toList_iff.2 hv)).1
  have hvm' : (w.thread t).vm.Sound w'.store.heap := fun v hv =>
    (hshares.held v (Array.mem_toList_iff.2 hv)).2
  have hcode : ∀ frame ∈ (w.thread t).vm.frames.head?,
      w.store.heap.Live frame.code ∧ w'.store.heap.Live frame.code := by
    intro frame hframe
    have hmem : frame ∈ (w.thread t).vm.frames := List.mem_of_mem_head? hframe
    have hseat := Array.mem_of_getElem? (hseated.seat frame hmem).2
    exact ⟨Heap.holds_ref.1 (hvm _ hseat), Heap.holds_ref.1 (hvm' _ hseat)⟩
  have hr : Vm.TwinSteps ((w.thread t).vm.step ((w.thread t).caller t) w.store)
      ((w.thread t).vm.step ((w.thread t).caller t) w'.store) :=
    Vm.twins_step h.store hsound.closed hsound'.closed hvm hvm' hcode hcallee
  have hresumes := h.resumes ht false hr (Vm.step_safe _ _ _) (Vm.step_safe _ _ _) hshares
  have hexecute : w'.execute t =
      let r := (w.thread t).vm.step ((w.thread t).caller t) w'.store
      World.afterSignal { w'.setVm t {} with store := r.2.1 } t false r.1 r.2.2 := by
    rw [h.caller t, (h.thread t).vm]
    rfl
  rw [hexecute]
  exact hresumes

/-- A call with arguments that are live in both worlds. -/
theorem enter (hequipped : (w.thread t).Equipped) {function : Value} {args : Array Value}
    (hheld : ∀ v, v = function ∨ v ∈ args → w.store.heap.Holds v ∧ w'.store.heap.Holds v)
    (hcallee : ∀ v f, (w.thread t).vm.called? function args = some v →
      w.store.heap.deref? v = some (.native f) → f.oblivious = true) :
    InStep t (w.enter t function args) (w'.enter t function args) := by
  have hshares := h.shares_stack hsound hsound' hequipped.2
  have hvm : (w.thread t).vm.Sound w.store.heap := fun v hv =>
    (hshares.held v (Array.mem_toList_iff.2 hv)).1
  have hvm' : (w.thread t).vm.Sound w'.store.heap := fun v hv =>
    (hshares.held v (Array.mem_toList_iff.2 hv)).2
  have hlaid : Shares w w' (((w.thread t).vm.push function).pushAll args).stack.toList := by
    refine ⟨hsound.closed, hsound'.closed, fun v hv => ?_⟩
    rcases Array.mem_append.1 (Array.mem_toList_iff.1 hv) with hv | hv
    · rcases Array.mem_push.1 hv with hv | rfl
      · exact hshares.held v (Array.mem_toList_iff.2 hv)
      · exact hheld v (.inl rfl)
    · exact hheld v (.inr hv)
  have hr : Vm.TwinSteps ((w.thread t).vm.enter ((w.thread t).caller t) function args w.store)
      ((w.thread t).vm.enter ((w.thread t).caller t) function args w'.store) :=
    Vm.twins_enter h.store hsound.closed hsound'.closed hvm hvm' hheld hcallee
  have hresumes := h.resumes ht true hr (Vm.enter_safe _ _ _ _ _) (Vm.enter_safe _ _ _ _ _) hlaid
  have henter : w'.enter t function args =
      let r := (w.thread t).vm.enter ((w.thread t).caller t) function args w'.store
      World.afterSignal { w'.setVm t {} with store := r.2.1 } t true r.1 r.2.2 := by
    rw [h.caller t, (h.thread t).vm]
    rfl
  rw [henter]
  exact hresumes

end

end Twins

/-! ### Steps -/

/-- The next step of the thread has to do with a collection: its safepoint has found a request, or
it takes part. -/
def silent (w : World) (t : ThreadId) : Bool :=
  match w.control t with
  | .running => !(w.thread t).vm.frames.isEmpty && w.store.collector.requested
  | .rendezvous _ _ | .lingering _ | .gathering _ | .sweeping _ => true
  | _ => false

namespace InStep

theorem symm (h : InStep t w w') : InStep t w' w where
  twins := h.twins.symm
  control := by
    rw [← (h.twins.thread t).vm, ← h.twins.store.roots]
    exact h.control.symm

/-- A collection is noticed by nobody but a thread between two instructions. -/
theorem interprets (h : InStep t w w') (hsilent : w.silent t = true) :
    (w.thread t).vm.frames ≠ [] ∧ (w.control t).interprets = true ∧
      (w'.control t).interprets = true := by
  have hcontrol := h.control
  unfold World.silent at hsilent
  generalize w.control t = c, w'.control t = c' at hcontrol hsilent ⊢
  cases hcontrol with
  | running =>
    refine ⟨fun hnil => ?_, rfl, rfl⟩
    simp [hnil] at hsilent
  | interpreting hframes hc hc' => exact ⟨hframes, hc, hc'⟩
  | _ => cases hsilent

/-- A step that has to do with a collection changes nothing that the other world could notice, and
the next instruction comes nearer. -/
theorem silent (h : InStep t w w') (ht : t < w.threads.size) (htidy : w.store.collector.Tidy)
    (hsilent : w.silent t = true) :
    InStep t (w.step t) w' ∧ ((w.step t).control t).distance < (w.control t).distance := by
  obtain ⟨hframes, hc, hc'⟩ := h.interprets hsilent
  have hstore := h.twins.store
  have hturn : ∀ (w₁ : World) (c : Control), w₁.threads = w.threads → w₁.store.Twins w'.store →
      c.interprets = true → c.distance < (w.control t).distance →
      InStep t (w₁.setControl t c) w' ∧
        ((w₁.setControl t c).control t).distance < (w.control t).distance := by
    intro w₁ c hthreads hstore₁ hinterprets hdistance
    have hbecomes := becomes_setControl hthreads ht c
    refine ⟨⟨⟨hstore₁, hbecomes.size.trans h.twins.size, fun u => ?_⟩, ?_⟩, ?_⟩
    · by_cases hu : u = t
      · subst hu
        rw [hbecomes.mine]
        exact { h.twins.thread u with }
      · rw [hbecomes.others u hu]
        exact h.twins.thread u
    · rw [World.control, hbecomes.mine]
      exact .interpreting hframes hinterprets hc'
    · rw [World.control, hbecomes.mine]
      exact hdistance
  have hpark : (w.park t).store.Twins w'.store := by
    unfold park
    split
    · exact hstore.modifySync _
    · exact hstore
  have hunpark : (w.unpark t).store.Twins w'.store := by
    unfold unpark
    split
    · exact hstore.modifySync _
    · exact hstore
  have hinstruction : ∀ k : After, (w.control t = .rendezvous false k ∨
      w.control t = .rendezvous true k ∨ w.control t = .lingering k ∨ w.control t = .gathering k ∨
      w.control t = .sweeping k) → k = .instruction := by
    rintro k (hk | hk | hk | hk | hk) <;> rw [hk] at hc <;> cases k <;> first | rfl | cases hc
  cases hcontrol : w.control t with
  | running =>
    simp only [World.silent, hcontrol, Bool.and_eq_true, Bool.not_eq_true'] at hsilent
    have hstep : w.step t = w.setControl t (.rendezvous false .instruction) := by
      simp [step, show (w.thread t).control = _ from hcontrol, hsilent.1, hsilent.2]
    rw [hstep, ← hcontrol]
    exact hturn w _ rfl hstore rfl (by rw [hcontrol]; decide)
  | rendezvous force k =>
    obtain rfl := hinstruction k (by cases force <;> simp [hcontrol])
    have hlt : ∀ n < 3, n < (w.control t).distance := fun n hn => by rw [hcontrol]; exact hn
    simp only [step, show (w.thread t).control = _ from hcontrol]
    rw [← hcontrol]
    split
    · exact hturn _ _ (threads_park w t) hpark rfl (hlt 2 (by decide))
    · split
      · exact hturn (w.modifyStore (·.clearRequest)) .stepping rfl hstore.clearRequest rfl
          (hlt 0 (by decide))
      · exact hturn _ (.gathering .instruction) rfl (hstore.clearRequest.modifySync _) rfl
          (hlt 2 (by decide))
  | lingering k =>
    obtain rfl := hinstruction k (by simp [hcontrol])
    simp only [step, show (w.thread t).control = _ from hcontrol]
    rw [← hcontrol]
    exact hturn _ .stepping (threads_unpark w t) hunpark rfl (by rw [hcontrol]; decide)
  | gathering k =>
    obtain rfl := hinstruction k (by simp [hcontrol])
    simp only [step, show (w.thread t).control = _ from hcontrol]
    rw [← hcontrol]
    exact hturn w (.sweeping .instruction) rfl hstore rfl (by rw [hcontrol]; decide)
  | sweeping k =>
    obtain rfl := hinstruction k (by simp [hcontrol])
    simp only [step, show (w.thread t).control = _ from hcontrol]
    rw [← hcontrol]
    exact hturn (w.collect.modifySync (·.dismiss)) .stepping rfl
      ((hstore.collect htidy _).modifySync _) rfl (by rw [hcontrol]; decide)
  | _ =>
    rw [World.silent, hcontrol] at hsilent
    cases hsilent

/-- An instruction comes next, and its safepoint is behind it. -/
theorem executes_of_interprets (hframes : (w.thread t).vm.frames ≠ [])
    (hc : (w.control t).interprets = true) (hsilent : w.silent t = false) :
    w.executes t = true ∧ w.step t = w.execute t ∧
      (w.control t = .running ∨ w.control t = .stepping) := by
  cases hcontrol : w.control t with
  | running =>
    have hrequested : w.store.collector.requested = false := by
      simpa [World.silent, hcontrol, hframes] using hsilent
    simp [executes, World.step, hcontrol, show (w.thread t).control = _ from hcontrol, hframes,
      hrequested]
  | stepping =>
    simp [executes, World.step, hcontrol, show (w.thread t).control = _ from hcontrol]
  | rendezvous | lingering | gathering | sweeping =>
    rw [World.silent, hcontrol] at hsilent
    cases hsilent
  | _ =>
    rw [hcontrol] at hc
    cases hc

/-- A future that a native call waits for is live in both worlds. -/
theorem shares_boundAt (h : w.Twins w') (hsound : w.Sound own away) (hsound' : w'.Sound own' away')
    (hroot : (w.thread t).root.isSome) {callee : Nat} {f : CellId}
    (hb : BoundAt w.store.heap (w.thread t).vm.stack callee f) :
    w.store.heap.Agree w'.store.heap (.ref f) := by
  obtain ⟨b, m, hmem, ho⟩ := hb
  have hshares := h.shares_stack hsound hsound' hroot
  have hagree := hshares.agree h (Array.mem_toList_iff.2 (Array.mem_of_getElem? hmem))
  have hedge : Value.ref f ∈ (Object.bound f m).edges := by simp [Object.edges]
  exact h.store.heap.agree hsound.closed hsound'.closed (hsound.closed b _ ho _ hedge)
    (hsound'.closed b _ (hagree.object? ▸ ho) _ hedge)

/-- What a join waits for is live in both worlds. -/
theorem shares_join (h : w.Twins w') (hsound : w.Sound own away) (hsound' : w'.Sound own' away')
    {j : Join} (hj : j.Anchored w.store.collector.roots) :
    Twins.Shares w w' (j.pending.map .ref) ∧
      Twins.Shares w w' (w.store.collector.pinned j.results).toList := by
  obtain ⟨-, vs, hanchor, hvs⟩ := hj
  refine ⟨⟨hsound.closed, hsound'.closed, ?_⟩, ⟨hsound.closed, hsound'.closed, fun v hv => ?_⟩⟩
  · rintro v hv
    obtain ⟨f, hf, rfl⟩ := List.mem_map.1 hv
    have hmem := Array.mem_toList_iff.2 (hvs f hf)
    have hanchor' : (j.anchor, .pinned vs) ∈ w'.store.collector.roots := h.store.roots ▸ hanchor
    exact ⟨hsound.held _ _ hanchor _ hmem, hsound'.held _ _ hanchor' _ hmem⟩
  · have hmem := Array.mem_toList_iff.1 hv
    exact ⟨hsound.holds_pinned _ v hmem, hsound'.holds_pinned _ v (h.store.pinned _ ▸ hmem)⟩

/-- A step that has nothing to do with a collection keeps the worlds in step. -/
theorem step (h : InStep t w w') (ht : Ours t w) (hsound : w.Sound own none)
    (hsound' : w'.Sound own' none) (hseated : (w.thread t).vm.Seated)
    (hready : w.ready t = true) (hsilent : w.silent t = false) (hsilent' : w'.silent t = false)
    (hcallee : w.executes t = true → ∀ v f, (w.thread t).vm.callee? w.store.heap = some v →
      w.store.heap.deref? v = some (.native f) → f.oblivious = true) :
    InStep t (w.step t) (w'.step t) := by
  have htwins := h.twins
  have hstands := hsound.stands t nofun
  have hexecute : (w.thread t).vm.frames ≠ [] → (w.control t).interprets = true →
      (w'.control t).interprets = true → InStep t (w.step t) (w'.step t) := by
    intro hframes hc hc'
    obtain ⟨hexecutes, hstep, hcontrol⟩ := executes_of_interprets hframes hc hsilent
    obtain ⟨-, hstep', -⟩ :=
      executes_of_interprets ((htwins.thread t).vm ▸ hframes) hc' hsilent'
    rw [hstep, hstep']
    refine htwins.execute ht hsound hsound' ?_ hseated (hcallee hexecutes)
    rcases hcontrol with hcontrol | hcontrol <;>
      rwa [show (w.thread t).control = _ from hcontrol] at hstands
  have hcontrol := h.control
  generalize hc : w.control t = c, hc' : w'.control t = c' at hcontrol
  have hthread : (w.thread t).control = c := hc
  have hthread' : (w'.thread t).control = c' := hc'
  have hunparked : Ours t (w.unpark t) :=
    ⟨(threads_unpark w t).symm ▸ ht.known, (thread_unpark t).symm ▸ ht.host⟩
  rw [hthread] at hstands
  cases hcontrol with
  | idle | finished =>
    rw [World.ready, hc] at hready
    cases hready
  | enrolling =>
    have hregister : (w.register t).Twins (w'.register t) := by
      refine (htwins.withStore htwins.store.enroll).modifyThread fun th th' hth => ?_
      exact { hth with storage := congrArg some htwins.store.nextId }
    have hsize := (becomes_register ht.known).size
    simp only [World.step, hthread, hthread', ht.host, (htwins.ours ht).host]
    exact hregister.inStep (hsize.symm ▸ ht.known) (.finished _)
  | equipping =>
    have hequip : (w.equip t).Twins (w'.equip t) := by
      refine (htwins.withStore (htwins.store.addRoot (.stack t))).modifyThread fun th th' hth => ?_
      exact { hth with vm := rfl, root := congrArg some htwins.store.nextId }
    have hsize := (becomes_equip ht.known).size
    simp only [World.step, hthread, hthread', ht.host, (htwins.ours ht).host]
    exact hequip.inStep (hsize.symm ▸ ht.known) (.finished _)
  | running =>
    by_cases hframes : (w.thread t).vm.frames = []
    · have hend : w.step t = w.endRun t := by simp [World.step, hthread, hframes]
      have hend' : w'.step t = w'.endRun t := by
        simp [World.step, hthread', ← (htwins.thread t).vm, hframes]
      rw [hend, hend', endRun_eq, endRun_eq]
      exact htwins.finish ht ⟨_, rfl⟩
    · exact hexecute hframes (by rw [hc]; rfl) (by rw [hc']; rfl)
  | interpreting hframes hi hi' => exact hexecute hframes (hc ▸ hi) (hc' ▸ hi')
  | sleeping d d' callee outermost =>
    simp only [World.step, hthread, hthread', passWait]
    exact htwins.inStep ht.known (.leaving _ callee outermost)
  | awaiting f callee outermost =>
    obtain ⟨hfits, hb⟩ := hstands
    have hresolved := (shares_boundAt htwins hsound hsound' hfits.2 hb).resolved?
    simp only [World.step, hthread, hthread', passWait, ← hresolved]
    cases w.store.heap.resolved? f <;>
      exact htwins.inStep ht.known (.leaving _ callee outermost)
  | locking l phase callee outermost =>
    simp only [World.step, hthread, hthread', passWait, ← htwins.store.lock l]
    obtain ⟨lock, progress⟩ := (w.store.lock l).advance t phase
    have hlock := htwins.withStore (htwins.store.setLock l lock)
    cases progress with
    | next phase => exact hlock.inStep ht.known (.locking l phase callee outermost)
    | taken | refused => exact hlock.inStep ht.known (.leaving _ callee outermost)
  | @joining f j d d' callee outermost hf hj =>
    have hresolved := ((shares_join htwins hsound hsound' hj).1.agree htwins
      (List.mem_map_of_mem hf)).resolved?
    simp only [World.step, hthread, hthread', passWait, ← hresolved]
    cases w.store.heap.resolved? f <;>
      exact htwins.inStep ht.known (.passing _ callee outermost hj)
  | leaving o callee outermost =>
    simp only [World.step, hthread, hthread']
    exact (htwins.unpark t).deliver hunparked callee outermost o
  | passing o callee outermost hj =>
    obtain ⟨hpending, hresults⟩ := shares_join htwins hsound hsound' hj
    have hroots : (w.unpark t).store.collector.roots = w.store.collector.roots := by
      unfold World.unpark
      split <;> rfl
    have hshares : ∀ {vs}, Twins.Shares w w' vs → Twins.Shares (w.unpark t) (w'.unpark t) vs :=
      fun hs => ⟨by rw [heap_unpark]; exact hs.closed, by rw [heap_unpark]; exact hs.closed',
        by rw [heap_unpark, heap_unpark]; exact hs.held⟩
    simp only [World.step, hthread, hthread']
    refine (htwins.unpark t).joinPass hunparked (hroots ▸ hj) (hshares hpending) (hshares ?_)
      callee outermost
    rw [Collector.pinned, hroots]
    exact hresults

end InStep

end World

end ScriptCore
