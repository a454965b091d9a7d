import ScriptCore.Proofs.Collector.Accounts
import ScriptCore.Proofs.World.Chronicle

/-!
# A world works through the operations of its collector

Whatever threads and their host do, the collector changes by its operations only, one after the
other.  So the books of a collector are right in every state of every run.

* `Collector.Operates`: operations lead from one collector to the other; `Collector.Works`: so do
  operations that neither sweep nor set a future;
* `Collector.Unlisted`: a mortal cell that is on no list stays so, which is how one knows that a
  thread without a list has not allocated;
* `Act.sets?`: the future an act sets;
* `Vm.works_step`, `World.works_step`, `Act.works`: machines, threads and the host do nothing but
  plain work, apart from sweeps and the futures they set;
* `allocations_accounted`: the books are right after any history of operations, and every run has
  such a history, which passes through all of its states.
-/

namespace ScriptCore

/-- A sweep leaves the cells alone that it does not list. -/
theorem Heap.get?_sweep_of_notMem {cells : List CellId} {c : CellId} (hc : c ∉ cells) (h : Heap) :
    (cells.foldl Heap.sweepCell h).get? c = h.get? c := by
  induction cells generalizing h with
  | nil => rfl
  | cons a cells ih =>
    obtain ⟨hne, hc⟩ := not_or.1 (mt List.mem_cons.2 hc)
    rw [List.foldl_cons, ih hc, Heap.get?_sweepCell, if_neg (Ne.symm hne)]

namespace Collector

variable {g g' g'' : Collector} {s : StorageId} {c : CellId} {o : Object}

/-- Operations lead from one collector to the other. -/
def Operates : Collector → Collector → Prop :=
  Relation.ReflTransGen fun g g' => ∃ op : Operation, op.apply g = g'

theorem Operates.refl (g : Collector) : g.Operates g := Relation.ReflTransGen.refl

theorem Operates.trans (h : g.Operates g') (h' : g'.Operates g'') : g.Operates g'' :=
  Relation.ReflTransGen.trans h h'

theorem operates (op : Operation) (g : Collector) : g.Operates (op.apply g) :=
  .single ⟨op, rfl⟩

/-- An operation that gives no cell back and writes into no future. -/
def Operation.Plain (g : Collector) : Operation → Prop
  | .collect _ => False
  | .write c _ => ∀ slot, g.heap.object? c ≠ some (.future slot)
  | _ => True

/-- Plain operations lead from one collector to the other. -/
def Works : Collector → Collector → Prop :=
  Relation.ReflTransGen fun g g' => ∃ op : Operation, op.Plain g ∧ op.apply g = g'

theorem Works.refl (g : Collector) : g.Works g := Relation.ReflTransGen.refl

theorem Works.trans (h : g.Works g') (h' : g'.Works g'') : g.Works g'' :=
  Relation.ReflTransGen.trans h h'

theorem works (op : Operation) (hop : op.Plain g) : g.Works (op.apply g) := .single ⟨op, hop, rfl⟩

theorem Works.operates (h : g.Works g') : g.Operates g' := by
  induction h with
  | refl => exact .refl g
  | tail _ hop ih =>
    obtain ⟨op, -, rfl⟩ := hop
    exact ih.trans (Collector.operates op _)

/-! ### Cells on no list -/

/-- A mortal cell that is on no list. -/
def Unlisted (g : Collector) (c : CellId) : Prop := g.heap.Mortal c ∧ c ∉ g.mortals

theorem Listed.not_unlisted (hg : g.Listed) : ¬ g.Unlisted c :=
  fun hc => hc.2 ((hg.mem_mortals c).2 hc.1)

/-- An allocation lists no cell but the new one. -/
theorem mem_mortals_make (hc : c ∈ (g.make s o).1.mortals) : c = g.heap.size ∨ c ∈ g.mortals := by
  rcases List.mem_append.1 hc with hc | hc
  · obtain ⟨st', hst', hc⟩ := List.mem_flatMap.1 hc
    obtain ⟨st, hst, rfl⟩ := List.mem_map.1 hst'
    split at hc
    · exact (List.mem_cons.1 hc).imp_right (mem_mortals_of_storage hst)
    · exact .inr (mem_mortals_of_storage hst hc)
  · exact .inr (mem_mortals_of_orphan hc)

/-- A list that is left behind brings no new cell. -/
theorem mem_mortals_retire (hr : g.retire s = .ok g') (hc : c ∈ g'.mortals) : c ∈ g.mortals := by
  obtain ⟨st, hst, -, rfl⟩ := Tidy.retire_cases hr
  rcases List.mem_append.1 hc with hc | hc
  · obtain ⟨st', hst', hc⟩ := List.mem_flatMap.1 hc
    exact mem_mortals_of_storage (List.mem_filter.1 hst').1 hc
  · rcases List.mem_append.1 hc with hc | hc
    · exact mem_mortals_of_storage hst hc
    · exact mem_mortals_of_orphan hc

/-- No operation puts a cell on a list later than at its allocation. -/
theorem Operation.unlisted (op : Operation) (hc : g.Unlisted c) : (op.apply g).Unlisted c := by
  obtain ⟨hmortal, hmem⟩ := hc
  have hne : c ≠ g.heap.size := (Heap.lt_size_of_live hmortal.live).ne
  cases op with
  | make s o =>
    exact ⟨(Heap.mortal_alloc rfl).2 (.inr hmortal), fun h => (mem_mortals_make h).elim hne hmem⟩
  | makeImmortal o => exact ⟨(Heap.mortal_alloc_immortal rfl).2 hmortal, hmem⟩
  | collect roots =>
    refine ⟨?_, fun h => hmem ?_⟩
    · obtain ⟨cell, hcell, himm⟩ := hmortal
      show (g.collect roots).heap.Mortal c
      rw [Heap.Mortal, collect_heap, Heap.get?_sweep_of_notMem hmem, Heap.get?_trace, hcell]
      exact ⟨_, rfl, himm⟩
    · rw [apply, Tidy.mortals_collect] at h
      exact List.mem_of_mem_filter h
  | retire s =>
    rcases retire_cases g s with h | h
    · refine ⟨?_, fun hc => hmem (mem_mortals_retire h hc)⟩
      obtain ⟨st, -, -, heq⟩ := Tidy.retire_cases h
      rw [heq]
      exact hmortal
    · rw [h]
      exact ⟨hmortal, hmem⟩
  | write d o => exact ⟨Heap.mortal_setObject.2 hmortal, hmem⟩
  | removeRoot id =>
    rcases removeRoot_cases g id with h | h <;> rw [apply, h] <;> exact ⟨hmortal, hmem⟩
  | _ => exact ⟨hmortal, hmem⟩

theorem Operates.unlisted (h : g.Operates g') (hc : g.Unlisted c) : g'.Unlisted c := by
  induction h with
  | refl => exact hc
  | tail _ hop ih =>
    obtain ⟨op, rfl⟩ := hop
    exact op.unlisted ih

/-- A thread without a list would leave a cell on no list. -/
theorem unlisted_make (hg : g.Listed) (hs : s ∉ g.storages.map (·.id)) :
    (g.make s o).1.Unlisted g.heap.size := by
  refine ⟨(Heap.mortal_alloc rfl).2 (.inl rfl), fun hmem => ?_⟩
  have hsame : (g.make s o).1.mortals = g.mortals :=
    congrArg (fun sts : List Storage => sts.flatMap (·.cells) ++ g.orphans)
      (Storage.map_insert_of_notMem hs)
  rw [hsame, hg.mem_mortals] at hmem
  exact (Heap.lt_size_of_live hmem.live).ne rfl

/-- A history goes on with operations that leave the lists in order. -/
theorem History.operates {past : List (Collector × Operation)} (hpast : History past g)
    (h : g.Operates g') (hg' : g'.Listed) : ∃ later, History (later ++ past) g' := by
  induction h using Relation.ReflTransGen.head_induction_on generalizing past with
  | refl => exact ⟨[], hpast⟩
  | @head g g₁ hop hrest ih =>
    obtain ⟨op, rfl⟩ := hop
    have hvalid : op.Valid g := by
      cases op with
      | make s o =>
        by_contra hs
        have hlost := Operates.unlisted hrest (unlisted_make hpast.tidy.listed hs)
        exact hg'.not_unlisted hlost
      | _ => trivial
    obtain ⟨later, hlater⟩ := ih (hpast.op hvalid)
    exact ⟨later ++ [(g, op)], by simpa using hlater⟩

end Collector

/-! ### Machines -/

namespace Store

variable {s s' s'' : Store} {storage : StorageId} {c : CellId} {v : Value}

/-- Operations lead from the collector of one store to that of the other. -/
def Operates (s s' : Store) : Prop := s.collector.Operates s'.collector

theorem Operates.refl (s : Store) : s.Operates s := Collector.Operates.refl _

theorem Operates.trans (h : s.Operates s') (h' : s'.Operates s'') : s.Operates s'' :=
  Collector.Operates.trans h h'

/-- Set a future; the first value stays. -/
def set (s : Store) (f : CellId) (v : Value) : Store :=
  match s.heap.resolve f v with
  | .ok h => s.withHeap h
  | .error _ => s

theorem operates_set (s : Store) (f : CellId) (v : Value) : s.Operates (s.set f v) := by
  unfold set
  split
  · rename_i hr
    rcases Heap.resolve_cases hr with rfl | ⟨-, rfl⟩
    · exact .refl s
    · exact Collector.operates (.write f _) _
  · exact .refl s

/-- Plain operations lead from the collector of one store to that of the other. -/
def Works (s s' : Store) : Prop := s.collector.Works s'.collector

theorem Works.refl (s : Store) : s.Works s := Collector.Works.refl _

theorem Works.trans (h : s.Works s') (h' : s'.Works s'') : s.Works s'' :=
  Collector.Works.trans h h'

theorem Works.operates (h : s.Works s') : s.Operates s' := Collector.Works.operates h

theorem works_make (storage : StorageId) (o : Object) : s.Works (s.make storage o).1 :=
  Collector.works (.make storage o) trivial

theorem works_makeImmortal (o : Object) : s.Works (s.makeImmortal o).1 :=
  Collector.works (.makeImmortal o) trivial

/-- Only objects of library types have attributes that can be written. -/
theorem works_attributeChange {receiver : Value} {name : String} {o : Object}
    (hc : s.heap.attributeChange receiver name v = .ok (c, o)) :
    s.Works (s.modifyHeap (·.setObject c o)) := by
  refine Collector.works (.write c o) fun slot hslot => ?_
  unfold Heap.attributeChange at hc
  split at hc
  · split at hc
    · rename_i ho
      cases hc
      rw [show s.heap.object? c = _ from hslot] at ho
      cases ho
    · cases hc
  · cases hc

theorem works_pushItem (c : CellId) (v : Value) : s.Works (s.modifyHeap (·.pushItem c v)) := by
  by_cases hlist : ∃ items, s.heap.object? c = some (.list items)
  · obtain ⟨items, ho⟩ := hlist
    rw [modifyHeap_eq, Heap.pushItem_eq ho]
    refine Collector.works (.write c _) fun slot hslot => ?_
    rw [show s.heap.object? c = _ from hslot] at ho
    cases ho
  · rw [modifyHeap_eq, Heap.pushItem_eq_self fun items ho => hlist ⟨items, ho⟩]
    exact .refl s

theorem works_modifySync (f : Rendezvous → Rendezvous) : s.Works (s.modifySync f) :=
  Collector.works (.meet (f s.collector.sync)) trivial

theorem works_publish (s : Store) (fs : List Native) : s.Works (s.publish fs) := by
  induction fs generalizing s with
  | nil => exact .refl s
  | cons f fs ih =>
    have hmake : s.Works ((s.makeImmortal (.native f)).1.setGlobal f.name
        (.ref (s.makeImmortal (.native f)).2)) := works_makeImmortal (.native f)
    exact hmake.trans (ih _)

end Store

section machine

variable {me : Caller} {s : Store}

open Store

theorem Native.works_run (f : Native) (args : Array Value) :
    s.Works (f.run me args s).1 := by
  unfold Native.run
  cases f with
  | startIsolate | waitUntilCompleted | sleep | sleepMs =>
    simp only [Native.request]
    split <;> exact .refl s
  | setAllocLimit =>
    simp only
    split
    · unfold setLimit
      split
      · exact .refl s
      · exact Collector.works (.setLimit _) trivial
    · exact .refl s
  | count | boomString =>
    simp only
    split <;> exact .refl s
  | list | echo | shadowList | threadName | counter | cell | plain => exact works_make _ _
  | mutex => exact Collector.works (.make me.storage _) trivial
  | _ => exact .refl s

theorem Native.works_call (f : Native) (args : Array Value) :
    s.Works (f.call me args s).1 := by
  unfold Native.call
  split
  · exact works_run f args
  · exact .refl s

theorem Method.works_increment (c : CellId) : s.Works (Method.increment c s).1 := by
  unfold Method.increment
  split
  · split
    · split
      · rename_i hc
        exact works_attributeChange hc
      · exact .refl s
    · exact .refl s
  · exact .refl s

theorem Method.works_run (m : Method) (c : CellId) (args : Array Value) :
    s.Works (m.run me c args s).1 := by
  unfold Method.run
  split
  · exact works_increment c
  · exact .refl s
  · split
    · exact works_pushItem _ _
    · exact .refl s
  · split <;> exact .refl s
  · exact works_make _ _
  · exact works_make _ _
  · exact .refl s
  · split <;> exact .refl s
  · exact .refl s
  · exact .refl s
  · split <;> exact .refl s
  · exact .refl s

theorem Method.works_call (m : Method) (c : CellId) (args : Array Value) :
    s.Works (m.call me c args s).1 := by
  unfold Method.call
  split
  · exact works_run m c args
  · exact .refl s

namespace Vm

variable {vm : Vm}

theorem works_arith (op : Arith) (l r : Value) : s.Works (arith me op l r s).1 := by
  unfold arith
  simp only
  split
  · exact .refl s
  · split
    · exact .refl s
    · split
      · exact works_make _ _
      · exact .refl s

theorem works_invoke (argc : UInt64) : s.Works (vm.invoke me argc s).2.1 := by
  unfold invoke
  split
  · exact .refl s
  split
  · exact .refl s
  simp only
  split
  · split <;> exact .refl s
  · rw [store_answer]
    exact Native.works_call _ _
  · rw [store_answer]
    exact Method.works_call _ _ _
  · exact .refl s

theorem works_exec (code : Code) (base : Nat) (instr : Instr) :
    s.Works (vm.exec me code base instr s).2.1 := by
  cases instr with
  | const i =>
    rw [exec, store_pushOr]
    exact .refl s
  | arith op =>
    simp only [exec]
    split
    · exact .refl s
    · split
      · exact .refl s
      · rw [store_pushOr]
        exact works_arith _ _ _
  | call argc => exact works_invoke argc
  | ret =>
    rw [exec, store_ret]
    exact .refl s
  | setAttr i =>
    simp only [exec]
    split
    · exact .refl s
    · split
      · exact .refl s
      · split
        · exact .refl s
        · split
          · rename_i hc
            exact works_attributeChange hc
          · exact .refl s
  | getAttr i =>
    simp only [exec]
    split
    · exact .refl s
    · split
      · exact .refl s
      · split
        · exact .refl s
        · exact works_make _ _
        · exact .refl s
  | arg i | «global» i =>
    simp only [exec]
    split
    · exact .refl s
    · split <;> exact .refl s
  | pop | raise =>
    simp only [exec]
    split <;> exact .refl s

theorem works_step (me : Caller) (vm : Vm) (s : Store) : s.Works (vm.step me s).2.1 := by
  unfold step
  split
  · exact .refl s
  · split
    · split
      · exact works_exec _ _ _
      · rw [store_ret]
        exact .refl s
    · exact .refl s

theorem works_receive (me : Caller) (callee : Nat) (vm : Vm) (s : Store) (o : Outcome) :
    s.Works (vm.receive me callee s o).2.1 := by
  cases o with
  | values vs => exact works_make _ _
  | _ => exact .refl s

end Vm

end machine

/-! ### Threads -/

namespace World

/-- The future a thread sets in its next step, with the store it does so in and the value. -/
def sets? (w : World) (t : ThreadId) : Option (Store × CellId × Value) :=
  match (w.thread t).control, (w.thread t).role with
  | .resolving ((_, f, v) :: _), _ => some (w.store, f, v)
  | .publishing ending, .isolate i =>
      some ((w.tagged t ending).1, i.future, .ref (w.tagged t ending).2)
  | _, _ => none

variable (w : World) (t : ThreadId)

open Store (works_make works_modifySync)

theorem works_dropRoot (id : RootId) : w.store.Works (w.dropRoot id).store := by
  have hone : w.store.collector.Works ((Collector.Operation.removeRoot id).apply _) :=
    Collector.works _ trivial
  simp only [Collector.Operation.apply] at hone
  unfold dropRoot
  split
  · rename_i g hg
    rw [hg] at hone
    exact hone
  · exact .refl _

theorem works_park : w.store.Works (w.park t).store := by
  unfold park
  split
  · exact works_modifySync _
  · exact .refl _

theorem works_unpark : w.store.Works (w.unpark t).store := by
  unfold unpark
  split
  · exact works_modifySync _
  · exact .refl _

theorem works_afterSignal (outermost : Bool) (vm : Vm) {signal : Signal}
    (hsignal : ∀ callee q, signal ≠ .suspended callee q) :
    w.store.Works (w.afterSignal t outermost vm signal).store := by
  cases signal with
  | next =>
    simp only [afterSignal, proceed]
    split
    · rw [endEnter_eq]
      exact .refl _
    · exact .refl _
  | failed e =>
    simp only [afterSignal, proceed]
    split
    · rw [endEnter_eq]
      exact works_make _ _
    · rw [endRun_eq]
      exact works_make _ _
  | panicked q =>
    simp only [afterSignal]
    rw [interrupt_eq]
    exact .refl _
  | suspended callee q => exact absurd rfl (hsignal callee q)

theorem works_deliver (k : Consumer) (o : Outcome) :
    w.store.Works (w.deliver t k o).store := by
  cases k with
  | host => exact .refl _
  | call callee outermost =>
    let r := (w.thread t).vm.receive ((w.thread t).caller t) callee w.store o
    have hreceive : w.store.Works r.2.1 := Vm.works_receive _ _ _ _ _
    rw [deliver_call]
    exact hreceive.trans (works_afterSignal { (w.setVm t {}) with store := r.2.1 } t outermost
      r.1 (Vm.receive_not_suspended _ _ _ _))

theorem works_anchored (function : Value) (args : Array Value) :
    w.store.Works (w.anchored t function args).store :=
  (works_make ((w.thread t).caller t).storage (.future none)).trans
    (Collector.works (.addRoot _) trivial)

theorem works_launch (function : Value) (args : Array Value) (k : Consumer) :
    w.store.Works (w.launch t function args k).store := by
  have hanchored := works_anchored w t function args
  have hdropped := hanchored.trans (works_dropRoot _ w.store.collector.nextId)
  rcases launch_cases w t function args k with ⟨why, -, heq⟩ | ⟨p, heq⟩ | ⟨name, heq⟩
  · rw [heq]
    exact hdropped.trans (works_deliver _ t k _)
  · rw [heq, interrupt_eq]
    exact hdropped
  · have hbearing : w.store.Works (w.bearing t function args name).store := hanchored
    rw [heq]
    exact hbearing.trans (works_deliver _ t k _)

theorem works_tagged (ending : Ending) : w.store.Works (w.tagged t ending).1 := by
  cases ending with
  | returned => exact works_make _ _
  | panicked p => exact (works_make _ _).trans (works_make _ _)

theorem works_leave : w.store.Works (w.leave t).store := by
  rcases w.leave_eq t with ⟨-, heq⟩ | ⟨id, g, -, hg, heq⟩ | ⟨id, p, -, -, heq⟩ <;> rw [heq]
  · exact .refl _
  · have hone := Collector.works (g := w.store.collector) (.retire id) trivial
    simp only [Collector.Operation.apply, hg] at hone
    exact hone
  · exact .refl _

theorem works_unroot : w.store.Works (w.unroot t).store := by
  rw [unroot_eq]
  show w.store.Works (w.uproot t).store
  unfold uproot
  split
  · exact works_dropRoot w _
  · exact .refl _

theorem works_pause (ending : Option Ending) : w.store.Works (w.pause t ending).store :=
  works_modifySync _

theorem works_block (wait : Wait) (k : After) : w.store.Works (w.block t wait k).store :=
  works_park w t

theorem works_joinPass (j : Join) (k : Consumer) :
    w.store.Works (w.joinPass t j k).store := by
  rcases joinPass_cases w t j k with ⟨vs, heq⟩ | ⟨vs, wait, pending, heq⟩ <;> rw [heq]
  · exact ((works_dropRoot w _).trans (works_dropRoot _ _)).trans (works_deliver _ t k _)
  · have hpin : w.store.Works (w.setPinned j.results vs).store :=
      Collector.works (.setPinned j.results vs) trivial
    exact hpin.trans (works_block _ t _ _)

theorem works_request (r : Request) (k : Consumer) :
    w.store.Works (w.request t r k).store := by
  cases r with
  | collect => exact .refl _
  | join fs poll tagged =>
    simp only [request, joinStart]
    split
    · exact works_deliver w t k _
    · exact works_deliver w t k _
    · let g := ((w.store.collector.addRoot (.pinned fs)).1.addRoot (.pinned #[])).1
      let w₁ : World := { w with store := { w.store with collector := g } }
      have hroots : w.store.Works w₁.store :=
        (Collector.works (.addRoot (.pinned fs)) trivial).trans
          (Collector.works (.addRoot (.pinned #[])) trivial)
      exact hroots.trans (works_joinPass w₁ t _ k)
  | sleep | await | awaitFor | lock | start | settle => exact works_block w t _ _

/-- A machine goes on, or asks for something. -/
theorem works_signal (outermost : Bool) (vm : Vm) (signal : Signal) :
    w.store.Works (w.afterSignal t outermost vm signal).store := by
  cases signal with
  | suspended callee r => exact works_request (w.setVm t vm) t r _
  | next | failed | panicked => exact works_afterSignal w t outermost vm nofun

theorem works_execute : w.store.Works (w.execute t).store :=
  (Vm.works_step ((w.thread t).caller t) (w.thread t).vm w.store).trans
    (works_signal { (w.setVm t {}) with store := _ } t false _ _)

theorem works_enter (function : Value) (args : Array Value) :
    w.store.Works (w.enter t function args).store :=
  (Vm.works_invoke _).trans (works_signal { (w.setVm t {}) with store := _ } t true _ _)

theorem works_continueWith (k : After) (o : Outcome) :
    w.store.Works (w.continueWith t k o).store := by
  cases k with
  | instruction => exact .refl _
  | reply k => exact works_deliver w t k o
  | start function args k => exact works_launch w t function args k
  | join j k => exact works_joinPass w t j k
  | pause ending => exact works_pause w t ending
  | retire => exact works_leave w t

theorem works_passWait (wait : Wait) : w.store.Works (w.passWait t wait).1.store := by
  rw [Store.Works, collector_passWait]
  exact .refl _

/-- A step in which the thread neither sweeps nor sets a future. -/
theorem works_step (hsweep : ∀ k, w.control t ≠ .sweeping k) (hsets : w.sets? t = none) :
    w.store.Works (w.step t).store := by
  unfold sets? at hsets
  unfold control at hsweep
  unfold step
  simp only
  split
  · exact .refl _
  · exact .refl _
  · exact .refl _
  · split
    · rw [endRun_eq]
      exact .refl _
    · split
      · exact .refl _
      · exact works_execute w t
  · exact works_execute w t
  · split
    · exact works_park w t
    · have hclear : w.store.Works (w.modifyStore (·.clearRequest)).store :=
        Collector.works .clearRequest trivial
      split
      · exact hclear.trans (works_continueWith _ t _ _)
      · exact hclear.trans (works_modifySync _)
  · exact (works_unpark w t).trans (works_continueWith _ t _ _)
  · exact .refl _
  · rename_i k hcontrol
    exact absurd hcontrol (hsweep k)
  · rename_i wait k hcontrol
    have hpass := works_passWait w t wait
    split <;> rename_i hw <;> rw [hw] at hpass <;> exact hpass
  · rename_i wait k hcontrol
    have hpass := works_passWait w t wait
    split <;> rename_i hw <;> rw [hw] at hpass
    · exact hpass
    · exact hpass.trans (works_continueWith _ t _ _)
  · exact (works_unpark w t).trans (works_continueWith _ t _ _)
  · exact Collector.works .enroll trivial
  · exact Collector.works (.addRoot (.stack t)) trivial
  · split
    · exact .refl _
    · exact works_enter w t _ _
  · split
    · exact works_park w t
    · exact works_pause w t _
  · rename_i ending hcontrol
    split
    · exact .refl _
    · rename_i i hrole
      simp [hcontrol, hrole] at hsets
  · exact works_modifySync _
  · split
    · exact .refl _
    · exact works_dropRoot w _
  · split
    · exact works_park w t
    · exact works_leave w t
  · exact works_unroot w t
  · exact .refl _
  · exact works_make _ _
  · rename_i agenda hcontrol
    split
    · exact .refl _
    · simp [hcontrol] at hsets

/-- A thread that sets a future does it as the last thing in its step. -/
theorem works_sets {s : Store} {f : CellId} {v : Value} (hsets : w.sets? t = some (s, f, v)) :
    w.store.Works s ∧ (w.step t).store = s.set f v := by
  unfold sets? at hsets
  split at hsets
  · rename_i hcontrol
    cases hsets
    refine ⟨.refl _, ?_⟩
    simp only [step, hcontrol, Store.set]
    cases w.store.heap.resolve f v <;> rfl
  · rename_i ending i hcontrol hrole
    cases hsets
    refine ⟨works_tagged w t ending, ?_⟩
    simp only [step, hcontrol, hrole]
    rw [publish_eq]
    rfl
  · cases hsets

theorem step_of_sweeping {k : After} (h : w.control t = .sweeping k) :
    w.step t = (w.collect.modifySync (·.dismiss)).continueWith t k (.value (.bool true)) := by
  simp only [step, show (w.thread t).control = _ from h]

/-- After the sweep the coordinator of a collection does nothing but plain work. -/
theorem works_sweeping {k : After} (h : w.control t = .sweeping k) :
    w.collect.store.Works (w.step t).store := by
  have hdismiss : w.collect.store.Works (w.collect.modifySync (·.dismiss)).store :=
    works_modifySync _
  rw [step_of_sweeping w t h]
  exact hdismiss.trans (works_continueWith _ t _ _)

theorem works_assign (task : Task) : w.store.Works (w.assign t task).store := by
  cases task <;> simp only [assign]
  case enroll | safepoint => split <;> exact .refl _
  case equip | retire | run | litter | lock => exact .refl _
  case pause =>
    split
    · exact works_park w t
    · exact works_pause w t _
  case call function args => exact works_enter w t function args
  case nest =>
    have hblock := works_block w t (.until w.store.now) (.reply .host)
    simp only [nest, enterRegion]
    split
    · rename_i w' hw
      split at hw
      · cases hw
      · cases hw
        exact hblock.trans (works_block _ t _ _)
    · exact hblock
  case request r => exact works_request w t r .host

end World

/-! ### Runs -/

namespace Act

/-- The future an act sets, with the store it does so in and the value. -/
def sets? (h : Hosted) : Act → Option (Store × CellId × Value)
  | .step t => h.world.sets? t
  | .resolve f v => some (h.world.store, f, v)
  | _ => none

/-- The act of a thread that sweeps. -/
def sweeps (h : Hosted) (a : Act) : Prop := ∃ t k, a = .step t ∧ h.world.control t = .sweeping k

variable {h : Hosted} {a : Act}

theorem works (hsweep : ¬ a.sweeps h) (hsets : a.sets? h = none) :
    h.world.store.Works (a.apply h).world.store := by
  cases a with
  | step t => exact World.works_step _ t (fun k hk => hsweep ⟨t, k, rfl, hk⟩) hsets
  | assign t task => exact World.works_assign _ t task
  | wait t what parked =>
    cases parked with
    | true => exact World.works_block _ t _ _
    | false => exact .refl _
  | make t o => exact Store.works_make _ o
  | makeImmortal o => exact Store.works_makeImmortal o
  | pushItem c v => exact Store.works_pushItem c v
  | resolve c v => cases hsets
  | setAttr receiver name v =>
    simp only [apply]
    split
    · rename_i hc
      exact Store.works_attributeChange hc
    · exact .refl _
  | root vs => exact Collector.works (.addRoot (.pinned vs)) trivial
  | pin id v => exact Collector.works (.setPinned id _) trivial
  | unroot id => exact World.works_dropRoot _ id
  | library l =>
    simp only [apply, Store.addLibrary]
    cases l.entries with
    | error e => exact .refl _
    | ok fs => exact Store.works_publish _ fs
  | setLimit limit => exact Collector.works (.setLimit limit) trivial
  | resume => exact Store.works_modifySync _
  | elapse | spawn | helper | dismiss | setGlobal | push | pop | supply => exact .refl _

theorem works_sets {s : Store} {f : CellId} {v : Value} (hsets : a.sets? h = some (s, f, v)) :
    h.world.store.Works s ∧ (a.apply h).world.store = s.set f v := by
  cases a with
  | step t => exact World.works_sets _ t hsets
  | resolve c v =>
    cases hsets
    refine ⟨.refl _, ?_⟩
    simp only [apply, Store.set]
    cases h.world.store.heap.resolve f v <;> rfl
  | _ => cases hsets

/-- Every act works on the collector by its operations. -/
theorem operates (h : Hosted) (a : Act) : h.world.store.Operates (a.apply h).world.store := by
  by_cases hsweep : a.sweeps h
  · obtain ⟨t, k, rfl, hcontrol⟩ := hsweep
    have hcollect : h.world.store.Operates h.world.collect.store :=
      Collector.operates (.collect h.world.rootValues) _
    exact hcollect.trans (World.works_sweeping _ t hcontrol).operates
  cases hsets : a.sets? h with
  | none => exact (works hsweep hsets).operates
  | some p =>
    obtain ⟨s, f, v⟩ := p
    obtain ⟨hworks, hset⟩ := works_sets hsets
    rw [hset]
    exact hworks.operates.trans (Store.operates_set s f v)

end Act

namespace Collector

/-- A new machine has registered the global names and set up its library. -/
theorem operates_new {collector : CollectorSettings} {isolates : IsolateSettings} {s : Store}
    (hs : Store.new collector isolates = .ok s) :
    (Collector.new collector).Operates s.collector := by
  rw [← Store.publish_of_new hs]
  let g := ((Collector.new collector).addRoot .globals).1
  exact (operates (.addRoot .globals) _).trans
    (Store.works_publish { collector := g, isolates } _).operates

/-- A history of the collector that passes through all states of a run. -/
def Records (past : List (Collector × Operation)) (c : Chronicle) : Prop :=
  History past c.world.store.collector ∧
    ∀ p ∈ c.past, ∃ later earlier, past = later ++ earlier ∧
      History earlier p.1.world.store.collector

/-- Every run has a history. -/
theorem exists_records {c : Chronicle} (hc : Run (fun c a => a.Given c.toHosted) c) :
    ∃ past, Records past c := by
  have hlisted : ∀ {c : Chronicle}, c.toHosted.Sound → c.world.store.collector.Listed :=
    fun ⟨_, hw, _⟩ => hw.tidy.listed
  induction hc with
  | @new collector isolates s hs =>
    obtain ⟨later, hlater⟩ := (History.new collector).operates (operates_new hs)
      (hlisted (c := { world := { store := s } }) (Hosted.sound_new hs))
    exact ⟨_, hlater, fun p hp => by cases hp⟩
  | @act c a hc ha ih =>
    obtain ⟨past, hpast, hstates⟩ := ih
    have hsound := (hc.act ha).sound fun _ _ h => h
    obtain ⟨later, hlater⟩ := hpast.operates (Act.operates c.toHosted a) (hlisted hsound)
    refine ⟨later ++ past, hlater, fun p hp => ?_⟩
    rcases List.mem_cons.1 hp with rfl | hp
    · exact ⟨later, past, rfl, hpast⟩
    · obtain ⟨later', earlier, rfl, hearlier⟩ := hstates p hp
      exact ⟨later ++ later', earlier, (List.append_assoc ..).symm, hearlier⟩

end Collector

/-- **Allocation accounting.** After any history of operations on a collector its books are right:
every mortal cell is on one list and once, the counters count these cells, the allocations and the
cells given back, they only grow, and no cell is given back twice. Every run of a machine, with any
number of threads in any order, is such a history. -/
theorem allocations_accounted :
    (∀ past g, Collector.History past g → Collector.Accounts past g) ∧
      ∀ c, Run (fun c a => a.Given c.toHosted) c →
        ∃ past, Collector.Records past c ∧ Collector.Accounts past c.world.store.collector := by
  refine ⟨fun past g h => h.accounts, fun c hc => ?_⟩
  obtain ⟨past, hpast⟩ := Collector.exists_records hc
  exact ⟨past, hpast, hpast.1.accounts⟩

/-- Two threads allocate, one of them is gone when the other collects. -/
def Chronicle.adopting : Chronicle :=
  List.foldl Act.record .standard
    [.spawn, .assign 0 .enroll, .step 0, .assign 0 .equip, .step 0, .spawn, .assign 1 .enroll,
      .step 1, .make 0 (.str "kept"), .push 0 (.ref 11), .make 1 (.str "left"), .root #[.ref 12],
      .make 1 (.str "lost"), .assign 1 .retire, .step 1, .step 1, .assign 0 (.request .collect),
      .step 0, .step 0, .step 0]

theorem run_adopting : Run (fun c a => a.Given c.toHosted) .adopting := by
  refine (Run.standard _).acts ⟨trivial, ⟨rfl, trivial⟩, trivial, ⟨rfl, trivial⟩, trivial, trivial,
    ⟨rfl, trivial⟩, trivial, ⟨rfl, by simp [Object.edges]⟩,
    ⟨rfl, rfl, rfl, Heap.holds_ref.2 rfl⟩, ⟨rfl, by simp [Object.edges]⟩, ?_,
    ⟨rfl, by simp [Object.edges]⟩, ⟨rfl, trivial⟩, trivial, trivial, ⟨rfl, trivial⟩, trivial,
    trivial, trivial, trivial⟩
  rintro v hv
  obtain rfl : v = .ref 12 := by simpa using hv
  exact Heap.holds_ref.2 rfl

/-- The cell that is held outlives its thread, the other one is given back. -/
theorem allocations_accounted_adopting :
    Run (fun c a => a.Given c.toHosted) .adopting ∧
      (∃ past, Collector.Records past .adopting ∧
        Collector.Accounts past Chronicle.adopting.world.store.collector) ∧
      Chronicle.adopting.world.store.collector.lists = [[11], [12]] ∧
      Chronicle.adopting.world.store.collector.allocCount = 2 ∧
      Chronicle.adopting.world.store.collector.freed = 1 := by
  refine ⟨run_adopting, allocations_accounted.2 _ run_adopting, ?_, ?_, ?_⟩ <;> decide +kernel

end ScriptCore
