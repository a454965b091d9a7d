import ScriptCore.Heap.Attribute
import ScriptCore.Join
import ScriptCore.Proofs.Collector.Tidy
import ScriptCore.Proofs.Heap.Text
import ScriptCore.Proofs.Store.Edited

/-!
# Stores that differ in what has been collected

The same has been done to two stores, but their collectors have freed different cells at different
times. Places in a heap are never used twice, so a cell has the same number in both: twins agree on
every cell that is live in both, and on everything else that threads can read.

* `Heap.Twins`, `Store.Twins`: the relation;
* `Heap.Agree`: a value looks the same in both heaps, as all values do that both of them hold;
* `Store.Twins.make`, `Store.Twins.setObject`, …: what is done to both keeps them twins;
* `Store.Twins.collect`, `Store.Twins.setLimit`, …: what a collector does to one of them too.
-/

namespace ScriptCore

/-- The same cells have been allocated in two heaps, and no cell holds different objects. -/
structure Heap.Twins (h h' : Heap) : Prop where
  size : h.size = h'.size
  object : ∀ c o o', h.object? c = some o → h'.object? c = some o' → o = o'

/-- A value looks the same in two heaps. -/
structure Heap.Agree (h h' : Heap) (v : Value) : Prop where
  deref? : h.deref? v = h'.deref? v
  text? : h.text? v = h'.text? v

/-- Two stores that differ in nothing but the clock and what a collector decides on. -/
structure Store.Twins (s s' : Store) : Prop where
  heap : s.heap.Twins s'.heap
  roots : s.collector.roots = s'.collector.roots
  nextId : s.collector.nextId = s'.collector.nextId
  immortals : s.collector.immortals = s'.collector.immortals
  isolates : s.isolates = s'.isolates
  globals : s.globals = s'.globals
  locks : s.locks = s'.locks

/-! ### Heaps -/

/-- A list with one more item; other objects stay. -/
def Object.withItem (v : Value) : Object → Object
  | .list items => .list (items.push v)
  | o => o

namespace Heap

variable {h h' h₁ : Heap} {v : Value} {c : CellId}

namespace Twins

theorem refl (h : Heap) : h.Twins h :=
  ⟨rfl, fun _ _ _ ho ho' => Option.some.inj (ho.symm.trans ho')⟩

theorem symm (ht : h.Twins h') : h'.Twins h :=
  ⟨ht.size.symm, fun c o o' ho ho' => (ht.object c o' o ho' ho).symm⟩

/-- Freeing cells in one of them. -/
theorem fewer (ht : h.Twins h') (hsize : h₁.size = h.size)
    (hobject : ∀ c o, h₁.object? c = some o → h.object? c = some o) : h₁.Twins h' :=
  ⟨hsize.trans ht.size, fun c o o' ho => ht.object c o o' (hobject c o ho)⟩

theorem alloc (ht : h.Twins h') (cell : Cell) : (h.alloc cell).1.Twins (h'.alloc cell).1 where
  size := by rw [size_alloc, size_alloc, ht.size]
  object c o o' ho ho' := by
    rw [object?_alloc] at ho ho'
    rw [← ht.size] at ho'
    split at ho
    · rw [if_pos ‹_›] at ho'
      exact Option.some.inj (ho.symm.trans ho')
    · rw [if_neg ‹_›] at ho'
      exact ht.object c o o' ho ho'

/-- The same change of an object in both. -/
theorem modify (ht : h.Twins h') (c : CellId) {f : Cell → Cell} {g : Object → Object}
    (hf : ∀ cell, (f cell).object = g cell.object) : (h.modify c f).Twins (h'.modify c f) where
  size := by rw [size_modify, size_modify, ht.size]
  object d o o' ho ho' := by
    have hmap : ∀ h : Heap,
        (h.modify c f).object? d = if c = d then (h.object? d).map g else h.object? d := by
      intro h
      rw [object?, get?_modify]
      split
      · rw [object?, Option.map_map, Option.map_map]
        exact congrArg (Option.map · _) (funext hf)
      · rfl
    rw [hmap] at ho ho'
    split at ho
    · rw [if_pos ‹_›] at ho'
      obtain ⟨p, hp, rfl⟩ := Option.map_eq_some_iff.1 ho
      obtain ⟨p', hp', rfl⟩ := Option.map_eq_some_iff.1 ho'
      rw [ht.object d p p' hp hp']
    · rw [if_neg ‹_›] at ho'
      exact ht.object d o o' ho ho'

theorem setObject (ht : h.Twins h') (c : CellId) (o : Object) :
    (h.setObject c o).Twins (h'.setObject c o) :=
  ht.modify c (g := fun _ => o) fun _ => rfl

theorem pushItem (ht : h.Twins h') (c : CellId) (v : Value) :
    (h.pushItem c v).Twins (h'.pushItem c v) := by
  refine ht.modify c (g := Object.withItem v) fun cell => ?_
  obtain ⟨o, immortal, marked⟩ := cell
  cases o <;> rfl

theorem object?_eq (ht : h.Twins h') (hc : h.Live c) (hc' : h'.Live c) :
    h.object? c = h'.object? c := by
  obtain ⟨o, ho⟩ := live_iff_object?.1 hc
  obtain ⟨o', ho'⟩ := live_iff_object?.1 hc'
  rw [ho, ho', ht.object c o o' ho ho']

/-- Values that both heaps hold look the same in both. -/
theorem agree (ht : h.Twins h') (hclosed : h.Closed) (hclosed' : h'.Closed) (hv : h.Holds v)
    (hv' : h'.Holds v) : h.Agree h' v := by
  refine ⟨?_, ?_⟩
  · cases v with
    | ref c => exact ht.object?_eq (hv c rfl) (hv' c rfl)
    | _ => rfl
  · refine text?_congr (P := fun c => h.Live c ∧ h'.Live c)
      (fun c hc => ht.object?_eq hc.1 hc.2) (fun c e hc hp => ?_) fun c hc => ⟨hv c hc, hv' c hc⟩
    obtain ⟨o, ho', hmem⟩ := hp
    have ho := (ht.object?_eq hc.1 hc.2).trans ho'
    exact ⟨hclosed c o ho _ hmem _ rfl, hclosed' c o ho' _ hmem _ rfl⟩

end Twins

namespace Agree

theorem object? (ha : h.Agree h' (.ref c)) : h.object? c = h'.object? c := ha.deref?

theorem typeOf (ha : h.Agree h' v) : h.typeOf v = h'.typeOf v := by
  cases v with
  | ref c => simp only [Heap.typeOf, ha.object?]
  | _ => rfl

theorem str? (ha : h.Agree h' v) : h.str? v = h'.str? v := by
  simp only [Heap.str?, ha.deref?]

theorem list? (ha : h.Agree h' v) : h.list? v = h'.list? v := by
  simp only [Heap.list?, ha.deref?]

theorem error? (ha : h.Agree h' v) : h.error? v = h'.error? v := by
  simp only [Heap.error?, ha.deref?]

theorem attribute? (ha : h.Agree h' v) (name : String) :
    h.attribute? v name = h'.attribute? v name := by
  simp only [Heap.attribute?, ha.deref?]

theorem attributeChange (ha : h.Agree h' v) (name : String) (w : Value) :
    h.attributeChange v name w = h'.attributeChange v name w := by
  cases v with
  | ref c => simp only [Heap.attributeChange, ha.object?, ha.typeOf]
  | _ => rfl

theorem resolved? (ha : h.Agree h' (.ref c)) : h.resolved? c = h'.resolved? c := by
  simp only [Heap.resolved?, ha.object?]

theorem payload (ha : h.Agree h' v) : Join.payload h v = Join.payload h' v := by
  simp only [Join.payload, Heap.result?, ha.deref?]

end Agree

end Heap

/-! ### Stores -/

namespace Store.Twins

variable {s s' s₁ : Store} {c : CellId} {v : Value}

theorem symm (ht : s.Twins s') : s'.Twins s :=
  ⟨ht.heap.symm, ht.roots.symm, ht.nextId.symm, ht.immortals.symm, ht.isolates.symm,
    ht.globals.symm, ht.locks.symm⟩

/-- What twins agree on has not changed in one of them. -/
theorem left (ht : s.Twins s') (hheap : s₁.heap = s.heap)
    (hroots : s₁.collector.roots = s.collector.roots)
    (hnextId : s₁.collector.nextId = s.collector.nextId)
    (himmortals : s₁.collector.immortals = s.collector.immortals)
    (hisolates : s₁.isolates = s.isolates) (hglobals : s₁.globals = s.globals)
    (hlocks : s₁.locks = s.locks) : s₁.Twins s' :=
  ⟨hheap ▸ ht.heap, hroots.trans ht.roots, hnextId.trans ht.nextId,
    himmortals.trans ht.immortals, hisolates.trans ht.isolates, hglobals.trans ht.globals,
    hlocks.trans ht.locks⟩

theorem withHeap (ht : s.Twins s') {h h' : Heap} (hh : h.Twins h') :
    (s.withHeap h).Twins (s'.withHeap h') :=
  ⟨hh, ht.roots, ht.nextId, ht.immortals, ht.isolates, ht.globals, ht.locks⟩

theorem make (ht : s.Twins s') (storage storage' : StorageId) (o : Object) :
    (s.make storage o).1.Twins (s'.make storage' o).1 :=
  ⟨ht.heap.alloc _, ht.roots, ht.nextId, ht.immortals, ht.isolates, ht.globals, ht.locks⟩

theorem make_snd (ht : s.Twins s') (storage storage' : StorageId) (o : Object) :
    (s.make storage o).2 = (s'.make storage' o).2 :=
  ht.heap.size

theorem makeImmortal (ht : s.Twins s') (o : Object) :
    (s.makeImmortal o).1.Twins (s'.makeImmortal o).1 :=
  ⟨ht.heap.alloc _, ht.roots, ht.nextId, congrArg₂ List.cons ht.heap.size ht.immortals,
    ht.isolates, ht.globals, ht.locks⟩

theorem setObject (ht : s.Twins s') (c : CellId) (o : Object) :
    (s.modifyHeap (·.setObject c o)).Twins (s'.modifyHeap (·.setObject c o)) :=
  ht.withHeap (ht.heap.setObject c o)

theorem pushItem (ht : s.Twins s') (c : CellId) (v : Value) :
    (s.modifyHeap (·.pushItem c v)).Twins (s'.modifyHeap (·.pushItem c v)) :=
  ht.withHeap (ht.heap.pushItem c v)

theorem setGlobal (ht : s.Twins s') (name : String) (v : Value) :
    (s.setGlobal name v).Twins (s'.setGlobal name v) where
  __ := ht
  globals := by rw [Store.setGlobal, Store.setGlobal, ht.globals]

theorem newLock (ht : s.Twins s') : s.newLock.1.Twins s'.newLock.1 where
  __ := ht
  locks := by rw [Store.newLock, Store.newLock, ht.locks]

theorem setLock (ht : s.Twins s') (l : LockId) (lock : Lock) :
    (s.setLock l lock).Twins (s'.setLock l lock) where
  __ := ht
  locks := by rw [Store.setLock, Store.setLock, ht.locks]

theorem lock (ht : s.Twins s') (l : LockId) : s.lock l = s'.lock l := by
  rw [Store.lock, Store.lock, ht.locks]

theorem global? (ht : s.Twins s') (name : String) : s.global? name = s'.global? name := by
  rw [Store.global?, Store.global?, ht.globals]

theorem publish (ht : s.Twins s') (fs : List Native) : (s.publish fs).Twins (s'.publish fs) := by
  unfold Store.publish
  induction fs generalizing s s' with
  | nil => exact ht
  | cons f fs ih =>
    have hc : (s.makeImmortal (.native f)).2 = (s'.makeImmortal (.native f)).2 := ht.heap.size
    refine ih ?_
    show ((s.makeImmortal (.native f)).1.setGlobal f.name
      (.ref (s.makeImmortal (.native f)).2)).Twins _
    rw [hc]
    exact (ht.makeImmortal _).setGlobal _ _

/-- A library can be set up in both or in none. -/
theorem addLibrary (ht : s.Twins s') (l : Library) :
    (∃ t t', s.addLibrary l = .ok t ∧ s'.addLibrary l = .ok t' ∧ t.Twins t') ∨
      ∃ e e', s.addLibrary l = .error e ∧ s'.addLibrary l = .error e' := by
  unfold Store.addLibrary
  cases l.entries with
  | ok fs => exact .inl ⟨_, _, rfl, rfl, ht.publish fs⟩
  | error e => exact .inr ⟨_, _, rfl, rfl⟩

/-! #### Roots -/

theorem addRoot (ht : s.Twins s') (holder : Holder) :
    { s with collector := (s.collector.addRoot holder).1 }.Twins
      { s' with collector := (s'.collector.addRoot holder).1 } where
  __ := ht
  roots := by simp only [Collector.addRoot, ht.roots, ht.nextId]
  nextId := by simp only [Collector.addRoot, ht.nextId]

theorem setPinned (ht : s.Twins s') (id : RootId) (vs : Array Value) :
    { s with collector := s.collector.setPinned id vs }.Twins
      { s' with collector := s'.collector.setPinned id vs } where
  __ := ht
  roots := by simp only [Collector.setPinned, ht.roots]

theorem pinned (ht : s.Twins s') (id : RootId) :
    s.collector.pinned id = s'.collector.pinned id := by
  simp only [Collector.pinned, ht.roots]

theorem enroll (ht : s.Twins s') :
    { s with collector := s.collector.enroll.1 }.Twins
      { s' with collector := s'.collector.enroll.1 } where
  __ := ht
  nextId := by simp only [Collector.enroll, ht.nextId]

/-! #### What happens to one of them -/

theorem modifySync (ht : s.Twins s') (f : Rendezvous → Rendezvous) : (s.modifySync f).Twins s' :=
  ht.left rfl rfl rfl rfl rfl rfl rfl

theorem clearRequest (ht : s.Twins s') : s.clearRequest.Twins s' :=
  ht.left rfl rfl rfl rfl rfl rfl rfl

theorem setLimit (ht : s.Twins s') (limit : UInt64) :
    { s with collector := s.collector.setLimit limit }.Twins s' :=
  ht.left rfl rfl rfl rfl rfl rfl rfl

theorem collect (ht : s.Twins s') (htidy : s.collector.Tidy) (roots : List Value) :
    { s with collector := s.collector.collect roots }.Twins s' where
  __ := ht
  heap := ht.heap.fewer (Collector.size_collect _ _) fun _ _ => htidy.object?_of_collect

end Store.Twins

end ScriptCore
