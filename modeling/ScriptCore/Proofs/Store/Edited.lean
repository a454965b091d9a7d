import ScriptCore.Proofs.Collector.Tidy
import ScriptCore.Heap.Attribute
import ScriptCore.Store

/-!
# What a thread at work does to the store

Between two safepoints a thread allocates, writes into objects, moves the allocation limit and takes
or gives back locks. `Edited` collects what all of these keep; none of them frees a cell or touches
the registry of roots. The values it may store are a parameter: the heap stays closed as long as
they are live.

* `Edited.refl`, `Edited.trans`: it is a preorder;
* `edited_make`, `edited_setObject`, `edited_resolve`, …: one lemma a change.
-/

namespace ScriptCore

namespace Store

/-- Changes that a thread with the allocation list `storage` makes; the values it stores satisfy
`V`. -/
structure Edited (storage : StorageId) (V : Value → Prop) (s s' : Store) : Prop where
  evolves : s.heap.Evolves s'.heap
  closed : (∀ v, V v → s.heap.Holds v) → s.heap.Closed → s'.heap.Closed
  /-- Only an allocation needs the list to be there. -/
  tidy : s.collector.Tidy →
    s'.heap.size = s.heap.size ∨ storage ∈ s.collector.storages.map (·.id) → s'.collector.Tidy
  storages : s'.collector.storages.map (·.id) = s.collector.storages.map (·.id)
  roots : s'.collector.roots = s.collector.roots
  nextId : s'.collector.nextId = s.collector.nextId
  globals : s'.globals = s.globals

variable {storage : StorageId} {V V' : Value → Prop} {s s' s'' : Store} {c : CellId} {o o' : Object}
  {v : Value}

namespace Edited

theorem refl (storage : StorageId) (V : Value → Prop) (s : Store) : Edited storage V s s :=
  ⟨.refl _, fun _ h => h, fun h _ => h, rfl, rfl, rfl, rfl⟩

theorem mono (h : Edited storage V s s') (hV : ∀ v, V v → V' v) : Edited storage V' s s' :=
  { h with closed := fun hV' => h.closed fun v hv => hV' v (hV v hv) }

theorem trans (h₁ : Edited storage V s s') (h₂ : Edited storage V s' s'') :
    Edited storage V s s'' where
  evolves := h₁.evolves.trans h₂.evolves
  closed hV hs := h₂.closed (fun v hv => h₁.evolves.holds (hV v hv)) (h₁.closed hV hs)
  tidy hs hmem := by
    have hle₁ := h₁.evolves.size_le
    have hle₂ := h₂.evolves.size_le
    rcases hmem with hsize | hmem
    · exact h₂.tidy (h₁.tidy hs (.inl (by omega))) (.inl (by omega))
    · exact h₂.tidy (h₁.tidy hs (.inr hmem)) (.inr (h₁.storages ▸ hmem))
  storages := h₂.storages.trans h₁.storages
  roots := h₂.roots.trans h₁.roots
  nextId := h₂.nextId.trans h₁.nextId
  globals := h₂.globals.trans h₁.globals

/-- Locks, the clock and the count of isolates are no concern of the collector. -/
theorem of_collector_eq (hc : s'.collector = s.collector) (hg : s'.globals = s.globals) :
    Edited storage V s s' := by
  refine ⟨?_, ?_, ?_, ?_, ?_, ?_, hg⟩
  · rw [heap, heap, hc]
    exact .refl _
  · rw [heap, heap, hc]
    exact fun _ h => h
  · rw [hc]
    exact fun h _ => h
  all_goals rw [hc]

end Edited

theorem edited_make (he : ∀ v ∈ o.edges, V v) : Edited storage V s (s.make storage o).1 where
  evolves := Heap.evolves_alloc _ _
  closed hV hs := hs.alloc fun v hv => hV v (he v hv)
  tidy hs hmem := by
    have hsize : (s.make storage o).1.heap.size = s.heap.size + 1 := Heap.size_alloc _ _
    exact hs.make (hmem.resolve_left (by omega)) o
  storages := Collector.Tidy.ids_make _ _ _
  roots := rfl
  nextId := rfl
  globals := rfl

theorem live_make (s : Store) (storage : StorageId) (o : Object) :
    (s.make storage o).1.heap.Live (s.make storage o).2 :=
  Heap.live_alloc _ _

theorem object?_make (s : Store) (storage : StorageId) (o : Object) :
    (s.make storage o).1.heap.object? (s.make storage o).2 = some o := by
  show (s.heap.alloc { object := o }).1.object? s.heap.size = some o
  rw [Heap.object?_alloc, if_pos rfl]

theorem edited_makeImmortal (he : ∀ v ∈ o.edges, V v) :
    Edited storage V s (s.makeImmortal o).1 where
  evolves := Heap.evolves_alloc _ _
  closed hV hs := hs.alloc fun v hv => hV v (he v hv)
  tidy hs _ := hs.makeImmortal o
  storages := rfl
  roots := rfl
  nextId := rfl
  globals := rfl

theorem edited_setObject (ho : s.heap.object? c = some o) (hb : o.Becomes o')
    (he : ∀ v ∈ o'.edges, v ∈ o.edges ∨ V v) :
    Edited storage V s (s.modifyHeap (·.setObject c o')) where
  evolves := Heap.evolves_setObject ho hb
  closed hV hs := hs.setObject ho fun v hv => (he v hv).imp_right (hV v)
  tidy hs _ := hs.setObject c o'
  storages := rfl
  roots := rfl
  nextId := rfl
  globals := rfl

theorem modifyHeap_eq (s : Store) (f : Heap → Heap) : s.modifyHeap f = s.withHeap (f s.heap) := rfl

/-- Appending a value, to a list or to anything else. -/
theorem edited_pushItem (c : CellId) (hv : V v) :
    Edited storage V s (s.modifyHeap (·.pushItem c v)) := by
  by_cases hlist : ∃ items, s.heap.object? c = some (.list items)
  · obtain ⟨items, ho⟩ := hlist
    have heq : s.modifyHeap (·.pushItem c v) =
        s.modifyHeap (·.setObject c (.list (items.push v))) := by
      rw [modifyHeap_eq, modifyHeap_eq, Heap.pushItem_eq ho]
    rw [heq]
    refine edited_setObject ho (.push items v) fun w hw => ?_
    simp only [Object.edges, Array.toList_push, List.mem_append, List.mem_singleton] at hw ⊢
    rcases hw with hw | rfl
    · exact .inl hw
    · exact .inr hv
  · have heq : s.modifyHeap (·.pushItem c v) = s := by
      rw [modifyHeap_eq, Heap.pushItem_eq_self (fun items ho => hlist ⟨items, ho⟩)]
      rfl
    rw [heq]
    exact .refl storage V s

/-- Resolving a future. -/
theorem edited_resolve {h' : Heap} (hr : s.heap.resolve c v = .ok h') (hv : V v) :
    Edited storage V s (s.withHeap h') := by
  rcases Heap.resolve_cases hr with rfl | ⟨ho, rfl⟩
  · exact .refl storage V s
  · refine edited_setObject ho (.resolve v) fun w hw => .inr ?_
    obtain rfl : w = v := by simpa [Object.edges] using hw
    exact hv

theorem edited_modifySync (s : Store) (f : Rendezvous → Rendezvous) :
    Edited storage V s (s.modifySync f) where
  evolves := .refl _
  closed _ hs := hs
  tidy hs _ := hs.of_eq rfl rfl rfl rfl rfl rfl
  storages := rfl
  roots := rfl
  nextId := rfl
  globals := rfl

theorem edited_clearRequest (s : Store) : Edited storage V s s.clearRequest where
  evolves := .refl _
  closed _ hs := hs
  tidy hs _ := hs.of_eq rfl rfl rfl rfl rfl rfl
  storages := rfl
  roots := rfl
  nextId := rfl
  globals := rfl

theorem edited_setLimit (s : Store) (storage : StorageId) (limit : UInt64) :
    Edited storage V s { s with collector := s.collector.setLimit limit } where
  evolves := .refl _
  closed _ hs := hs
  tidy hs _ := hs.setLimit limit
  storages := rfl
  roots := rfl
  nextId := rfl
  globals := rfl

/-- Writing an attribute of a library object. -/
theorem edited_attributeChange {receiver : Value} {name : String}
    (hc : s.heap.attributeChange receiver name v = .ok (c, o)) (hv : V v) :
    Edited storage V s (s.modifyHeap (·.setObject c o)) := by
  unfold Heap.attributeChange at hc
  split at hc
  · rename_i d
    split at hc
    · rename_i o' hbind
      cases hc
      obtain ⟨old, hold, hwith⟩ := Option.bind_eq_some_iff.1 hbind
      unfold Object.withAttribute? at hwith
      split at hwith
      · cases hwith
        exact edited_setObject hold (.write _ _) fun w hw => by simp [Object.edges] at hw
      · cases hwith
        refine edited_setObject hold (.write _ _) fun w hw => .inr ?_
        obtain rfl : w = v := by simpa [Object.edges] using hw
        exact hv
      · cases hwith
    · cases hc
  · cases hc

end Store

end ScriptCore
