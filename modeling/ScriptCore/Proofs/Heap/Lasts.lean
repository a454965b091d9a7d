import ScriptCore.Proofs.Machine.Run

/-!
# What lasts in a heap

Collections free cells but change none, and no cell is used twice. So whatever a thread knows of an
object that no write changes, it knows as long as the object is live.

* `Heap.Lasts`: how a heap changes in a whole run, collections included;
* `Heap.Lasts.settled`: functions, results and resolved futures stay what they are;
* `Collector.lasts_collect`.
-/

namespace ScriptCore

/-- A future stays one. -/
theorem Object.Grows.of_future {slot : Option Value} {o : Object}
    (h : (Object.future slot).Grows o) : ∃ slot', o = .future slot' := by
  rcases Relation.ReflTransGen.cases_head h with rfl | ⟨o', hb, hrest⟩
  · exact ⟨slot, rfl⟩
  · cases hb with
    | resolve v => exact ⟨some v, (Object.settled_future v).eq hrest⟩

/-- No cell is used twice, and objects change by writes only; cells may be freed. -/
structure Heap.Lasts (h h' : Heap) : Prop where
  size_le : h.size ≤ h'.size
  back : ∀ c o', c < h.size → h'.object? c = some o' → ∃ o, h.object? c = some o ∧ o.Grows o'

namespace Heap.Lasts

variable {h h' h'' : Heap}

theorem of_evolves (he : h.Evolves h') : h.Lasts h' := ⟨he.size_le, he.back⟩

theorem refl (h : Heap) : h.Lasts h := .of_evolves (.refl h)

theorem trans (h₁ : h.Lasts h') (h₂ : h'.Lasts h'') : h.Lasts h'' where
  size_le := h₁.size_le.trans h₂.size_le
  back c o'' hc ho'' := by
    obtain ⟨o', ho', hg'⟩ := h₂.back c o'' (hc.trans_le h₁.size_le) ho''
    obtain ⟨o, ho, hg⟩ := h₁.back c o' hc ho'
    exact ⟨o, ho, hg.trans hg'⟩

/-- Freeing cells changes no object. -/
theorem of_object? (hsize : h'.size = h.size)
    (hobject : ∀ c o, h'.object? c = some o → h.object? c = some o) : h.Lasts h' :=
  ⟨hsize.ge, fun c o _ ho => ⟨o, hobject c o ho, .refl⟩⟩

theorem keepsCode (hl : h.Lasts h') : h.KeepsCode h' where
  size_le := hl.size_le
  code c code hc ho := by
    obtain ⟨o, ho', hgrows⟩ := hl.back c _ hc ho
    rwa [hgrows.function] at ho'

/-- An object that no write changes stays as long as it is live. -/
theorem settled {c : CellId} {o : Object} (hl : h.Lasts h') (hs : o.Settled)
    (ho : h.object? c = some o) (hc : h'.Live c) : h'.object? c = some o := by
  obtain ⟨o', ho'⟩ := Heap.live_iff_object?.1 hc
  obtain ⟨p, hp, hgrows⟩ := hl.back c o' (Heap.lt_size_of_object? ho) ho'
  obtain rfl : p = o := Option.some.inj (hp.symm.trans ho)
  rw [ho', hs.eq hgrows]

end Heap.Lasts

theorem Heap.lasts_sweepCell (h : Heap) (c : CellId) : h.Lasts (h.sweepCell c) := by
  refine .of_object? (Heap.size_sweepCell h c) fun d o ho => ?_
  unfold Heap.object? at ho ⊢
  rw [Heap.get?_sweepCell] at ho
  split at ho
  · split at ho
    · rwa [Option.map_map] at ho
    · cases ho
  · exact ho

theorem Heap.lasts_sweep (cells : List CellId) (h : Heap) :
    h.Lasts (cells.foldl Heap.sweepCell h) := by
  induction cells generalizing h with
  | nil => exact .refl h
  | cons c cells ih => exact (h.lasts_sweepCell c).trans (ih _)

theorem Heap.lasts_trace (h : Heap) (starts : List Value) : h.Lasts (h.trace starts) := by
  refine .of_object? (Heap.size_trace h starts) fun c o ho => ?_
  unfold Heap.object? at ho ⊢
  rwa [Heap.get?_trace, Option.map_map] at ho

theorem Collector.lasts_collect (g : Collector) (roots : List Value) :
    g.heap.Lasts (g.collect roots).heap := by
  rw [Collector.collect_heap]
  exact (Heap.lasts_trace _ _).trans (Heap.lasts_sweep _ _)

theorem Store.evolves_resolve (s : Store) (f : CellId) (v : Value) :
    s.heap.Evolves (match s.heap.resolve f v with
      | .ok h => s.withHeap h
      | .error _ => s).heap := by
  split
  · rename_i hr
    have hedit : s.Edited 0 (fun _ => True) (s.withHeap _) := Store.edited_resolve hr trivial
    exact hedit.evolves
  · exact .refl _

end ScriptCore
