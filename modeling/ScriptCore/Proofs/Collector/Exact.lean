import ScriptCore.Collector
import ScriptCore.Proofs.Heap.Reach

/-!
# One collection, exactly

Which cells a collection frees, for any graph of objects and any mark bits at its beginning.

* `Listed`: the allocation lists hold every mortal cell once, the list of immortal cells holds every
  immortal one;
* `Survives`: a mark at the beginning, or a clear path from a root or from an edge of an immortal
  cell;
* `get?_collect`: the heap afterwards, cell by cell;
* `collect_exactly`: survivors, contents, lists, counters and immortal cells after a collection.
-/

namespace ScriptCore

namespace Heap

variable {h : Heap} {c d : CellId}

instance (h : Heap) (c : CellId) : Decidable (h.Mortal c) :=
  decidable_of_iff ((h.get? c).any fun cell => !cell.immortal) <| by
    simp [Mortal, Option.any_eq_true]

theorem get?_sweepCell (h : Heap) (c d : CellId) :
    (h.sweepCell c).get? d =
      if c = d then if h.isMarked c then (h.get? d).map fun cell => { cell with marked := false }
        else none
      else h.get? d := by
  unfold sweepCell
  by_cases hm : h.isMarked c = true
  · simp only [hm, ↓reduceIte, unmark, get?_modify]
  · simp only [hm, Bool.false_eq_true, ↓reduceIte, get?_free]

theorem isMarked_sweepCell_of_ne (hcd : c ≠ d) : (h.sweepCell c).isMarked d = h.isMarked d := by
  simp [isMarked, get?_sweepCell, hcd]

/-- Sweeping a list settles each of its cells once and leaves the others alone. -/
theorem get?_sweep {cells : List CellId} (hcells : cells.Nodup) (h : Heap) (c : CellId) :
    (cells.foldl sweepCell h).get? c =
      if c ∈ cells then
        if h.isMarked c then (h.get? c).map fun cell => { cell with marked := false } else none
      else h.get? c := by
  induction cells generalizing h with
  | nil => simp
  | cons a cells ih =>
    obtain ⟨ha, hcells⟩ := List.nodup_cons.1 hcells
    rw [List.foldl_cons, ih hcells]
    by_cases hac : a = c
    · subst hac
      simp [ha, get?_sweepCell]
    · have hca : c ≠ a := Ne.symm hac
      simp only [isMarked_sweepCell_of_ne hac, get?_sweepCell, hac, ↓reduceIte, List.mem_cons,
        hca, false_or]

theorem size_sweep (cells : List CellId) (h : Heap) :
    (cells.foldl sweepCell h).size = h.size := by
  induction cells generalizing h with
  | nil => rfl
  | cons c cells ih => rw [List.foldl_cons, ih, size_sweepCell]

end Heap

namespace Collector

variable {g : Collector} {roots : List Value} {c d : CellId}

/-- The lists of cells fit the heap: the allocation lists hold exactly the mortal cells, each once,
and the list of immortal cells holds exactly those. -/
structure Listed (g : Collector) : Prop where
  nodup : g.mortals.Nodup
  mem_mortals : ∀ c, c ∈ g.mortals ↔ g.heap.Mortal c
  mem_immortals : ∀ c, c ∈ g.immortals ↔ g.heap.Immortal c

/-- What a trace starts from. -/
def starts (g : Collector) (roots : List Value) : List Value := roots ++ g.immortalEdges

/-- The cell outlives a collection from these roots. -/
def Survives (g : Collector) (roots : List Value) (c : CellId) : Prop :=
  g.heap.isMarked c = true ∨ g.heap.ClearPath (g.starts roots) c

theorem mem_immortalEdges (hc : c ∈ g.immortals) (hp : g.heap.Points c d) :
    .ref d ∈ g.immortalEdges := by
  obtain ⟨o, ho, hd⟩ := hp
  exact List.mem_flatMap.2 ⟨c, hc, by simpa [ho] using hd⟩

theorem isMarked_trace_iff_survives (hg : g.Listed) (hc : g.heap.Mortal c) :
    (g.heap.trace (g.starts roots)).isMarked c = true ↔ g.Survives roots c := by
  refine Heap.isMarked_trace_iff (fun b d hb hp => ?_) hc
  exact List.mem_append_right _ (mem_immortalEdges ((hg.mem_immortals b).2 hb) hp)

theorem collect_heap (g : Collector) (roots : List Value) :
    (g.collect roots).heap = g.mortals.foldl Heap.sweepCell (g.heap.trace (g.starts roots)) := rfl

theorem size_collect (g : Collector) (roots : List Value) :
    (g.collect roots).heap.size = g.heap.size := by
  rw [collect_heap, Heap.size_sweep, Heap.size_trace]

/-- A mortal cell that survives keeps its object and loses its mark. -/
theorem get?_collect_of_survives (hg : g.Listed) (hc : g.heap.Mortal c)
    (hs : g.Survives roots c) :
    (g.collect roots).heap.get? c =
      (g.heap.get? c).map fun cell => { cell with marked := false } := by
  have hmark := (isMarked_trace_iff_survives hg hc).2 hs
  rw [collect_heap, Heap.get?_sweep hg.nodup, if_pos ((hg.mem_mortals c).2 hc), if_pos hmark,
    Heap.get?_trace, Option.map_map]
  rfl

/-- Every other mortal cell is freed. -/
theorem get?_collect_of_not_survives (hg : g.Listed) (hc : g.heap.Mortal c)
    (hs : ¬ g.Survives roots c) : (g.collect roots).heap.get? c = none := by
  have hmark := mt (isMarked_trace_iff_survives hg hc).1 hs
  rw [collect_heap, Heap.get?_sweep hg.nodup, if_pos ((hg.mem_mortals c).2 hc), if_neg hmark]

/-- A collection leaves immortal cells and freed places as they are. -/
theorem get?_collect_of_not_mortal (hg : g.Listed) (hc : ¬ g.heap.Mortal c) :
    (g.collect roots).heap.get? c = g.heap.get? c := by
  rw [collect_heap, Heap.get?_sweep hg.nodup, if_neg (mt (hg.mem_mortals c).1 hc)]
  by_cases himm : g.heap.Immortal c
  · exact Heap.get?_trace_of_immortal himm
  · have hdead : g.heap.get? c = none := by
      simpa [Heap.Live] using fun hlive => (Heap.live_iff.1 hlive).elim hc himm
    rw [Heap.get?_trace, hdead]
    rfl

theorem live_collect_iff (hg : g.Listed) (hc : g.heap.Mortal c) :
    (g.collect roots).heap.Live c ↔ g.Survives roots c := by
  constructor
  · intro hlive
    by_contra hs
    simp [Heap.Live, get?_collect_of_not_survives hg hc hs] at hlive
  · intro hs
    obtain ⟨cell, hcell, -⟩ := id hc
    simp [Heap.Live, get?_collect_of_survives hg hc hs, hcell]

/-- The sweep keeps a listed cell on its list exactly when it leaves the cell in the heap. -/
theorem filter_isMarked_trace (hg : g.Listed) {cells : List CellId}
    (hcells : ∀ c ∈ cells, c ∈ g.mortals) :
    cells.filter (g.heap.trace (g.starts roots)).isMarked =
      cells.filter fun c => decide ((g.collect roots).heap.Live c) := by
  refine List.filter_congr fun c hc => ?_
  have hmortal := (hg.mem_mortals c).1 (hcells c hc)
  rw [Bool.eq_iff_iff, decide_eq_true_iff, live_collect_iff hg hmortal]
  exact isMarked_trace_iff_survives hg hmortal

theorem mem_mortals_of_storage {st : Storage} (hst : st ∈ g.storages) (hc : c ∈ st.cells) :
    c ∈ g.mortals :=
  List.mem_append_left _ (List.mem_flatMap.2 ⟨st, hst, hc⟩)

theorem mem_mortals_of_orphan (hc : c ∈ g.orphans) : c ∈ g.mortals :=
  List.mem_append_right _ hc

/-- The cells a collection takes away are as many as it frees. -/
theorem card_freed (hg : g.Listed) (roots : List Value) :
    ((Finset.range g.heap.size).filter fun c =>
      g.heap.Live c ∧ ¬ (g.collect roots).heap.Live c).card =
      g.mortals.countP (!(g.heap.trace (g.starts roots)).isMarked ·) := by
  let dead := g.mortals.filter (!(g.heap.trace (g.starts roots)).isMarked ·)
  have hdead : ∀ c, c ∈ dead ↔ g.heap.Mortal c ∧ ¬ g.Survives roots c := by
    intro c
    simp only [dead, List.mem_filter, hg.mem_mortals, Bool.not_eq_true', ← Bool.not_eq_true]
    exact and_congr_right fun hc => not_congr (isMarked_trace_iff_survives hg hc)
  have hset : ((Finset.range g.heap.size).filter fun c =>
      g.heap.Live c ∧ ¬ (g.collect roots).heap.Live c) = dead.toFinset := by
    ext c
    simp only [Finset.mem_filter, Finset.mem_range, List.mem_toFinset, hdead]
    constructor
    · rintro ⟨-, hlive, hgone⟩
      have hmortal : g.heap.Mortal c := by
        by_contra hnot
        exact hgone (by simpa [Heap.Live, get?_collect_of_not_mortal hg hnot] using hlive)
      exact ⟨hmortal, mt (live_collect_iff hg hmortal).2 hgone⟩
    · rintro ⟨hmortal, hs⟩
      exact ⟨Heap.lt_size_of_live hmortal.live, hmortal.live,
        mt (live_collect_iff hg hmortal).1 hs⟩
  rw [hset, List.toFinset_card_of_nodup (hg.nodup.filter _), List.countP_eq_length_filter]

/-- What a collection from `roots` that begins in `g` and ends in `g'` does. -/
structure Exactly (g : Collector) (roots : List Value) (g' : Collector) : Prop where
  /-- The mortal survivors are the cells marked before and those at the end of a clear path. -/
  survivors : ∀ c, g.heap.Mortal c → (g'.heap.Live c ↔
    g.heap.isMarked c = true ∨ g.heap.ClearPath (roots ++ g.immortalEdges) c)
  /-- They keep their contents, and none is marked. -/
  contents : ∀ c cell, g.heap.get? c = some cell → cell.immortal = false → g'.heap.Live c →
    g'.heap.get? c = some { cell with marked := false }
  /-- Immortal cells are neither marked nor freed. -/
  immortals : ∀ c, g.heap.Immortal c → g'.heap.get? c = g.heap.get? c
  /-- Nothing comes into being. -/
  gone : ∀ c, ¬ g.heap.Live c → ¬ g'.heap.Live c
  /-- Every list keeps its survivors in their order. -/
  storages : g'.storages = g.storages.map fun st =>
    { st with cells := st.cells.filter fun c => decide (g'.heap.Live c) }
  orphans : g'.orphans = g.orphans.filter fun c => decide (g'.heap.Live c)
  /-- Frees are counted, and there are as many as cells that have gone. -/
  freed : g'.freed = g.freed + ((Finset.range g.heap.size).filter fun c =>
    g.heap.Live c ∧ ¬ g'.heap.Live c).card
  /-- From clear mark bits, the survivors are the reachable cells. -/
  reachable : (∀ c, g.heap.Mortal c → g.heap.isMarked c = false) → ∀ c, g.heap.Mortal c →
    (g'.heap.Live c ↔ g.heap.Reaches (roots ++ g.immortalEdges) c)
  /-- The worklist is empty after one round a cell. -/
  ended : (((Trace.mk g.heap []).visitAll (roots ++ g.immortalEdges)).drain g.heap.size).work = []

/-- **Exactness of a collection.** -/
theorem collect_exactly (g : Collector) (hg : g.Listed) (roots : List Value) :
    g.Exactly roots (g.collect roots) where
  survivors _ hc := live_collect_iff hg hc
  contents c cell hcell himm hlive := by
    have hmortal : g.heap.Mortal c := ⟨cell, hcell, himm⟩
    rw [get?_collect_of_survives hg hmortal ((live_collect_iff hg hmortal).1 hlive), hcell]
    rfl
  immortals _ hc := get?_collect_of_not_mortal hg fun hm => hm.not_immortal hc
  gone c hc := by
    have hmortal : ¬ g.heap.Mortal c := fun hm => hc hm.live
    simpa [Heap.Live, get?_collect_of_not_mortal hg hmortal] using hc
  storages := by
    refine List.map_congr_left fun st hst => ?_
    exact congrArg (Storage.mk st.id)
      (filter_isMarked_trace hg fun c hc => mem_mortals_of_storage hst hc)
  orphans := filter_isMarked_trace hg fun c hc => mem_mortals_of_orphan hc
  freed := by
    rw [card_freed hg]
    rfl
  reachable hfree c hc := by
    rw [live_collect_iff hg hc, Survives, hfree c hc]
    constructor
    · rintro (hm | hp)
      · cases hm
      · exact hp.reaches
    · exact fun hr => .inr (hr.clearPath hfree hc.live)
  ended := Heap.work_trace _ _

/-- Cells of every sort: a cycle 0, 1; a marked parent 2 and its child 3; an immortal cell 4 that
holds 5; and an orphan 6 that holds itself. -/
def assorted : Collector :=
  { new {} with
    heap := ⟨#[some ⟨.list #[.ref 1], false, false⟩, some ⟨.list #[.ref 0], false, false⟩,
      some ⟨.list #[.ref 3], false, true⟩, some ⟨.str "child", false, false⟩,
      some ⟨.list #[.ref 5], true, false⟩, some ⟨.str "held", false, false⟩,
      some ⟨.list #[.ref 6], false, false⟩]⟩
    storages := [⟨2, [2, 1, 0]⟩, ⟨3, [5, 3]⟩]
    orphans := [6]
    immortals := [4]
    nextId := 4 }

theorem listed_assorted : assorted.Listed := by
  refine ⟨by decide, fun c => ?_, fun c => ?_⟩
  · match c with
    | 0 | 1 | 2 | 3 | 4 | 5 | 6 => simp [assorted, mortals, Heap.Mortal, Heap.get?]
    | c + 7 => simp [assorted, mortals, Heap.Mortal, Heap.get?]
  · match c with
    | 0 | 1 | 2 | 3 | 4 | 5 | 6 => simp [assorted, Heap.Immortal, Heap.get?]
    | c + 7 => simp [assorted, Heap.Immortal, Heap.get?]

/-- The marked parent survives without its child, the orphan goes although it holds itself. -/
theorem collect_exactly_assorted : assorted.Listed ∧
    assorted.Exactly [.ref 0] (assorted.collect [.ref 0]) ∧
    (List.range 7).filter (fun c => decide ((assorted.collect [.ref 0]).heap.Live c)) =
      [0, 1, 2, 4, 5] :=
  ⟨listed_assorted, collect_exactly assorted listed_assorted [.ref 0], by decide⟩

end Collector

end ScriptCore
