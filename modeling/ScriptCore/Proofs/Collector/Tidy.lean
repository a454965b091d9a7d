import ScriptCore.Proofs.Collector.Exact
import ScriptCore.Proofs.Heap.Evolution

/-!
# The bookkeeping of a collector

The invariant of the lists, names and mark bits of a collector, and the proof that every operation
keeps it.

* `Tidy`: every mortal cell is on one allocation list and carries no mark, and the names of
  allocation lists and of roots are distinct and have been drawn from the counter;
* `Tidy.make`, `Tidy.enroll`, `Tidy.retire`, …: one lemma an operation;
* `Tidy.collect`: a collection keeps it as well;
* `Tidy.object?_collect_of_reaches`, `Tidy.closed_collect`: what a collection keeps of a closed
  heap.
-/

namespace ScriptCore

namespace Heap

variable {h : Heap} {c d : CellId} {cell : Cell}

theorem mortal_alloc (hcell : cell.immortal = false) :
    (h.alloc cell).1.Mortal d ↔ d = h.size ∨ h.Mortal d := by
  simp only [Mortal, get?_alloc]
  by_cases hd : d = h.size
  · simp [hd, hcell]
  · simp [hd]

theorem mortal_alloc_immortal (hcell : cell.immortal = true) :
    (h.alloc cell).1.Mortal d ↔ h.Mortal d := by
  simp only [Mortal, get?_alloc]
  by_cases hd : d = h.size
  · simp [hd, hcell, get?_size]
  · simp [hd]

theorem immortal_alloc (hcell : cell.immortal = true) :
    (h.alloc cell).1.Immortal d ↔ d = h.size ∨ h.Immortal d := by
  simp only [Immortal, get?_alloc]
  by_cases hd : d = h.size
  · simp [hd, hcell]
  · simp [hd]

theorem immortal_alloc_mortal (hcell : cell.immortal = false) :
    (h.alloc cell).1.Immortal d ↔ h.Immortal d := by
  simp only [Immortal, get?_alloc]
  by_cases hd : d = h.size
  · simp [hd, hcell, get?_size]
  · simp [hd]

theorem isMarked_alloc (hcell : cell.marked = false) :
    (h.alloc cell).1.isMarked d = h.isMarked d := by
  simp only [isMarked, get?_alloc]
  by_cases hd : d = h.size
  · simp [hd, hcell, get?_size]
  · simp [hd]

/-- A write changes no header. -/
theorem mortal_setObject {o : Object} : (h.setObject c o).Mortal d ↔ h.Mortal d := by
  simp only [Mortal, setObject, get?_modify]
  split
  · cases h.get? d <;> simp
  · rfl

theorem immortal_setObject {o : Object} : (h.setObject c o).Immortal d ↔ h.Immortal d := by
  simp only [Immortal, setObject, get?_modify]
  split
  · cases h.get? d <;> simp
  · rfl

theorem isMarked_setObject {o : Object} : (h.setObject c o).isMarked d = h.isMarked d := by
  simp only [isMarked, setObject, get?_modify]
  split
  · cases h.get? d <;> simp
  · rfl

end Heap

/-! ### Allocation lists -/

/-- Put a cell on the lists of a name. -/
def Storage.insert (s : StorageId) (c : CellId) (st : Storage) : Storage :=
  if st.id = s then { st with cells := c :: st.cells } else st

@[simp] theorem Storage.id_insert (s : StorageId) (c : CellId) (st : Storage) :
    (st.insert s c).id = st.id := by
  unfold insert
  split <;> rfl

theorem Storage.map_insert_of_notMem {s : StorageId} {c : CellId} {sts : List Storage}
    (hs : s ∉ sts.map (·.id)) : sts.map (insert s c) = sts := by
  refine (List.map_congr_left fun st hst => ?_).trans (List.map_id sts)
  exact if_neg fun heq => hs (List.mem_map.2 ⟨st, hst, heq⟩)

/-- A list of a name that is there takes the cell once. -/
theorem Storage.perm_insert {s : StorageId} {c : CellId} {sts : List Storage}
    (hnodup : (sts.map (·.id)).Nodup) (hs : s ∈ sts.map (·.id)) :
    ((sts.map (insert s c)).flatMap (·.cells)).Perm (c :: sts.flatMap (·.cells)) := by
  induction sts with
  | nil => cases hs
  | cons st sts ih =>
    obtain ⟨hnotMem, hnodup⟩ := List.nodup_cons.1 hnodup
    simp only [List.map_cons, List.flatMap_cons]
    by_cases hst : st.id = s
    · subst hst
      rw [map_insert_of_notMem hnotMem]
      simp [insert]
    · have hs : s ∈ sts.map (·.id) := (List.mem_cons.1 hs).resolve_left (Ne.symm hst)
      have hstay : st.insert s c = st := if_neg hst
      rw [hstay]
      exact ((ih hnodup hs).append_left st.cells).trans List.perm_middle

/-- Taking a list out takes its cells out. -/
theorem Storage.perm_filter_ne {st : Storage} {sts : List Storage}
    (hnodup : (sts.map (·.id)).Nodup) (hst : st ∈ sts) :
    ((sts.filter (·.id != st.id)).flatMap (·.cells) ++ st.cells).Perm (sts.flatMap (·.cells)) := by
  induction sts with
  | nil => cases hst
  | cons a sts ih =>
    obtain ⟨hnotMem, hnodup⟩ := List.nodup_cons.1 hnodup
    rcases List.mem_cons.1 hst with rfl | hst
    · have hall : sts.filter (·.id != st.id) = sts := by
        refine List.filter_eq_self.2 fun b hb => ?_
        have hne : b.id ≠ st.id := fun heq => hnotMem (List.mem_map.2 ⟨b, hb, heq⟩)
        simpa using hne
      rw [List.filter_cons_of_neg (by simp), hall, List.flatMap_cons]
      exact List.perm_append_comm
    · have hne : a.id ≠ st.id := fun heq => hnotMem (List.mem_map.2 ⟨st, hst, heq.symm⟩)
      rw [List.filter_cons_of_pos (by simpa using hne), List.flatMap_cons, List.flatMap_cons,
        List.append_assoc]
      exact (ih hnodup hst).append_left a.cells

namespace Collector

variable {g : Collector} {s : StorageId} {c : CellId} {o : Object}

/-- The bookkeeping is in order. -/
structure Tidy (g : Collector) : Prop where
  listed : g.Listed
  unmarked : ∀ c, g.heap.Mortal c → g.heap.isMarked c = false
  storageIds : (g.storages.map (·.id)).Nodup
  storageIds_lt : ∀ s ∈ g.storages.map (·.id), s < g.nextId
  rootIds : (g.roots.map (·.1)).Nodup
  rootIds_lt : ∀ r ∈ g.roots.map (·.1), r < g.nextId

theorem tidy_new (settings : CollectorSettings) : (new settings).Tidy where
  listed := ⟨List.nodup_nil, fun c => by simp [new, mortals, Heap.Mortal],
    fun c => by simp [new, Heap.Immortal]⟩
  unmarked c hc := by simp [new, Heap.Mortal] at hc
  storageIds := List.nodup_nil
  storageIds_lt s hs := by simp [new] at hs
  rootIds := List.nodup_nil
  rootIds_lt r hr := by simp [new] at hr

namespace Tidy

/-- Counters, limits and the rendezvous play no part. -/
theorem of_eq {g' : Collector} (hg : g.Tidy) (hheap : g'.heap = g.heap)
    (hstorages : g'.storages = g.storages) (horphans : g'.orphans = g.orphans)
    (himmortals : g'.immortals = g.immortals) (hroots : g'.roots = g.roots)
    (hnext : g'.nextId = g.nextId) : g'.Tidy := by
  have hmortals : g'.mortals = g.mortals := by rw [mortals, mortals, hstorages, horphans]
  refine ⟨⟨?_, ?_, ?_⟩, ?_, ?_, ?_, ?_, ?_⟩
  · rw [hmortals]; exact hg.listed.nodup
  · rw [hmortals, hheap]; exact hg.listed.mem_mortals
  · rw [himmortals, hheap]; exact hg.listed.mem_immortals
  · rw [hheap]; exact hg.unmarked
  · rw [hstorages]; exact hg.storageIds
  · rw [hstorages, hnext]; exact hg.storageIds_lt
  · rw [hroots]; exact hg.rootIds
  · rw [hroots, hnext]; exact hg.rootIds_lt

theorem mortals_make (hg : g.Tidy) (hs : s ∈ g.storages.map (·.id)) :
    (g.make s o).1.mortals.Perm (g.heap.size :: g.mortals) :=
  (Storage.perm_insert hg.storageIds hs).append_right g.orphans

theorem ids_make (g : Collector) (s : StorageId) (o : Object) :
    (g.make s o).1.storages.map (·.id) = g.storages.map (·.id) := by
  show (g.storages.map (Storage.insert s g.heap.size)).map (·.id) = _
  simp [Function.comp_def]

theorem make (hg : g.Tidy) (hs : s ∈ g.storages.map (·.id)) (o : Object) : (g.make s o).1.Tidy := by
  have hperm := hg.mortals_make (o := o) hs
  have hfresh : g.heap.size ∉ g.mortals := by
    rw [hg.listed.mem_mortals]
    exact fun hm => (Heap.lt_size_of_live hm.live).ne rfl
  refine ⟨⟨?_, fun c => ?_, fun c => ?_⟩, fun c hc => ?_, ?_, ?_, hg.rootIds, hg.rootIds_lt⟩
  · exact hperm.nodup_iff.2 (List.nodup_cons.2 ⟨hfresh, hg.listed.nodup⟩)
  · rw [hperm.mem_iff, List.mem_cons, hg.listed.mem_mortals]
    exact (Heap.mortal_alloc rfl).symm
  · exact (hg.listed.mem_immortals c).trans (Heap.immortal_alloc_mortal rfl).symm
  · refine (Heap.isMarked_alloc rfl).trans ?_
    rcases (Heap.mortal_alloc rfl).1 hc with rfl | hc
    · simp [Heap.isMarked, Heap.get?_size]
    · exact hg.unmarked c hc
  · rw [ids_make]; exact hg.storageIds
  · rw [ids_make]; exact hg.storageIds_lt

theorem makeImmortal (hg : g.Tidy) (o : Object) : (g.makeImmortal o).1.Tidy := by
  refine ⟨⟨hg.listed.nodup, fun c => ?_, fun c => ?_⟩, fun c hc => ?_, hg.storageIds,
    hg.storageIds_lt, hg.rootIds, hg.rootIds_lt⟩
  · exact (hg.listed.mem_mortals c).trans (Heap.mortal_alloc_immortal rfl).symm
  · refine List.mem_cons.trans (Iff.trans ?_ (Heap.immortal_alloc rfl).symm)
    exact or_congr_right (hg.listed.mem_immortals c)
  · exact (Heap.isMarked_alloc rfl).trans
      (hg.unmarked c ((Heap.mortal_alloc_immortal rfl).1 hc))

theorem setObject (hg : g.Tidy) (c : CellId) (o : Object) :
    (g.withHeap (g.heap.setObject c o)).Tidy := by
  refine ⟨⟨hg.listed.nodup, fun d => ?_, fun d => ?_⟩, fun d hd => ?_, hg.storageIds,
    hg.storageIds_lt, hg.rootIds, hg.rootIds_lt⟩
  · exact (hg.listed.mem_mortals d).trans Heap.mortal_setObject.symm
  · exact (hg.listed.mem_immortals d).trans Heap.immortal_setObject.symm
  · exact Heap.isMarked_setObject.trans (hg.unmarked d (Heap.mortal_setObject.1 hd))

theorem setLimit (hg : g.Tidy) (limit : UInt64) : (g.setLimit limit).Tidy :=
  hg.of_eq rfl rfl rfl rfl rfl rfl

/-! ### Roots -/

theorem addRoot (hg : g.Tidy) (holder : Holder) : (g.addRoot holder).1.Tidy where
  listed := ⟨hg.listed.nodup, hg.listed.mem_mortals, hg.listed.mem_immortals⟩
  unmarked := hg.unmarked
  storageIds := hg.storageIds
  storageIds_lt s hs := (hg.storageIds_lt s hs).trans (Nat.lt_succ_self _)
  rootIds := List.nodup_cons.2 ⟨fun hmem => (hg.rootIds_lt _ hmem).ne rfl, hg.rootIds⟩
  rootIds_lt r hr := by
    show r < g.nextId + 1
    rcases List.mem_cons.1 hr with rfl | hr
    · exact Nat.lt_succ_self _
    · exact (hg.rootIds_lt r hr).trans (Nat.lt_succ_self _)

theorem removeRoot {g' : Collector} {id : RootId} (hg : g.Tidy) (hr : g.removeRoot id = .ok g') :
    g'.Tidy := by
  unfold Collector.removeRoot at hr
  split at hr
  · cases hr
    have hsub : ((g.roots.filter (·.1 != id)).map (·.1)).Sublist (g.roots.map (·.1)) :=
      List.filter_sublist.map _
    exact ⟨⟨hg.listed.nodup, hg.listed.mem_mortals, hg.listed.mem_immortals⟩, hg.unmarked,
      hg.storageIds, hg.storageIds_lt, hg.rootIds.sublist hsub,
      fun r hr => hg.rootIds_lt r (hsub.subset hr)⟩
  · cases hr

theorem ids_setPinned (g : Collector) (id : RootId) (vs : Array Value) :
    (g.setPinned id vs).roots.map (·.1) = g.roots.map (·.1) := by
  simp only [setPinned, List.map_map]
  refine List.map_congr_left fun r _ => ?_
  simp only [Function.comp_apply]
  split <;> rfl

theorem setPinned (hg : g.Tidy) (id : RootId) (vs : Array Value) : (g.setPinned id vs).Tidy where
  listed := ⟨hg.listed.nodup, hg.listed.mem_mortals, hg.listed.mem_immortals⟩
  unmarked := hg.unmarked
  storageIds := hg.storageIds
  storageIds_lt := hg.storageIds_lt
  rootIds := by rw [ids_setPinned]; exact hg.rootIds
  rootIds_lt := by rw [ids_setPinned]; exact hg.rootIds_lt

/-! ### Registration of threads -/

theorem enroll (hg : g.Tidy) : g.enroll.1.Tidy where
  listed := ⟨hg.listed.nodup, hg.listed.mem_mortals, hg.listed.mem_immortals⟩
  unmarked := hg.unmarked
  storageIds := List.nodup_cons.2 ⟨fun hmem => (hg.storageIds_lt _ hmem).ne rfl, hg.storageIds⟩
  storageIds_lt s hs := by
    show s < g.nextId + 1
    rcases List.mem_cons.1 hs with rfl | hs
    · exact Nat.lt_succ_self _
    · exact (hg.storageIds_lt s hs).trans (Nat.lt_succ_self _)
  rootIds := hg.rootIds
  rootIds_lt r hr := (hg.rootIds_lt r hr).trans (Nat.lt_succ_self _)

/-- What removing an allocation list does. -/
theorem retire_cases {g' : Collector} (hr : g.retire s = .ok g') :
    ∃ st ∈ g.storages, st.id = s ∧ g' = { g with
      storages := g.storages.filter (·.id != s)
      orphans := st.cells ++ g.orphans
      sync := g.sync.retire } := by
  unfold Collector.retire at hr
  split at hr
  · rename_i st hfind
    cases hr
    exact ⟨st, List.mem_of_find?_eq_some hfind, by simpa using List.find?_some hfind, rfl⟩
  · cases hr

/-- The cells of the list move to the orphans and none is lost. -/
theorem mortals_retire {g' : Collector} (hg : g.Tidy) (hr : g.retire s = .ok g') :
    g'.mortals.Perm g.mortals := by
  obtain ⟨st, hst, rfl, rfl⟩ := retire_cases hr
  show ((g.storages.filter (·.id != st.id)).flatMap (·.cells) ++ (st.cells ++ g.orphans)).Perm
    g.mortals
  rw [← List.append_assoc]
  exact (Storage.perm_filter_ne hg.storageIds hst).append_right g.orphans

theorem retire {g' : Collector} (hg : g.Tidy) (hr : g.retire s = .ok g') : g'.Tidy := by
  have hperm := hg.mortals_retire hr
  obtain ⟨st, -, rfl, rfl⟩ := retire_cases hr
  have hsub : ((g.storages.filter (·.id != st.id)).map (·.id)).Sublist (g.storages.map (·.id)) :=
    List.filter_sublist.map _
  refine ⟨⟨?_, fun c => ?_, hg.listed.mem_immortals⟩, hg.unmarked, ?_, ?_, hg.rootIds,
    hg.rootIds_lt⟩
  · exact hperm.nodup_iff.2 hg.listed.nodup
  · exact hperm.mem_iff.trans (hg.listed.mem_mortals c)
  · exact hg.storageIds.sublist hsub
  · exact fun s hs => hg.storageIds_lt s (hsub.subset hs)

/-! ### Collections -/

theorem ids_collect (g : Collector) (roots : List Value) :
    (g.collect roots).storages.map (·.id) = g.storages.map (·.id) := by
  simp [Collector.collect, Function.comp_def]

/-- The lists of survivors together are the survivors of the lists. -/
theorem mortals_collect (g : Collector) (roots : List Value) :
    (g.collect roots).mortals = g.mortals.filter (g.heap.trace (g.starts roots)).isMarked := by
  simp only [mortals, List.filter_append, List.filter_flatMap]
  refine congrArg₂ _ ?_ rfl
  exact List.flatMap_map _ _ g.storages

theorem mortal_collect_iff (hg : g.Listed) (roots : List Value) (c : CellId) :
    (g.collect roots).heap.Mortal c ↔ g.heap.Mortal c ∧ g.Survives roots c := by
  by_cases hc : g.heap.Mortal c
  · by_cases hs : g.Survives roots c
    · obtain ⟨cell, hcell, himm⟩ := id hc
      simp [Heap.Mortal, get?_collect_of_survives hg hc hs, hcell, himm, hs]
    · simp [Heap.Mortal, get?_collect_of_not_survives hg hc hs, hs]
  · have hsame : (g.collect roots).heap.get? c = g.heap.get? c := get?_collect_of_not_mortal hg hc
    simp only [hc, false_and, iff_false]
    simpa [Heap.Mortal, hsame] using hc

theorem collect (hg : g.Tidy) (roots : List Value) : (g.collect roots).Tidy := by
  have hl := hg.listed
  refine ⟨⟨?_, fun c => ?_, fun c => ?_⟩, fun c hc => ?_, ?_, ?_, hg.rootIds, hg.rootIds_lt⟩
  · rw [mortals_collect]
    exact hl.nodup.filter _
  · rw [mortals_collect, List.mem_filter, hl.mem_mortals, mortal_collect_iff hl]
    exact and_congr_right fun hc => isMarked_trace_iff_survives hl hc
  · refine (hl.mem_immortals c).trans ?_
    by_cases hc : g.heap.Mortal c
    · have hc' : ¬ (g.collect roots).heap.Immortal c := by
        rintro ⟨cell, hcell, himm⟩
        have hlive : (g.collect roots).heap.Live c := by simp [Heap.Live, hcell]
        have hmortal := (mortal_collect_iff hl roots c).2 ⟨hc, (live_collect_iff hl hc).1 hlive⟩
        exact hmortal.not_immortal ⟨cell, hcell, himm⟩
      exact iff_of_false hc.not_immortal hc'
    · have hsame : (g.collect roots).heap.get? c = g.heap.get? c :=
        get?_collect_of_not_mortal hl hc
      simp only [Heap.Immortal, hsame]
  · obtain ⟨hc, hs⟩ := (mortal_collect_iff hl roots c).1 hc
    obtain ⟨cell, hcell, -⟩ := id hc
    simp [Heap.isMarked, get?_collect_of_survives hl hc hs, hcell]
  · rw [ids_collect]; exact hg.storageIds
  · rw [ids_collect]; exact hg.storageIds_lt

/-! ### What a collection keeps -/

/-- A trace of a closed heap starts from live values. -/
theorem holds_starts (hg : g.Tidy) (hclosed : g.heap.Closed) {roots : List Value}
    (hroots : ∀ v ∈ roots, g.heap.Holds v) : ∀ v ∈ g.starts roots, g.heap.Holds v := by
  intro v hv
  rcases List.mem_append.1 hv with hv | hv
  · exact hroots v hv
  · obtain ⟨c, hc, hv⟩ := List.mem_flatMap.1 hv
    obtain ⟨o, ho⟩ := Heap.live_iff_object?.1 ((hg.listed.mem_immortals c).1 hc).live
    rw [ho] at hv
    exact hclosed c o ho v hv

/-- What is left after a collection is as it was. -/
theorem object?_of_collect (hg : g.Tidy) {roots : List Value}
    (ho : (g.collect roots).heap.object? c = some o) : g.heap.object? c = some o := by
  by_cases hm : g.heap.Mortal c
  · have hs := (live_collect_iff hg.listed hm).1 (Heap.live_iff_object?.2 ⟨o, ho⟩)
    rwa [Heap.object?, get?_collect_of_survives hg.listed hm hs, Option.map_map] at ho
  · rwa [Heap.object?, get?_collect_of_not_mortal hg.listed hm] at ho

/-- What the roots and the immortal cells reach is as it was. -/
theorem object?_collect_of_reaches (hg : g.Tidy) (hclosed : g.heap.Closed) {roots : List Value}
    (hroots : ∀ v ∈ roots, g.heap.Holds v) (hc : g.heap.Reaches (g.starts roots) c) :
    (g.collect roots).heap.object? c = g.heap.object? c := by
  have hlive := hclosed.live_of_reaches (hg.holds_starts hclosed hroots) hc
  by_cases hm : g.heap.Mortal c
  · have hs : g.Survives roots c := .inr (hc.clearPath hg.unmarked hlive)
    rw [Heap.object?, get?_collect_of_survives hg.listed hm hs, Option.map_map]
    rfl
  · rw [Heap.object?, get?_collect_of_not_mortal hg.listed hm]
    rfl

/-- An edge of a cell that outlives a collection ends in a cell that was reached. -/
theorem reaches_of_collect (hg : g.Tidy) {roots : List Value} {v : Value}
    (ho : (g.collect roots).heap.object? c = some o) (hv : v ∈ o.edges) {d : CellId}
    (hd : v = .ref d) : g.heap.Reaches (g.starts roots) d := by
  subst hd
  have hlive : (g.collect roots).heap.Live c := Heap.live_iff_object?.2 ⟨o, ho⟩
  by_cases hm : g.heap.Mortal c
  · have hs := (live_collect_iff hg.listed hm).1 hlive
    -- no mortal cell was marked before, so the cell has survived by being reached
    have hpath : g.heap.ClearPath (g.starts roots) c := by
      rcases hs with hmark | hpath
      · simp [hg.unmarked c hm] at hmark
      · exact hpath
    rw [Heap.object?, get?_collect_of_survives hg.listed hm hs, Option.map_map] at ho
    exact .step hpath.reaches ⟨o, ho, hv⟩
  · rw [Heap.object?, get?_collect_of_not_mortal hg.listed hm] at ho
    have himm : g.heap.Immortal c :=
      (Heap.live_iff.1 (Heap.live_iff_object?.2 ⟨o, ho⟩)).resolve_left hm
    refine .start (List.mem_append_right _ ?_)
    exact mem_immortalEdges ((hg.listed.mem_immortals c).2 himm) ⟨o, ho, hv⟩

theorem holds_collect_of_reaches (hg : g.Tidy) (hclosed : g.heap.Closed) {roots : List Value}
    (hroots : ∀ v ∈ roots, g.heap.Holds v) {v : Value}
    (hv : ∀ d, v = .ref d → g.heap.Reaches (g.starts roots) d) :
    (g.collect roots).heap.Holds v := by
  intro d hd
  have hlive := hclosed.live_of_reaches (hg.holds_starts hclosed hroots) (hv d hd)
  rw [Heap.live_iff_object?, hg.object?_collect_of_reaches hclosed hroots (hv d hd)]
  exact Heap.live_iff_object?.1 hlive

/-- A collection leaves a closed heap closed. -/
theorem closed_collect (hg : g.Tidy) (hclosed : g.heap.Closed) {roots : List Value}
    (hroots : ∀ v ∈ roots, g.heap.Holds v) : (g.collect roots).heap.Closed :=
  fun _ _ ho _ hv =>
    hg.holds_collect_of_reaches hclosed hroots fun _ hd => hg.reaches_of_collect ho hv hd

end Tidy

end Collector

end ScriptCore
