import Mathlib
import ScriptCore.Proofs.Collector.Tidy

/-!
# Allocation accounting

Everything that can be done to a collector, one operation after the other, and what its lists and
counters say at any time in between.

* `Operation`, `Operation.apply`: allocations, collections, the lists of threads, the limit, the
  registry of roots, writes into objects and the counters of the rendezvous;
* `History`: a collector with all operations since it was new, each with the collector it met;
* `Accounts`: the lists hold every mortal cell once, and the counters count what has happened;
* `History.accounts`: they do after any operations in any order.

A sweep gives cells back one after the other; `Heap.swept` is the list of them in that order, with
a cell that would be given back twice in it twice.
-/

namespace ScriptCore

namespace Heap

/-- The cells a sweep of a list gives back, one after the other. -/
def swept : List CellId → Heap → List CellId
  | [], _ => []
  | c :: cells, h =>
      if h.isMarked c then swept cells (h.sweepCell c) else c :: swept cells (h.sweepCell c)

/-- A sweep of distinct cells gives back those without a mark. -/
theorem swept_eq_filter {cells : List CellId} (hcells : cells.Nodup) (h : Heap) :
    swept cells h = cells.filter (!h.isMarked ·) := by
  induction cells generalizing h with
  | nil => rfl
  | cons c cells ih =>
    obtain ⟨hc, hcells⟩ := List.nodup_cons.1 hcells
    have hrest : cells.filter (!(h.sweepCell c).isMarked ·) = cells.filter (!h.isMarked ·) := by
      refine List.filter_congr fun d hd => ?_
      have hne : c ≠ d := fun heq => hc (heq ▸ hd)
      rw [isMarked_sweepCell_of_ne hne]
    cases hm : h.isMarked c <;> simp [swept, hm, ih hcells, hrest]

end Heap

namespace Collector

variable {g g' : Collector} {roots : List Value} {s : StorageId} {c : CellId}

/-- The allocation lists: one a thread, and one of the cells of threads that are gone. -/
def lists (g : Collector) : List (List CellId) := g.storages.map (·.cells) ++ [g.orphans]

/-- The number a collection subtracts from the count of cells. -/
def dead (g : Collector) (roots : List Value) : Nat :=
  g.mortals.countP (!(g.heap.trace (g.starts roots)).isMarked ·)

theorem flatten_lists (g : Collector) : g.lists.flatten = g.mortals := by
  simp [lists, mortals, List.flatMap_def]

theorem allocCount_collect (g : Collector) (roots : List Value) :
    (g.collect roots).allocCount = g.allocCount - g.dead roots := rfl

theorem freed_collect (g : Collector) (roots : List Value) :
    (g.collect roots).freed = g.freed + g.dead roots := rfl

/-- The list of cells loses as many as die. -/
theorem length_mortals_collect (g : Collector) (roots : List Value) :
    (g.collect roots).mortals.length + g.dead roots = g.mortals.length := by
  rw [Tidy.mortals_collect, dead, ← List.countP_eq_length_filter]
  simpa using (List.length_eq_countP_add_countP
    (g.heap.trace (g.starts roots)).isMarked (l := g.mortals)).symm

theorem dead_le (g : Collector) (roots : List Value) : g.dead roots ≤ g.mortals.length :=
  List.countP_le_length

/-! ### Operations -/

/-- What can be done to a collector. -/
inductive Operation
  | make (s : StorageId) (o : Object)
  | makeImmortal (o : Object)
  | collect (roots : List Value)
  /-- A thread gets an allocation list. -/
  | enroll
  /-- A thread leaves its allocation list behind. -/
  | retire (s : StorageId)
  | setLimit (limit : UInt64)
  /-- An object is replaced. -/
  | write (c : CellId) (o : Object)
  | addRoot (holder : Holder)
  | removeRoot (id : RootId)
  | setPinned (id : RootId) (vs : Array Value)
  /-- Threads park and go on, pauses begin and end, a collection begins or is over. -/
  | meet (r : Rendezvous)
  | clearRequest

namespace Operation

/-- What an operation does; one that is refused does nothing. -/
def apply (g : Collector) : Operation → Collector
  | .make s o => (g.make s o).1
  | .makeImmortal o => (g.makeImmortal o).1
  | .collect roots => g.collect roots
  | .enroll => g.enroll.1
  | .retire s => (g.retire s).toOption.getD g
  | .setLimit limit => g.setLimit limit
  | .write c o => g.withHeap (g.heap.setObject c o)
  | .addRoot holder => (g.addRoot holder).1
  | .removeRoot id => (g.removeRoot id).toOption.getD g
  | .setPinned id vs => g.setPinned id vs
  | .meet r => { g with sync := r }
  | .clearRequest => { g with requested := false }

/-- Only a thread that has an allocation list allocates. -/
def Valid (g : Collector) : Operation → Prop
  | .make s _ => s ∈ g.storages.map (·.id)
  | _ => True

/-- The operation allocates a mortal cell. -/
def makes : Operation → Bool
  | .make _ _ => true
  | _ => false

/-- The operation allocates an immortal cell. -/
def makesImmortal : Operation → Bool
  | .makeImmortal _ => true
  | _ => false

/-- The cells the operation gives back, one after the other. -/
def frees (g : Collector) : Operation → List CellId
  | .collect roots => Heap.swept g.mortals (g.heap.trace (g.starts roots))
  | _ => []

/-- What taking a root out, or trying to, leaves alone. -/
theorem removeRoot_cases (g : Collector) (id : RootId) :
    (g.removeRoot id).toOption.getD g = { g with roots := g.roots.filter (·.1 != id) } ∨
      (g.removeRoot id).toOption.getD g = g := by
  unfold Collector.removeRoot
  split
  · exact .inl rfl
  · exact .inr rfl

theorem retire_cases (g : Collector) (s : StorageId) :
    g.retire s = .ok ((Operation.retire s).apply g) ∨ (Operation.retire s).apply g = g := by
  simp only [apply]
  cases g.retire s with
  | ok g' => exact .inl rfl
  | error p => exact .inr rfl

/-- Operations keep the bookkeeping in order. -/
theorem tidy {op : Operation} (hg : g.Tidy) (hop : op.Valid g) : (op.apply g).Tidy := by
  cases op with
  | make s o => exact hg.make hop o
  | makeImmortal o => exact hg.makeImmortal o
  | collect roots => exact hg.collect roots
  | enroll => exact hg.enroll
  | retire s =>
    rcases retire_cases g s with h | h
    · exact hg.retire h
    · rw [h]
      exact hg
  | setLimit limit => exact hg.setLimit limit
  | write c o => exact hg.setObject c o
  | addRoot holder => exact hg.addRoot holder
  | removeRoot id =>
    simp only [apply]
    cases h : g.removeRoot id with
    | ok g' => exact hg.removeRoot h
    | error p => exact hg
  | setPinned id vs => exact hg.setPinned id vs
  | meet r => exact hg.of_eq rfl rfl rfl rfl rfl rfl
  | clearRequest => exact hg.of_eq rfl rfl rfl rfl rfl rfl

/-- A collection gives back the cells it counts. -/
theorem length_frees_collect (hg : g.Tidy) (roots : List Value) :
    ((Operation.collect roots).frees g).length = g.dead roots := by
  rw [frees, Heap.swept_eq_filter hg.listed.nodup, dead, List.countP_eq_length_filter]

/-- Only allocations make the lists longer and only collections make them shorter. -/
theorem length_mortals {op : Operation} (hg : g.Tidy) (hop : op.Valid g) :
    (op.apply g).mortals.length + (op.frees g).length = g.mortals.length + op.makes.toNat := by
  cases op with
  | make s o => exact (hg.mortals_make hop).length_eq
  | collect roots =>
    rw [length_frees_collect hg]
    exact g.length_mortals_collect roots
  | retire s =>
    rcases retire_cases g s with h | h
    · exact (hg.mortals_retire h).length_eq
    · rw [h]
      rfl
  | removeRoot id => rcases removeRoot_cases g id with h | h <;> rw [apply, h] <;> rfl
  | _ => rfl

/-- The counters follow the lists. -/
theorem counters (op : Operation) (hg : g.Tidy) (hcount : g.allocCount = g.mortals.length) :
    (op.apply g).allocCount + (op.frees g).length = g.allocCount + op.makes.toNat ∧
      (op.apply g).freed = g.freed + (op.frees g).length ∧
      (op.apply g).immortalCount = g.immortalCount + op.makesImmortal.toNat ∧
      g.collections ≤ (op.apply g).collections := by
  cases op with
  | collect roots =>
    have hdead : g.dead roots ≤ g.allocCount := hcount ▸ g.dead_le roots
    rw [length_frees_collect hg]
    exact ⟨Nat.sub_add_cancel hdead, rfl, rfl, Nat.le_succ _⟩
  | retire s =>
    rcases retire_cases g s with h | h
    · obtain ⟨st, -, -, heq⟩ := Tidy.retire_cases h
      rw [heq]
      exact ⟨rfl, rfl, rfl, le_rfl⟩
    · rw [h]
      exact ⟨rfl, rfl, rfl, le_rfl⟩
  | removeRoot id =>
    rcases removeRoot_cases g id with h | h <;> rw [apply, h] <;> exact ⟨rfl, rfl, rfl, le_rfl⟩
  | _ => exact ⟨rfl, rfl, rfl, le_rfl⟩

theorem size_le (op : Operation) (g : Collector) : g.heap.size ≤ (op.apply g).heap.size := by
  cases op with
  | make s o => exact (Nat.le_succ _).trans (Heap.size_alloc _ _).ge
  | makeImmortal o => exact (Nat.le_succ _).trans (Heap.size_alloc _ _).ge
  | collect roots => rw [apply, size_collect]
  | retire s =>
    rcases retire_cases g s with h | h
    · obtain ⟨st, -, -, heq⟩ := Tidy.retire_cases h
      rw [heq]
    · rw [h]
  | write d o => exact (Heap.size_modify _ _ _).ge
  | removeRoot id => rcases removeRoot_cases g id with h | h <;> rw [apply, h]
  | _ => exact le_rfl

/-- The place of a freed cell stays empty. -/
theorem get?_eq_none {op : Operation} (hg : g.Tidy) (hc : g.heap.get? c = none)
    (hlt : c < g.heap.size) : (op.apply g).heap.get? c = none := by
  have halloc : ∀ cell : Cell, (g.heap.alloc cell).1.get? c = none := fun cell => by
    rw [Heap.get?_alloc, if_neg hlt.ne, hc]
  cases op with
  | make s o => exact halloc _
  | makeImmortal o => exact halloc _
  | collect roots =>
    have hmortal : ¬ g.heap.Mortal c := by
      rintro ⟨cell, hcell, -⟩
      rw [hc] at hcell
      cases hcell
    exact (get?_collect_of_not_mortal hg.listed hmortal).trans hc
  | retire s =>
    rcases retire_cases g s with h | h
    · obtain ⟨st, -, -, heq⟩ := Tidy.retire_cases h
      rw [heq]
      exact hc
    · rw [h]
      exact hc
  | write d o =>
    show (g.heap.setObject d o).get? c = none
    rw [Heap.setObject, Heap.get?_modify, hc]
    split <;> rfl
  | removeRoot id => rcases removeRoot_cases g id with h | h <;> rw [apply, h] <;> exact hc
  | _ => exact hc

/-- What a collection gives back was live until then. -/
theorem live_of_mem_frees {op : Operation} (hg : g.Tidy) (hc : c ∈ op.frees g) :
    g.heap.Live c ∧ (op.apply g).heap.get? c = none := by
  cases op with
  | collect roots =>
    rw [frees, Heap.swept_eq_filter hg.listed.nodup, List.mem_filter] at hc
    obtain ⟨hmem, hmark⟩ := hc
    have hmortal := (hg.listed.mem_mortals c).1 hmem
    refine ⟨hmortal.live, get?_collect_of_not_survives hg.listed hmortal fun hs => ?_⟩
    simp [(isMarked_trace_iff_survives hg.listed hmortal).2 hs] at hmark
  | _ => cases hc

theorem nodup_frees (op : Operation) (hg : g.Tidy) : (op.frees g).Nodup := by
  cases op with
  | collect roots =>
    rw [frees, Heap.swept_eq_filter hg.listed.nodup]
    exact hg.listed.nodup.filter _
  | _ => exact List.nodup_nil

end Operation

/-! ### Histories -/

/-- A collector with all operations since it was new, newest first, each with the collector that it
met. -/
inductive History : List (Collector × Operation) → Collector → Prop
  | new (settings : CollectorSettings) : History [] (Collector.new settings)
  | op {past : List (Collector × Operation)} {g : Collector} {op : Operation} :
      History past g → op.Valid g → History ((g, op) :: past) (op.apply g)

/-- The cells that have been given back, newest first. -/
def freedCells (past : List (Collector × Operation)) : List CellId :=
  past.flatMap fun p => p.2.frees p.1

/-- The books of a collector are right. -/
structure Accounts (past : List (Collector × Operation)) (g : Collector) : Prop where
  /-- A mortal cell stands once on one list, and nothing else stands on any. -/
  once : ∀ c, (g.lists.map (·.count c)).sum = if g.heap.Mortal c then 1 else 0
  allocCount : g.allocCount = (g.lists.map List.length).sum
  made : g.allocCount + g.freed = past.countP (·.2.makes)
  immortalCount : g.immortalCount = past.countP (·.2.makesImmortal)
  grows : ∀ p ∈ past, p.1.freed ≤ g.freed ∧ p.1.collections ≤ g.collections
  /-- A collection takes no more from the count than there is. -/
  dead_le : ∀ roots, g.dead roots ≤ g.allocCount
  /-- No cell is given back twice. -/
  freedOnce : (freedCells past).Nodup
  freed : (freedCells past).length = g.freed
  gone : ∀ c ∈ freedCells past, ¬ g.heap.Live c

namespace History

variable {past : List (Collector × Operation)}

theorem tidy (h : History past g) : g.Tidy := by
  induction h with
  | new settings => exact tidy_new settings
  | op _ hop ih => exact Operation.tidy ih hop

/-- The count of cells is the length of the lists. -/
theorem length_mortals (h : History past g) : g.allocCount = g.mortals.length := by
  induction h with
  | new settings => rfl
  | @op past g op h hop ih =>
    have hlength := Operation.length_mortals h.tidy hop
    have hcounters := (op.counters h.tidy ih).1
    omega

/-- The counters count what has happened. -/
theorem counted (h : History past g) :
    g.allocCount + g.freed = past.countP (·.2.makes) ∧
      g.immortalCount = past.countP (·.2.makesImmortal) ∧
      (freedCells past).length = g.freed := by
  induction h with
  | new settings => exact ⟨rfl, rfl, rfl⟩
  | @op past g op h _ ih =>
    obtain ⟨hmade, himmortal, hfreed⟩ := ih
    obtain ⟨halloc, hfreed', himmortal', -⟩ := op.counters h.tidy h.length_mortals
    refine ⟨?_, ?_, ?_⟩
    · rw [List.countP_cons, ← hmade]
      cases hm : op.makes <;> simp only [hm, Bool.toNat_true, Bool.toNat_false] at halloc <;>
        simp <;> omega
    · rw [List.countP_cons, ← himmortal, himmortal']
      cases op.makesImmortal <;> rfl
    · rw [hfreed', ← hfreed, Nat.add_comm]
      exact List.length_append

/-- Counters of the past are not above those of now. -/
theorem grows (h : History past g) :
    ∀ p ∈ past, p.1.freed ≤ g.freed ∧ p.1.collections ≤ g.collections := by
  induction h with
  | new settings => simp
  | @op past g op h _ ih =>
    obtain ⟨-, hfreed, -, hcollections⟩ := op.counters h.tidy h.length_mortals
    have hle : g.freed ≤ (op.apply g).freed := hfreed ▸ Nat.le_add_right _ _
    intro p hp
    rcases List.mem_cons.1 hp with rfl | hp
    · exact ⟨hle, hcollections⟩
    · exact ⟨(ih p hp).1.trans hle, (ih p hp).2.trans hcollections⟩

/-- A cell that has been given back has an empty place that is never filled. -/
theorem freedCells_gone (h : History past g) :
    ∀ c ∈ freedCells past, g.heap.get? c = none ∧ c < g.heap.size := by
  induction h with
  | new settings => simp [freedCells]
  | @op past g op h _ ih =>
    intro c hc
    rcases List.mem_append.1 hc with hc | hc
    · obtain ⟨hlive, hnone⟩ := Operation.live_of_mem_frees h.tidy hc
      exact ⟨hnone, (Heap.lt_size_of_live hlive).trans_le (op.size_le g)⟩
    · obtain ⟨hnone, hlt⟩ := ih c hc
      exact ⟨Operation.get?_eq_none h.tidy hnone hlt, hlt.trans_le (op.size_le g)⟩

theorem nodup_freedCells (h : History past g) : (freedCells past).Nodup := by
  induction h with
  | new settings => exact List.nodup_nil
  | @op past g op h _ ih =>
    refine List.nodup_append'.2 ⟨Operation.nodup_frees op h.tidy, ih, fun c hc hc' => ?_⟩
    have hlive := (Operation.live_of_mem_frees h.tidy hc).1
    simp [Heap.Live, (h.freedCells_gone c hc').1] at hlive

/-- The books are right after any operations in any order. -/
theorem accounts (h : History past g) : Accounts past g where
  once c := by
    have hl := h.tidy.listed
    have hsum : (g.lists.map (·.count c)).sum = g.mortals.count c := by
      rw [← flatten_lists, List.count_flatten]
    rw [hsum]
    by_cases hc : g.heap.Mortal c
    · rw [if_pos hc]
      exact List.count_eq_one_of_mem hl.nodup ((hl.mem_mortals c).2 hc)
    · rw [if_neg hc]
      exact List.count_eq_zero_of_not_mem (mt (hl.mem_mortals c).1 hc)
  allocCount := by rw [h.length_mortals, ← flatten_lists, List.length_flatten]
  made := h.counted.1
  immortalCount := h.counted.2.1
  grows := h.grows
  dead_le roots := h.length_mortals ▸ g.dead_le roots
  freedOnce := h.nodup_freedCells
  freed := h.counted.2.2
  gone c hc := by simp [Heap.Live, (h.freedCells_gone c hc).1]

end History

end Collector

end ScriptCore
