import ScriptCore.Heap

/-!
# Tracing

Marking everything that a list of values reaches.  The trace keeps a worklist of marked cells whose
edges are still to be followed.  Immortal cells are never marked and never enter the worklist, and
a cell that carries a mark already is taken to be traced.

A cell enters the worklist when it gets its mark, so a trace takes at most as many rounds as there
are cells.
-/

namespace ScriptCore

/-- A trace in progress. -/
structure Trace where
  heap : Heap
  /-- Marked cells whose edges are still to be followed. -/
  work : List CellId
  deriving DecidableEq, Repr

namespace Trace

/-- Meet a value: a mortal cell without a mark gets one and joins the worklist. -/
def visit (t : Trace) : Value → Trace
  | .ref c =>
      match t.heap.get? c with
      | some cell =>
          if cell.immortal || cell.marked then t else ⟨t.heap.mark c, c :: t.work⟩
      | none => t
  | _ => t

/-- Meet several values in order. -/
def visitAll (t : Trace) (vs : List Value) : Trace := vs.foldl visit t

@[simp] theorem visitAll_nil (t : Trace) : t.visitAll [] = t := rfl

@[simp] theorem visitAll_cons (t : Trace) (v : Value) (vs : List Value) :
    t.visitAll (v :: vs) = (t.visit v).visitAll vs := rfl

/-- A trace neither allocates nor frees. -/
@[simp] theorem size_visit (t : Trace) (v : Value) : (t.visit v).heap.size = t.heap.size := by
  unfold visit
  split
  · split
    · split <;> simp [Heap.mark]
    · rfl
  · rfl

@[simp] theorem size_visitAll (t : Trace) (vs : List Value) :
    (t.visitAll vs).heap.size = t.heap.size := by
  induction vs generalizing t with
  | nil => rfl
  | cons v vs ih => rw [visitAll_cons, ih, size_visit]

/-- Follow the edges of the cells on the worklist, for so many rounds. -/
def drain : Nat → Trace → Trace
  | 0, t => t
  | rounds + 1, t =>
      match t.work with
      | [] => t
      | c :: rest =>
          let edges := ((t.heap.object? c).map Object.edges).getD []
          drain rounds ((Trace.mk t.heap rest).visitAll edges)

/-- A trace without work is over. -/
theorem drain_of_work_eq_nil {t : Trace} (h : t.work = []) (rounds : Nat) :
    t.drain rounds = t := by
  cases rounds <;> simp [drain, h]

@[simp] theorem size_drain (rounds : Nat) (t : Trace) :
    (t.drain rounds).heap.size = t.heap.size := by
  fun_induction drain rounds t <;> simp_all

end Trace

/-- The heap with everything marked that the values reach. -/
def Heap.trace (h : Heap) (starts : List Value) : Heap :=
  (((Trace.mk h []).visitAll starts).drain h.size).heap

@[simp] theorem Heap.size_trace (h : Heap) (starts : List Value) :
    (h.trace starts).size = h.size := by
  simp [Heap.trace]

/-- Settle one cell after a trace: a marked cell loses its mark, an unmarked one is freed. -/
def Heap.sweepCell (h : Heap) (c : CellId) : Heap :=
  if h.isMarked c then h.unmark c else h.free c

@[simp] theorem Heap.size_sweepCell (h : Heap) (c : CellId) : (h.sweepCell c).size = h.size := by
  unfold Heap.sweepCell
  split <;> simp [Heap.unmark]

end ScriptCore
