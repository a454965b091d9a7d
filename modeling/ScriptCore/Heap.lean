import ScriptCore.Object

/-!
# The heap

A heap is a growing table of cells.  A cell's number is its place in the table, so numbers are
never used twice; a freed cell leaves an empty place behind.

* `Cell`: an object with its mark bit and whether it is immortal;
* `get?`, `object?`: reading;
* `alloc`, `modify`, `free`: the three ways a heap changes;
* `Live`: the cell has been allocated and not been freed.
-/

namespace ScriptCore

/-- An object with its header. -/
structure Cell where
  object : Object
  /-- Never collected; its edges count as roots. -/
  immortal : Bool := false
  /-- Reached by the running trace. -/
  marked : Bool := false
  deriving DecidableEq, Repr

/-- The table of cells; `none` is the place of a freed one. -/
structure Heap where
  cells : Array (Option Cell)
  deriving DecidableEq, Repr

namespace Heap

def empty : Heap := ⟨#[]⟩

instance : Inhabited Heap := ⟨empty⟩

/-- The number of cells ever allocated. -/
def size (h : Heap) : Nat := h.cells.size

/-- The cell of that number, unless it is freed. -/
def get? (h : Heap) (c : CellId) : Option Cell := h.cells[c]?.join

/-- The object in a cell. -/
def object? (h : Heap) (c : CellId) : Option Object := (h.get? c).map (·.object)

/-- Allocated and not freed. -/
def Live (h : Heap) (c : CellId) : Prop := (h.get? c).isSome

instance (h : Heap) (c : CellId) : Decidable (h.Live c) := by unfold Live; infer_instance

/-- A new cell and its number. -/
def alloc (h : Heap) (cell : Cell) : Heap × CellId :=
  let c := h.cells.size
  (⟨h.cells.push (some cell)⟩, c)

/-- Change a cell in place. -/
def modify (h : Heap) (c : CellId) (f : Cell → Cell) : Heap :=
  ⟨h.cells.modify c (Option.map f)⟩

/-- Replace the object in a cell. -/
def setObject (h : Heap) (c : CellId) (o : Object) : Heap :=
  h.modify c fun cell => { cell with object := o }

/-- Give a cell back. -/
def free (h : Heap) (c : CellId) : Heap := ⟨h.cells.modify c fun _ => none⟩

/-! ### What reading sees after a change -/

@[simp] theorem get?_empty (c : CellId) : empty.get? c = none := by
  simp [get?, empty]

theorem get?_alloc (h : Heap) (cell : Cell) (c : CellId) :
    (h.alloc cell).1.get? c = if c = h.size then some cell else h.get? c := by
  by_cases hc : c = h.cells.size <;> simp [get?, alloc, size, Array.getElem?_push, hc]

@[simp] theorem alloc_snd (h : Heap) (cell : Cell) : (h.alloc cell).2 = h.size := rfl

@[simp] theorem size_alloc (h : Heap) (cell : Cell) : (h.alloc cell).1.size = h.size + 1 := by
  simp [alloc, size]

theorem get?_modify (h : Heap) (c d : CellId) (f : Cell → Cell) :
    (h.modify c f).get? d = if c = d then (h.get? d).map f else h.get? d := by
  simp only [get?, modify, Array.getElem?_modify]
  split
  · cases h.cells[d]? <;> simp
  · rfl

@[simp] theorem size_modify (h : Heap) (c : CellId) (f : Cell → Cell) :
    (h.modify c f).size = h.size := by
  simp [modify, size]

theorem get?_free (h : Heap) (c d : CellId) :
    (h.free c).get? d = if c = d then none else h.get? d := by
  simp only [get?, free, Array.getElem?_modify]
  split
  · cases h.cells[d]? <;> simp
  · rfl

@[simp] theorem size_free (h : Heap) (c : CellId) : (h.free c).size = h.size := by
  simp [free, size]

theorem get?_size (h : Heap) : h.get? h.size = none := by
  simp [get?, size]

theorem lt_size_of_live {h : Heap} {c : CellId} (hc : h.Live c) : c < h.size := by
  by_cases hlt : c < h.cells.size
  · exact hlt
  · simp [Live, get?, Array.getElem?_eq_none (Nat.le_of_not_lt hlt)] at hc

/-! ### Reading through values -/

/-- The type of a value.  A reference to nothing has the type of nil. -/
def typeOf (h : Heap) : Value → TypeName
  | .nil => .nil
  | .bool _ => .bool
  | .int _ => .int
  | .float _ => .float
  | .ref c => ((h.object? c).map Object.typeName).getD .nil

/-- The object a value refers to. -/
def deref? (h : Heap) : Value → Option Object
  | .ref c => h.object? c
  | _ => none

/-- The text of a string object. -/
def str? (h : Heap) (v : Value) : Option String :=
  match h.deref? v with
  | some (.str s) => some s
  | _ => none

/-- The items of a list object. -/
def list? (h : Heap) (v : Value) : Option (Array Value) :=
  match h.deref? v with
  | some (.list items) => some items
  | _ => none

/-- The slot of a future. -/
def future? (h : Heap) (v : Value) : Option (Option Value) :=
  match h.deref? v with
  | some (.future slot) => some slot
  | _ => none

/-- The lock of a mutex. -/
def mutex? (h : Heap) (v : Value) : Option LockId :=
  match h.deref? v with
  | some (.mutex l) => some l
  | _ => none

/-- The tag and payload of a result. -/
def result? (h : Heap) (v : Value) : Option (Bool × Value) :=
  match h.deref? v with
  | some (.result isError payload) => some (isError, payload)
  | _ => none

/-- The failure in an error object. -/
def error? (h : Heap) (v : Value) : Option Failure :=
  match h.deref? v with
  | some (.error f) => some f
  | _ => none

/-- The value a future cell was resolved with. -/
def resolved? (h : Heap) (c : CellId) : Option Value :=
  match h.object? c with
  | some (.future slot) => slot
  | _ => none

/-! ### Changes to single objects -/

/-- Resolve a future.  The first value stays. -/
def resolve (h : Heap) (c : CellId) (v : Value) : Except Cause Heap :=
  match h.object? c with
  | some (.future none) => .ok (h.setObject c (.future (some v)))
  | some (.future (some _)) => .error .alreadyResolved
  | _ => .ok h

/-- Only a future that is resolved already refuses a value. -/
theorem resolve_eq_error_iff {h : Heap} {c : CellId} {v : Value} {e : Cause} :
    h.resolve c v = .error e ↔ (h.resolved? c).isSome ∧ e = .alreadyResolved := by
  unfold resolve resolved?
  rcases h.object? c with _ | o
  · simp
  · cases o <;> try simp
    rename_i slot
    cases slot <;> simp [eq_comm]

/-- Append an item to a list. -/
def pushItem (h : Heap) (c : CellId) (v : Value) : Heap :=
  h.modify c fun cell =>
    match cell with
    | ⟨.list items, immortal, marked⟩ => ⟨.list (items.push v), immortal, marked⟩
    | other => other

/-! ### Mark bits -/

/-- The cell carries a mark. -/
def isMarked (h : Heap) (c : CellId) : Bool := ((h.get? c).map (·.marked)).getD false

/-- Set the mark bit. -/
def mark (h : Heap) (c : CellId) : Heap := h.modify c fun cell => { cell with marked := true }

/-- Clear the mark bit. -/
def unmark (h : Heap) (c : CellId) : Heap := h.modify c fun cell => { cell with marked := false }

/-- Marking changes no object. -/
@[simp] theorem object?_mark (h : Heap) (c d : CellId) : (h.mark c).object? d = h.object? d := by
  simp only [object?, mark, get?_modify]
  split <;> simp [Function.comp_def]

@[simp] theorem object?_unmark (h : Heap) (c d : CellId) :
    (h.unmark c).object? d = h.object? d := by
  simp only [object?, unmark, get?_modify]
  split <;> simp [Function.comp_def]

/-- Exactly the live cells can carry a mark. -/
theorem isMarked_mark (h : Heap) (c d : CellId) :
    (h.mark c).isMarked d = if c = d then (h.get? d).isSome else h.isMarked d := by
  simp only [isMarked, mark, get?_modify]
  split
  · cases h.get? d <;> simp
  · rfl

theorem isMarked_unmark (h : Heap) (c d : CellId) :
    (h.unmark c).isMarked d = if c = d then false else h.isMarked d := by
  simp only [isMarked, unmark, get?_modify]
  split
  · cases h.get? d <;> simp
  · rfl

end Heap

end ScriptCore
