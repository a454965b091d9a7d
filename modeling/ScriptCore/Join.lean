import ScriptCore.Heap

/-!
# Waiting for many futures

A join goes in passes.  Each pass takes over the values of the futures resolved so far, in argument
order; if some are left, the thread waits for the first of them for a while and then makes the next
pass.  A future that is listed twice gives its value twice.
-/

namespace ScriptCore

/-- A join that still waits. -/
structure Join where
  /-- Futures without a value in the last pass, in argument order. -/
  pending : List CellId
  /-- The root that keeps the listed futures alive. -/
  anchor : RootId
  /-- The root that collects the values. -/
  results : RootId
  /-- Longest wait between two passes, in nanoseconds. -/
  poll : Nat
  /-- Results are handed over with their tag. -/
  tagged : Bool
  deriving DecidableEq, Repr

namespace Join

/-- The listed values as futures, or the first that is none. -/
def futures (h : Heap) (vs : List Value) (index : Nat := 0) : Except Cause (List CellId) :=
  match vs with
  | [] => .ok []
  | v :: rest =>
      match v, h.future? v with
      | .ref c, some _ => (futures h rest (index + 1)).map (c :: ·)
      | _, _ => .error (.notAFuture index (h.typeOf v))

/-- The values of the futures that are resolved. -/
def arrived (h : Heap) (pending : List CellId) : List Value := pending.filterMap h.resolved?

/-- The futures that are not resolved. -/
def missing (h : Heap) (pending : List CellId) : List CellId :=
  pending.filter fun c => (h.resolved? c).isNone

/-- A result without its tag; every other value as it is. -/
def payload (h : Heap) (v : Value) : Value :=
  match h.result? v with
  | some (_, p) => p
  | none => v

end Join

end ScriptCore
