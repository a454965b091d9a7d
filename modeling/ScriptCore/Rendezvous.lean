/-!
# The rendezvous of threads with a collection

The counters that decide when a collection may run: the threads that are registered, how many of
them are parked (in a blocking region, waiting for a collection to end, or coordinating one), how
many pauses are active, and whether a collection is under way.  Each operation is what one thread
does in one critical section.
-/

namespace ScriptCore

/-- The shared counters of the rendezvous. -/
structure Rendezvous where
  mutators : Nat := 0
  parked : Nat := 0
  paused : Nat := 0
  collecting : Bool := false
  deriving DecidableEq, Repr, Inhabited

namespace Rendezvous

/-- A thread registers. -/
def enroll (r : Rendezvous) : Rendezvous := { r with mutators := r.mutators + 1 }

/-- A thread leaves for good. -/
def retire (r : Rendezvous) : Rendezvous := { r with mutators := r.mutators - 1 }

/-- A thread stops where it does not touch the heap. -/
def park (r : Rendezvous) : Rendezvous := { r with parked := r.parked + 1 }

/-- A parked thread goes on. -/
def unpark (r : Rendezvous) : Rendezvous := { r with parked := r.parked - 1 }

/-- One more reason not to collect. -/
def pause (r : Rendezvous) : Rendezvous := { r with paused := r.paused + 1 }

/-- One reason less; there has to be one. -/
def resume? (r : Rendezvous) : Option Rendezvous :=
  if r.paused = 0 then none else some { r with paused := r.paused - 1 }

/-- A thread becomes the coordinator of a collection and waits for the others. -/
def convene (r : Rendezvous) : Rendezvous := { r.park with collecting := true }

/-- Everyone registered is parked. -/
def gathered (r : Rendezvous) : Bool := decide (r.mutators ≤ r.parked)

/-- The coordinator ends the collection. -/
def dismiss (r : Rendezvous) : Rendezvous := { r.unpark with collecting := false }

/-! ### Operations that undo each other -/

@[simp] theorem retire_enroll (r : Rendezvous) : r.enroll.retire = r := rfl

@[simp] theorem unpark_park (r : Rendezvous) : r.park.unpark = r := rfl

@[simp] theorem resume?_pause (r : Rendezvous) : r.pause.resume? = some r := rfl

/-- A collection without any other thread leaves nothing but the flag. -/
@[simp] theorem dismiss_convene (r : Rendezvous) :
    r.convene.dismiss = { r with collecting := false } := rfl

theorem resume?_eq_none_iff {r : Rendezvous} : r.resume? = none ↔ r.paused = 0 := by
  simp [resume?]

end Rendezvous

end ScriptCore
