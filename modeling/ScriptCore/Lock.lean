import ScriptCore.Value

/-!
# Native locks

The lock behind a mutex object.  It is not reentrant, and only the thread that took it may give it
back.  Taking a lock is three steps of the same thread, between which other threads may act: look
at the owner, acquire the lock, store oneself as the owner.
-/

namespace ScriptCore

/-- The state of a lock. -/
structure Lock where
  held : Bool := false
  owner : Option ThreadId := none
  deriving DecidableEq, Repr, Inhabited

/-- The next step of a thread that takes a lock. -/
inductive LockPhase
  | check | acquire | claim
  deriving DecidableEq, Repr

/-- What a step towards taking a lock leads to. -/
inductive LockProgress
  | next (phase : LockPhase)
  | taken
  | refused
  deriving DecidableEq, Repr

namespace Lock

/-- The step can be made now: only acquiring may have to wait. -/
def canAdvance (l : Lock) : LockPhase → Bool
  | .acquire => !l.held
  | _ => true

/-- One step of thread `t` towards taking the lock. -/
def advance (l : Lock) (t : ThreadId) : LockPhase → Lock × LockProgress
  | .check => if l.owner = some t then (l, .refused) else (l, .next .acquire)
  | .acquire => ({ l with held := true }, .next .claim)
  | .claim => ({ l with owner := some t }, .taken)

/-- Give the lock back. -/
def unlock (l : Lock) (t : ThreadId) : Except Cause Lock :=
  if l.owner = some t then .ok {} else .error .notLockedByThisThread

/-! ### Who may take a lock and give it back -/

/-- Only the owner is refused, and a refusal changes nothing. -/
theorem advance_eq_refused_iff {l m : Lock} {t : ThreadId} {phase : LockPhase} :
    l.advance t phase = (m, .refused) ↔ phase = .check ∧ l.owner = some t ∧ m = l := by
  cases phase <;> simp [advance]
  split <;> simp_all [eq_comm]

/-- Only the owner can give a lock back, and it is free afterwards. -/
theorem unlock_eq_ok_iff {l m : Lock} {t : ThreadId} :
    l.unlock t = .ok m ↔ l.owner = some t ∧ m = {} := by
  unfold unlock
  split <;> simp_all [eq_comm]

end Lock

end ScriptCore
