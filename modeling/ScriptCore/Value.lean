import ScriptCore.Failure

/-!
# Values

A value is an immediate (nil, a truth value, an integer, a number) or a reference to a heap cell.
Cells are named by numbers that are never used twice.
-/

namespace ScriptCore

/-- Name of a heap cell. -/
abbrev CellId := Nat

/-- Name of a native lock. -/
abbrev LockId := Nat

/-- Name of a thread. -/
abbrev ThreadId := Nat

/-- Name of a thread's allocation list. -/
abbrev StorageId := Nat

/-- Name of a registered root. -/
abbrev RootId := Nat

/-- Any value a script can hold. -/
inductive Value
  | nil
  | bool (b : Bool)
  | int (n : Int64)
  | float (x : Double)
  | ref (cell : CellId)
  deriving DecidableEq, Repr, Inhabited

namespace Value

/-- The cell a value refers to. -/
def cell? : Value → Option CellId
  | .ref c => some c
  | _ => none

/-- The integer a value is. -/
def int? : Value → Option Int64
  | .int n => some n
  | _ => none

/-- The number a value is; an integer counts as the number nearest to it. -/
def number? : Value → Option Double
  | .float x => some x
  | .int n => some (Double.ofInt n)
  | _ => none

/-- The truth value a value is. -/
def bool? : Value → Option Bool
  | .bool b => some b
  | _ => none

/-- Everything but nil and false counts as true. -/
def truthy : Value → Bool
  | .nil | .bool false => false
  | _ => true

end Value

end ScriptCore
