import ScriptCore.Heap

/-!
# Checking arguments

What native functions ask of their arguments, one check per expectation.  A check fails when the
argument is missing or of another type.
-/

namespace ScriptCore

/-- The arity check of a callable. -/
def Arity.check (arity : Arity) (callable : String) (got : Nat) : Except Cause Unit :=
  if arity.admits got then .ok () else .error (.arity callable arity got)

namespace Arguments

variable (h : Heap) (args : Array Value) (i : Nat)

/-- The argument at a position. -/
def get : Except Cause Value :=
  match args[i]? with
  | some v => .ok v
  | none => .error (.missingArgument i)

/-- The argument read in some way, or a complaint about its type. -/
def expect {α : Type} (expected : Expected) (read : Value → Option α) : Except Cause α :=
  match get args i with
  | .ok v =>
      match read v with
      | some a => .ok a
      | none => .error (.argumentType i expected (h.typeOf v))
  | .error c => .error c

def int : Except Cause Int64 := expect h args i .int Value.int?

def number : Except Cause Double := expect h args i .number Value.number?

def object : Except Cause CellId := expect h args i .object Value.cell?

def list : Except Cause (Array Value) := expect h args i .list h.list?

def callable : Except Cause CellId :=
  expect h args i .callable fun v =>
    if ((h.deref? v).map Object.isCallable).getD false then v.cell? else none

end Arguments

end ScriptCore
