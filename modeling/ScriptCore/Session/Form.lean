import ScriptCore.Object

/-!
# Forms

A form describes a value to be built: an immediate, a value the session knows by name, or a new
object made of further forms.
-/

namespace ScriptCore

mutual

/-- The description of a value. -/
inductive Form
  | value (v : Value)
  /-- What a register holds. -/
  | register (name : String)
  | global (name : String)
  /-- A new object. -/
  | new (o : ObjectForm)
  /-- A new object that is never collected. -/
  | immortal (o : ObjectForm)
  /-- So many lists one inside the other around a value. -/
  | nest (depth : Nat) (core : Form)

/-- The description of a new object. -/
inductive ObjectForm
  | str (text : String)
  | list (items : List Form)
  | function (name : String) (arity : UInt64) (constants : List Form) (instrs : Array Instr)
  | future
  | mutex
  /-- A mutex on the lock of another. -/
  | share (mutex : Form)
  | error (failure : Failure)
  | result (isError : Bool) (payload : Form)
  | bound (receiver : Form) (method : Method)

end

end ScriptCore
