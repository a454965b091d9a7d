import ScriptCore.Double.Text

/-!
# Failures and panics

A script operation that goes wrong has a `Cause`.  What a script sees of it is a `Failure`: a kind
from a closed list and a message.  The wording of every message is in `Cause.failure`.

A `Panic` is a misuse of the machine itself: it is not an outcome a script can produce with the
built-in operations, it interrupts the thread instead of unwinding its call.

* `TypeName`: the types of values, by the name scripts see;
* `Arity`: how many arguments a callable takes;
* `ErrorKind`, `Failure`, `Cause`, `Panic`.
-/

namespace ScriptCore

/-- The types of values. -/
inductive TypeName
  | nil | bool | int | float
  | str | list | function | native | boundMethod | future | mutex | result | error
  | counter | cell | plain
  deriving DecidableEq, Repr

/-- The name scripts see. -/
def TypeName.text : TypeName → String
  | .nil => "Nil"
  | .bool => "Bool"
  | .int => "Int"
  | .float => "Float"
  | .str => "Str"
  | .list => "List"
  | .function => "Function"
  | .native => "NativeFunction"
  | .boundMethod => "BoundMethod"
  | .future => "Future"
  | .mutex => "Mutex"
  | .result => "Result"
  | .error => "Error"
  | .counter => "Counter"
  | .cell => "Cell"
  | .plain => "Plain"

/-- How many arguments a callable takes. -/
inductive Arity
  | exact (n : Nat)
  | atLeast (n : Nat)
  deriving DecidableEq, Repr

/-- The number of arguments fits. -/
def Arity.admits : Arity → Nat → Bool
  | .exact n, got => got == n
  | .atLeast n, got => decide (n ≤ got)

/-- The arithmetic instructions. -/
inductive Arith
  | add | sub | mul | div
  deriving DecidableEq, Repr

/-- The symbol an arithmetic instruction is named by in messages. -/
def Arith.symbol : Arith → String
  | .add => "+"
  | .sub => "-"
  | .mul => "*"
  | .div => "/"

/-- The closed set of failure categories. -/
inductive ErrorKind
  | argument | type | attr | arithmetic | state | thread | name | config | raised
  deriving DecidableEq, Repr

/-- The category as scripts see it. -/
def ErrorKind.text : ErrorKind → String
  | .argument => "ArgumentError"
  | .type => "TypeError"
  | .attr => "AttributeError"
  | .arithmetic => "ArithmeticError"
  | .state => "StateError"
  | .thread => "ThreadError"
  | .name => "NameError"
  | .config => "ConfigError"
  | .raised => "Error"

/-- What a script sees of something that went wrong. -/
structure Failure where
  kind : ErrorKind
  message : String
  deriving DecidableEq, Repr

namespace Failure

/-- Kind and message on one line. -/
def text (f : Failure) : String := f.kind.text ++ ": " ++ f.message

/-- A type has no such attribute, or it cannot be written. -/
def noAttribute (type name : String) : Failure :=
  ⟨.attr, "'" ++ type ++ "' object has no attribute '" ++ name ++ "'"⟩

end Failure

/-- What a native function asks of an argument. -/
inductive Expected
  | int | number | object | list | callable
  deriving DecidableEq, Repr

def Expected.text : Expected → String
  | .int => "Int"
  | .number => "number"
  | .object => "object"
  | .list => "List"
  | .callable => "callable"

/-- A setting that no machine can be made with. -/
inductive BadSetting
  | allocLimit | growthFactor | stackSize | nameStem | pollInterval
  deriving DecidableEq, Repr

def BadSetting.text : BadSetting → String
  | .allocLimit => "alloc_limit must be > 0"
  | .growthFactor => "growth_factor must be a finite number >= 1.0"
  | .stackSize => "stack_size must be > 0"
  | .nameStem => "name_prefix must not be empty"
  | .pollInterval => "poll_interval must be > 0"

/-- Why an operation failed. -/
inductive Cause
  | arity (callable : String) (arity : Arity) (got : Nat)
  | missingArgument (index : Nat)
  | argumentType (index : Nat) (expected : Expected) (got : TypeName)
  | noAttribute (type : TypeName) (name : String)
  | wrongReceiver (expected got : TypeName)
  | indexOutOfRange (index : Int64) (length : Nat)
  | noResultYet
  | alreadyResolved
  | lockedByThisThread
  | notLockedByThisThread
  | stackUnderflow
  | noConstant (code : String) (index : Nat)
  | notAName (code : String) (index : Nat)
  | noArgument (code : String) (index : Nat)
  | unboundName (name : String)
  | notCallable (type : TypeName)
  | noBytecode
  | overflow (op : Arith)
  | divisionByZero
  | unsupported (op : Arith) (left right : TypeName)
  | invalidDuration (seconds : Double)
  | negativeDuration (milliseconds : Int64)
  | limitNotPositive (limit : Int64)
  | notAFuture (index : Nat) (got : TypeName)
  /-- No thread was to be had, for a reason in the words of the system. -/
  | spawnFailed (why : String)
  | isolatePanicked (text : String)
  | notACounter
  | missingLibrary (library : String)
  | badSetting (setting : BadSetting)
  | raised (failure : Failure)
  deriving DecidableEq, Repr

/-- Kind and wording of every cause. -/
def Cause.failure : Cause → Failure
  | .arity f (.exact n) got =>
      ⟨.argument, s!"{f}() takes {n} arguments but {got} were given"⟩
  | .arity f (.atLeast n) got =>
      ⟨.argument, s!"{f}() takes at least {n} arguments but {got} were given"⟩
  | .missingArgument i => ⟨.argument, s!"missing argument {i}"⟩
  | .argumentType i e got =>
      ⟨.type, s!"argument {i}: expected " ++ e.text ++ ", got " ++ got.text⟩
  | .noAttribute t name => Failure.noAttribute t.text name
  | .wrongReceiver e got => ⟨.type, "method of " ++ e.text ++ " called on " ++ got.text⟩
  | .indexOutOfRange i n =>
      ⟨.argument, "index " ++ toString i.toInt ++ s!" out of range for list of length {n}"⟩
  | .noResultYet => ⟨.state, "future has no result yet"⟩
  | .alreadyResolved => ⟨.state, "future already has a result"⟩
  | .lockedByThisThread => ⟨.state, "mutex is already locked by this thread"⟩
  | .notLockedByThisThread => ⟨.state, "mutex is not locked by this thread"⟩
  | .stackUnderflow => ⟨.state, "operand stack underflow"⟩
  | .noConstant code i => ⟨.state, s!"{code}: no constant {i}"⟩
  | .notAName code i => ⟨.type, s!"{code}: constant {i} is not a name"⟩
  | .noArgument code i => ⟨.argument, s!"{code}: no argument {i}"⟩
  | .unboundName name => ⟨.name, "name '" ++ name ++ "' is not defined"⟩
  | .notCallable t => ⟨.type, "'" ++ t.text ++ "' object is not callable"⟩
  | .noBytecode => ⟨.type, "frame without bytecode"⟩
  | .overflow op => ⟨.arithmetic, "integer overflow in " ++ op.symbol⟩
  | .divisionByZero => ⟨.arithmetic, "division by zero"⟩
  | .unsupported op l r =>
      ⟨.type, "unsupported operand types for " ++ op.symbol ++ ": '" ++ l.text ++ "' and '" ++
        r.text ++ "'"⟩
  | .invalidDuration x => ⟨.argument, "sleep: invalid duration " ++ x.plainText⟩
  | .negativeDuration n => ⟨.argument, "sleep_ms: negative duration " ++ toString n.toInt⟩
  | .limitNotPositive n =>
      ⟨.argument, "set_alloc_limit: limit must be > 0, got " ++ toString n.toInt⟩
  | .notAFuture i got =>
      ⟨.type, s!"wait_until_completed: element {i} is " ++ got.text ++ ", expected Future"⟩
  | .spawnFailed why => ⟨.thread, "could not spawn isolate thread: " ++ why⟩
  | .isolatePanicked text => ⟨.thread, "isolate panicked: " ++ text⟩
  | .notACounter => ⟨.type, "not a Counter"⟩
  | .missingLibrary library => ⟨.config, library ++ ": missing library"⟩
  | .badSetting s => ⟨.config, s.text⟩
  | .raised f => f

/-- Why a thread was interrupted. -/
inductive Panic
  | unmatchedResume
  | secondStorage (thread : Nat)
  | storageRemovedTwice (storage : Nat)
  | foreignMutator
  | nestedBlocking
  | rootNotRegistered (root : Nat)
  | argumentCountOverflow
  | threadNameWithNul (name : String)
  | endlessText
  /-- A table larger than any address range. -/
  | capacityOverflow
  | text (message : String)
  | unprintable
  deriving DecidableEq, Repr

/-- The position of the first NUL in the bytes of a name. -/
private def nulPosition (name : String) : Nat :=
  name.toUTF8.toList.findIdx (· == 0)

/-- The words of a panic, if it has any. -/
def Panic.message? : Panic → Option String
  | .unmatchedResume => some "resume_gc without matching stop_gc"
  | .secondStorage t => some s!"thread ThreadId({t}) already has a thread storage"
  | .storageRemovedTwice s => some s!"thread storage StorageId({s}) removed twice"
  | .foreignMutator => some "mutator belongs to another collector"
  | .nestedBlocking => some "blocking regions do not nest"
  | .rootNotRegistered r => some s!"root RootId({r}) is not registered"
  | .argumentCountOverflow => some "attempt to add with overflow"
  | .threadNameWithNul name =>
      some ("thread name may not contain interior null bytes: NulError(" ++
        toString (nulPosition name) ++ ", [" ++
        ", ".intercalate (name.toUTF8.toList.map toString) ++ "])")
  | .endlessText => none
  | .capacityOverflow => some "capacity overflow"
  | .text message => some message
  | .unprintable => none

/-- A native panics with words of its own, or with something that is no text. -/
@[simp]
theorem Panic.message?_text (message : String) : (Panic.text message).message? = some message := rfl

@[simp]
theorem Panic.message?_unprintable : Panic.unprintable.message? = none := rfl

end ScriptCore
