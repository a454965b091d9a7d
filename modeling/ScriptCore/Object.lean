import ScriptCore.Value

/-!
# Heap objects

The kinds of objects a heap cell can hold, and what they are made of.

* `Instr`, `Code`: bytecode functions;
* `Native`: the functions implemented by the machine, grouped into libraries;
* `Method`: the methods of the built-in types, one table per type;
* `Instance`: the types that libraries add;
* `Object`: any heap object, with its type and its outgoing edges.
-/

namespace ScriptCore

/-! ### Bytecode -/

/-- One instruction.  Operands are 64-bit words. -/
inductive Instr
  /-- Push a constant. -/
  | const (index : UInt64)
  /-- Push an argument of the running call. -/
  | arg (index : UInt64)
  /-- Push the global whose name is a constant. -/
  | global (index : UInt64)
  | arith (op : Arith)
  /-- Call what lies below that many arguments. -/
  | call (argc : UInt64)
  /-- Replace the receiver by the attribute whose name is a constant. -/
  | getAttr (index : UInt64)
  /-- Pop value and receiver, and store the value under the name. -/
  | setAttr (index : UInt64)
  | pop
  | ret
  /-- Pop a message or an error object and fail with it. -/
  | raise
  deriving DecidableEq, Repr

/-- A bytecode function. -/
structure Code where
  name : String
  arity : UInt64
  constants : Array Value
  instrs : Array Instr
  deriving DecidableEq, Repr

/-! ### Functions of the machine -/

/-- The native functions. -/
inductive Native
  | startIsolate | waitUntilCompleted | list | sleep | sleepMs
  | gcCollect | getAllocLimit | setAllocLimit | getAllocCount | getImmortalCount
  | mutex
  | answer | count | echo
  | shadowList
  | boomStr | boomString | boomAny | threadName
  | counter
  | cell | plain
  deriving DecidableEq, Repr

namespace Native

/-- The global name of a native function. -/
def name : Native → String
  | .startIsolate => "start_isolate"
  | .waitUntilCompleted => "wait_until_completed"
  | .list => "list"
  | .sleep => "sleep"
  | .sleepMs => "sleep_ms"
  | .gcCollect => "gc_collect"
  | .getAllocLimit => "get_alloc_limit"
  | .setAllocLimit => "set_alloc_limit"
  | .getAllocCount => "get_alloc_count"
  | .getImmortalCount => "get_immortal_count"
  | .mutex => "Mutex"
  | .answer => "answer"
  | .count => "count"
  | .echo => "echo"
  | .shadowList => "list"
  | .boomStr => "boom_str"
  | .boomString => "boom_string"
  | .boomAny => "boom_any"
  | .threadName => "thread_name"
  | .counter => "Counter"
  | .cell => "Cell"
  | .plain => "Plain"

def arity : Native → Arity
  | .startIsolate => .atLeast 1
  | .waitUntilCompleted => .exact 1
  | .list => .atLeast 0
  | .sleep => .exact 1
  | .sleepMs => .exact 1
  | .gcCollect => .exact 0
  | .getAllocLimit => .exact 0
  | .setAllocLimit => .exact 1
  | .getAllocCount => .exact 0
  | .getImmortalCount => .exact 0
  | .mutex => .exact 0
  | .answer => .exact 0
  | .count => .atLeast 0
  | .echo => .atLeast 1
  | .shadowList => .exact 0
  | .boomStr => .exact 0
  | .boomString => .exact 1
  | .boomAny => .exact 0
  | .threadName => .exact 0
  | .counter => .exact 0
  | .cell => .exact 1
  | .plain => .atLeast 0

/-- The functions for isolates, waiting and the collector, in the order they are published. -/
def sync : List Native :=
  [.startIsolate, .waitUntilCompleted, .list, .sleep, .sleepMs, .gcCollect, .getAllocLimit,
    .setAllocLimit, .getAllocCount, .getImmortalCount]

end Native

/-- A named group of native functions that is published as a whole. -/
inductive Library
  | sync | empty | broken | answers | shadow | boom | counters | cells
  deriving DecidableEq, Repr

/-- The functions a library publishes, or why it cannot be set up. -/
def Library.entries : Library → Except Cause (List Native)
  | .sync => .ok (Native.sync ++ [.mutex])
  | .empty => .ok []
  | .broken => .error (.missingLibrary "broken")
  | .answers => .ok [.answer, .count, .echo]
  | .shadow => .ok [.shadowList]
  | .boom => .ok [.boomStr, .boomString, .boomAny, .threadName]
  | .counters => .ok [.counter]
  | .cells => .ok [.cell, .plain]

/-! ### Methods -/

/-- The methods of the built-in types. -/
inductive Method
  | listLen | listPush | listGet
  | errorKind | errorMessage
  | futureHasResult | futureGetResult | futureWait
  | mutexLock | mutexUnlock
  | counterIncrement
  deriving DecidableEq, Repr

namespace Method

def name : Method → String
  | .listLen => "len"
  | .listPush => "push"
  | .listGet => "get"
  | .errorKind => "kind"
  | .errorMessage => "message"
  | .futureHasResult => "has_result"
  | .futureGetResult => "get_result"
  | .futureWait => "wait"
  | .mutexLock => "lock"
  | .mutexUnlock => "unlock"
  | .counterIncrement => "increment"

def arity : Method → Arity
  | .listPush | .listGet => .exact 1
  | _ => .exact 0

/-- The type whose table a method belongs to. -/
def owner : Method → TypeName
  | .listLen | .listPush | .listGet => .list
  | .errorKind | .errorMessage => .error
  | .futureHasResult | .futureGetResult | .futureWait => .future
  | .mutexLock | .mutexUnlock => .mutex
  | .counterIncrement => .counter

/-- The methods of a type, in table order. -/
def table : TypeName → List Method
  | .list => [.listLen, .listPush, .listGet]
  | .error => [.errorKind, .errorMessage]
  | .future => [.futureHasResult, .futureGetResult, .futureWait]
  | .mutex => [.mutexLock, .mutexUnlock]
  | .counter => [.counterIncrement]
  | _ => []

/-- The method of a type with a given name. -/
def find? (type : TypeName) (name : String) : Option Method :=
  (table type).find? (·.name == name)

end Method

/-! ### Objects -/

/-- Objects of the types that libraries add. -/
inductive Instance
  /-- An integer that can be read, written and incremented. -/
  | counter (value : Int64)
  /-- A holder of one value. -/
  | cell (value : Value)
  /-- An object without any state. -/
  | plain
  deriving DecidableEq, Repr

/-- A heap object. -/
inductive Object
  | str (text : String)
  | list (items : Array Value)
  | function (code : Code)
  | native (f : Native)
  | bound (receiver : CellId) (method : Method)
  | future (slot : Option Value)
  | mutex (lock : LockId)
  | result (isError : Bool) (payload : Value)
  | error (failure : Failure)
  | custom (i : Instance)
  deriving DecidableEq, Repr

namespace Object

def typeName : Object → TypeName
  | .str _ => .str
  | .list _ => .list
  | .function _ => .function
  | .native _ => .native
  | .bound _ _ => .boundMethod
  | .future _ => .future
  | .mutex _ => .mutex
  | .result _ _ => .result
  | .error _ => .error
  | .custom (.counter _) => .counter
  | .custom (.cell _) => .cell
  | .custom .plain => .plain

/-- The values an object holds, in visiting order. -/
def edges : Object → List Value
  | .list items => items.toList
  | .function code => code.constants.toList
  | .bound receiver _ => [.ref receiver]
  | .future (some v) => [v]
  | .result _ payload => [payload]
  | .custom (.cell v) => [v]
  | _ => []

/-- Functions, native functions and bound methods can be called. -/
def isCallable : Object → Bool
  | .function _ | .native _ | .bound _ _ => true
  | _ => false

end Object

end ScriptCore
