import ScriptCore.Collector
import ScriptCore.Session.Form
import ScriptCore.Session.View

/-!
# Commands and answers

What a session can be told to do, and what it answers.
-/

namespace ScriptCore

/-- Something that can be shown as one line. -/
inductive Subject
  | vm | runtime | collector | mutator
  deriving DecidableEq, Repr

/-- What to do with a mutex. -/
inductive MutexAction
  | lock | unlock | locked | cycle
  deriving DecidableEq, Repr

/-- Which check of arguments to try. -/
inductive ArgumentCheck
  | int | number | object | list | callable | arity
  deriving DecidableEq, Repr

/-- A step of a session. -/
inductive Command
  -- values
  | make (v : Form) (target : Option String)
  | drop (register : String)
  | text (v : Form)
  | debugValue (v : Form)
  | debug (subject : Subject)
  | inspect (v : Form)
  | equal (a b : Form)
  | getAttr (receiver : Form) (name : String) (target : Option String)
  | setAttr (receiver v : Form) (name : String)
  | mark (v : Form)
  | unmark (v : Form)
  | edges (v : Form)
  | list (v : Form) (push : Option Form) (at? : Option Nat)
  -- machine
  | push (v : Form)
  | pop (target : Option String)
  | peek
  | stack
  | callFunction (function : Form) (args : List Form)
  | exec
  | call (function : Form) (args : List Form) (target : Option String) (sort : Bool)
  | newVm
  -- collector
  | collect
  | safepoint
  | garbage (n : Nat)
  | statistics
  | stop
  | resume
  | pause
  | unpause
  | setLimit (limit : UInt64)
  | rootCount
  | root (values : List Form) (name : String)
  | rootPush (v : Form) (name : String)
  | rootGet (name : String) (index : Nat)
  | unroot (name : String)
  | addRoot (values : List Form) (name : String) (guarded : Bool)
  | removeRoot (name : String)
  | worker (make : List Form) (target : Option String) (before after : Bool)
  | secondStorage
  | storageTwice
  | foreignVm
  | nestedBlocking
  -- futures and mutexes
  | futureSet (v future : Form)
  | future (future : Form) (waitMs : Option Nat) (wait : Bool)
  | mutex (mutex : Form) (action : MutexAction) (elsewhere : Bool)
  | sameLock (a b : Form)
  -- isolates
  | start (function : Form) (args : List Form) (target : Option String)
  | settle
  | join (futures : List Form) (tagged sort : Bool)
  | joinLate (futures : List Form) (sort : Bool)
  -- libraries and helpers
  | library (library : Library)
  | global (name : String) (target : Option String)
  | setGlobal (v : Form) (name : String)
  | arity (arity : Arity) (name : String) (got : Nat)
  | expect (check : ArgumentCheck) (args : List Form) (index : Nat)
  | failure (f : Failure)
  | methods (type : TypeName)
  | natives

/-- What `inspect` tells about a value. -/
structure Inspection where
  type : TypeName
  truthy : Bool
  isNil : Bool
  int : Option Int64
  float : Option Double
  bool : Option Bool
  isRef : Bool
  /-- Whether it is a string, list, future, mutex, result, error. -/
  is : List Bool
  immortal : Option Bool
  marked : Bool

/-- What a session answers. -/
inductive Answer
  | ok
  | flag (b : Bool)
  | number (n : Nat)
  | decimal (n : Int)
  | text (s : String)
  | view (v : View)
  | view? (v : Option View)
  | views (vs : List View)
  | debugged (value : String) (object mutex : Option String)
  | inspection (i : Inspection)
  | equality (ab ba hash : Bool)
  | attributeValue (v : View)
  | attributeMethod (m : Method)
  | noAttribute
  | listing (items : List View) (item : Option View)
  | stack (items : List View) (error : Bool)
  | laidOut (depth : Nat) (error : Bool)
  | executed (top : Option View) (depth : Nat) (error : Bool)
  | called (result : Option View) (error : Bool) (depth : Nat)
  | statistics (s : Statistics)
  | rootValues (values : List View)
  | rootItem (empty : Bool) (item : Option View)
  | armed (roots : Nat)
  | worker (before after : Option Bool) (allocCount : Nat)
  | future (has : Bool) (value waited wait : Option View)
  | settled (live : Nat)
  | bits (x : Double)
  | failureParts (f : Failure)
  | methods (ms : List (String × Arity))
  | failed (f : Failure)
  | panicked (p : Panic)
  /-- The command names something that is not there. -/
  | malformed
  /-- The command did not come to an end. -/
  | stuck

end ScriptCore
