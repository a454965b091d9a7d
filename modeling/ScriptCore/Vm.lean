import ScriptCore.Heap.Text
import ScriptCore.Method
import ScriptCore.Native

/-!
# The virtual machine of a thread

A machine has one operand stack, shared by all its calls, and a frame for every bytecode call that
has not returned.  A frame knows its code, the next instruction and where its arguments begin; the
callee lies right below them.

* `Vm.invoke`: call what lies below the arguments;
* `Vm.step`: one instruction of the innermost frame;
* `Vm.fail`: unwind to the depth of the outermost call and leave the error there.

An instruction ends in a `Signal`; the machine itself never waits and never collects.
-/

namespace ScriptCore

/-- A bytecode call that has not returned. -/
structure Frame where
  code : CellId
  ip : Nat
  /-- Stack index of the first argument. -/
  base : Nat
  deriving DecidableEq, Repr

/-- The state of an interpreter. -/
structure Vm where
  /-- Operands, bottom first. -/
  stack : Array Value := #[]
  /-- Calls that have not returned, innermost first. -/
  frames : List Frame := []
  /-- Depth to which a failure unwinds. -/
  entry : Nat := 0
  /-- The last call failed. -/
  error : Bool := false
  deriving DecidableEq, Repr, Inhabited

/-- How an instruction ends. -/
inductive Signal
  | next
  | failed (c : Cause)
  | panicked (p : Panic)
  /-- A native call waits; its callee lies at a stack index. -/
  | suspended (callee : Nat) (r : Request)
  deriving DecidableEq, Repr

namespace Vm

/-! ### The stack -/

def depth (vm : Vm) : Nat := vm.stack.size

def push (vm : Vm) (v : Value) : Vm := { vm with stack := vm.stack.push v }

def pushAll (vm : Vm) (vs : Array Value) : Vm := { vm with stack := vm.stack ++ vs }

def peek? (vm : Vm) : Option Value := vm.stack.back?

/-- The machine without its topmost operand. -/
def dropTop (vm : Vm) : Vm := { vm with stack := vm.stack.pop }

/-- The machine without the operands from a depth on. -/
def truncate (vm : Vm) (depth : Nat) : Vm := { vm with stack := vm.stack.shrink depth }

/-! ### Calls -/

/-- Unwind and leave an error object on the stack. -/
def fail (me : Caller) (c : Cause) (vm : Vm) (s : Store) : Vm × Store :=
  let (s, e) := s.make me.storage (.error c.failure)
  (({ vm with frames := [], error := true }.truncate vm.entry).push (.ref e), s)

/-- The answer of a native call takes the place of callee and arguments. -/
def answer (vm : Vm) (callee : Nat) : Store × Reaction → Vm × Store × Signal
  | (s, .value v) => ((vm.truncate callee).push v, s, .next)
  | (s, .failed c) => (vm, s, .failed c)
  | (s, .panicked p) => (vm, s, .panicked p)
  | (s, .suspended r) => (vm, s, .suspended callee r)

/-- Call what lies below `argc` arguments.  Native functions and methods run with their arguments on
the stack; a bytecode function gets a frame. -/
def invoke (me : Caller) (argc : UInt64) (vm : Vm) (s : Store) : Vm × Store × Signal :=
  if argc.toNat + 1 = UInt64.size then (vm, s, .panicked .argumentCountOverflow)
  else if vm.depth < argc.toNat + 1 then (vm, s, .failed .stackUnderflow)
  else
    let callee := vm.depth - (argc.toNat + 1)
    let function := vm.stack.getD callee .nil
    match function, s.heap.deref? function with
    | .ref c, some (.function code) =>
        if code.arity = argc then
          ({ vm with frames := ⟨c, 0, callee + 1⟩ :: vm.frames }, s, .next)
        else (vm, s, .failed (.arity code.name (.exact code.arity.toNat) argc.toNat))
    | _, some (.native f) => vm.answer callee (f.call me (vm.stack.drop (callee + 1)) s)
    | _, some (.bound receiver m) =>
        vm.answer callee (m.call me receiver (vm.stack.drop (callee + 1)) s)
    | _, _ => (vm, s, .failed (.notCallable (s.heap.typeOf function)))

/-- Lay out a call and enter it.  The frames already there stay. -/
def enter (me : Caller) (function : Value) (args : Array Value) (vm : Vm) (s : Store) :
    Vm × Store × Signal :=
  let vm := { vm with error := false, entry := vm.depth }
  ((vm.push function).pushAll args).invoke me (UInt64.ofNat args.size) s

/-- Leave the innermost call with the topmost operand as its result. -/
def ret (vm : Vm) (s : Store) : Vm × Store × Signal :=
  match vm.peek? with
  | none => (vm, s, .failed .stackUnderflow)
  | some v =>
      match vm.frames with
      | [] => (vm, s, .next)
      | frame :: rest =>
          (({ vm.dropTop with frames := rest }.truncate (frame.base - 1)).push v, s, .next)

/-! ### Instructions -/

/-- A constant of a function. -/
def constant (code : Code) (i : UInt64) : Except Cause Value :=
  match code.constants[i.toNat]? with
  | some v => .ok v
  | none => .error (.noConstant code.name i.toNat)

/-- A constant that is a name. -/
def nameConstant (h : Heap) (code : Code) (i : UInt64) : Except Cause String :=
  match constant code i with
  | .ok v =>
      match h.str? v with
      | some name => .ok name
      | none => .error (.notAName code.name i.toNat)
  | .error c => .error c

/-- Arithmetic on integers is exact or fails. -/
def intArith (op : Arith) (a b : Int64) : Except Cause Int64 :=
  let exact (n : Int) : Except Cause Int64 :=
    match checked? n with
    | some r => .ok r
    | none => .error (.overflow op)
  match op with
  | .add => exact (a.toInt + b.toInt)
  | .sub => exact (a.toInt - b.toInt)
  | .mul => exact (a.toInt * b.toInt)
  | .div => if b = 0 then .error .divisionByZero else exact (a.toInt.tdiv b.toInt)

/-- Arithmetic on numbers. -/
def floatArith (op : Arith) (x y : Double) : Except Cause Double :=
  match op with
  | .add => .ok (x.add y)
  | .sub => .ok (x.sub y)
  | .mul => .ok (x.mul y)
  | .div => if y.isZero then .error .divisionByZero else .ok (x.div y)

/-- Arithmetic on values: integers, numbers, mixtures of both, and the sum of two strings. -/
def arith (me : Caller) (op : Arith) (l r : Value) (s : Store) : Store × Except Cause Value :=
  let unsupported : Cause := .unsupported op (s.heap.typeOf l) (s.heap.typeOf r)
  match l, r with
  | .int a, .int b => (s, (intArith op a b).map .int)
  | l, r =>
      match l.number?, r.number? with
      | some x, some y => (s, (floatArith op x y).map .float)
      | _, _ =>
          match op, s.heap.str? l, s.heap.str? r with
          | .add, some a, some b =>
              let (s, c) := s.make me.storage (.str (a ++ b))
              (s, .ok (.ref c))
          | _, _, _ => (s, .error unsupported)

/-- Push a value or fail. -/
def pushOr (vm : Vm) (s : Store) : Except Cause Value → Vm × Store × Signal
  | .ok v => (vm.push v, s, .next)
  | .error c => (vm, s, .failed c)

/-- What a raised value fails with: an error object with its own failure, anything else with its
text. -/
def raised (h : Heap) (v : Value) : Signal :=
  match h.error? v with
  | some f => .failed (.raised f)
  | none =>
      match h.text? v with
      | some t => .failed (.raised ⟨.raised, t⟩)
      | none => .panicked .endlessText

/-- One instruction of a call with code `code` and arguments from `base` on. -/
def exec (me : Caller) (code : Code) (base : Nat) (instr : Instr) (vm : Vm) (s : Store) :
    Vm × Store × Signal :=
  match instr with
  | .const i => vm.pushOr s (constant code i)
  | .arg i =>
      if code.arity ≤ i then (vm, s, .failed (.noArgument code.name i.toNat))
      else
        match vm.stack[base + i.toNat]? with
        | some v => (vm.push v, s, .next)
        | none => (vm, s, .failed .stackUnderflow)
  | .global i =>
      match nameConstant s.heap code i with
      | .error c => (vm, s, .failed c)
      | .ok name =>
          match s.global? name with
          | some v => (vm.push v, s, .next)
          | none => (vm, s, .failed (.unboundName name))
  | .arith op =>
      match vm.peek? with
      | none => (vm, s, .failed .stackUnderflow)
      | some r =>
          let vm := vm.dropTop
          match vm.peek? with
          | none => (vm, s, .failed .stackUnderflow)
          | some l =>
              let (s, result) := arith me op l r s
              vm.dropTop.pushOr s result
  | .call argc => vm.invoke me argc s
  | .getAttr i =>
      match nameConstant s.heap code i with
      | .error c => (vm, s, .failed c)
      | .ok name =>
          match vm.peek? with
          | none => (vm, s, .failed .stackUnderflow)
          | some receiver =>
              let vm := vm.dropTop
              match receiver, s.heap.attribute? receiver name with
              | _, some (.value v) => (vm.push v, s, .next)
              | .ref c, some (.method m) =>
                  let (s, b) := s.make me.storage (.bound c m)
                  (vm.push (.ref b), s, .next)
              | _, _ => (vm, s, .failed (.noAttribute (s.heap.typeOf receiver) name))
  | .setAttr i =>
      match nameConstant s.heap code i with
      | .error c => (vm, s, .failed c)
      | .ok name =>
          match vm.peek? with
          | none => (vm, s, .failed .stackUnderflow)
          | some v =>
              let vm := vm.dropTop
              match vm.peek? with
              | none => (vm, s, .failed .stackUnderflow)
              | some receiver =>
                  let vm := vm.dropTop
                  match s.heap.attributeChange receiver name v with
                  | .ok (c, o) => (vm, s.modifyHeap (·.setObject c o), .next)
                  | .error c => (vm, s, .failed c)
  | .pop =>
      match vm.peek? with
      | none => (vm, s, .failed .stackUnderflow)
      | some _ => (vm.dropTop, s, .next)
  | .ret => vm.ret s
  | .raise =>
      match vm.peek? with
      | none => (vm, s, .failed .stackUnderflow)
      | some v => (vm.dropTop, s, raised s.heap v)

/-- The next instruction of the innermost frame.  When there is none the call returns nil. -/
def step (me : Caller) (vm : Vm) (s : Store) : Vm × Store × Signal :=
  match vm.frames with
  | [] => (vm, s, .next)
  | frame :: rest =>
      match s.heap.object? frame.code with
      | some (.function code) =>
          let vm := { vm with frames := { frame with ip := frame.ip + 1 } :: rest }
          match code.instrs[frame.ip]? with
          | some instr => vm.exec me code frame.base instr s
          | none => (vm.push .nil).ret s
      | _ => (vm, s, .failed .noBytecode)

end Vm

end ScriptCore
