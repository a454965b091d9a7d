import ScriptCore.Arguments
import ScriptCore.Heap.Attribute
import ScriptCore.Request

/-!
# Calling methods

A method is called on a receiver with arguments: first the number of arguments is checked, then the
type of the receiver, then the arguments themselves.
-/

namespace ScriptCore.Method

/-- Increment the integer a receiver has as its `value` attribute. -/
def increment (receiver : CellId) (s : Store) : Store × Reaction :=
  match s.heap.object? receiver with
  | some (.custom i) =>
      match (Object.custom i).attribute? "value" with
      | some (.value (.int n)) =>
          match s.heap.attributeChange (.ref receiver) "value" (.int (n + 1)) with
          | .ok (c, o) => (s.modifyHeap (·.setObject c o), .value .nil)
          | .error c => (s, .failed c)
      | _ => (s, .failed .notACounter)
  | _ => (s, .failed .notACounter)

/-- The item at an index of any sign. -/
def itemAt (items : Array Value) (i : Int64) : Except Cause Value :=
  match if i.toInt < 0 then none else items[i.toInt.toNat]? with
  | some v => .ok v
  | none => .error (.indexOutOfRange i items.size)

/-- What a method does once the number of arguments is right. -/
def run (m : Method) (me : Caller) (receiver : CellId) (args : Array Value) (s : Store) :
    Store × Reaction :=
  match m, s.heap.object? receiver with
  | .counterIncrement, _ => increment receiver s
  | .listLen, some (.list items) => (s, .value (.int (Int64.ofNat items.size)))
  | .listPush, some (.list _) =>
      match Arguments.get args 0 with
      | .ok v => (s.modifyHeap (·.pushItem receiver v), .value .nil)
      | .error c => (s, .failed c)
  | .listGet, some (.list items) =>
      match Arguments.int s.heap args 0 with
      | .ok i => (s, .ofExcept (itemAt items i))
      | .error c => (s, .failed c)
  | .errorKind, some (.error f) =>
      let (s, c) := s.make me.storage (.str f.kind.text)
      (s, .value (.ref c))
  | .errorMessage, some (.error f) =>
      let (s, c) := s.make me.storage (.str f.message)
      (s, .value (.ref c))
  | .futureHasResult, some (.future slot) => (s, .value (.bool slot.isSome))
  | .futureGetResult, some (.future slot) =>
      match slot with
      | some v => (s, .value v)
      | none => (s, .failed .noResultYet)
  | .futureWait, some (.future _) => (s, .suspended (.await receiver))
  | .mutexLock, some (.mutex l) => (s, .suspended (.lock l))
  | .mutexUnlock, some (.mutex l) =>
      match (s.lock l).unlock me.thread with
      | .ok lock => (s.setLock l lock, .value .nil)
      | .error c => (s, .failed c)
  | m, _ => (s, .failed (.wrongReceiver m.owner (s.heap.typeOf (.ref receiver))))

/-- Call a method. -/
def call (m : Method) (me : Caller) (receiver : CellId) (args : Array Value) (s : Store) :
    Store × Reaction :=
  match m.arity.check m.name args.size with
  | .ok () => m.run me receiver args s
  | .error c => (s, .failed c)

end ScriptCore.Method
