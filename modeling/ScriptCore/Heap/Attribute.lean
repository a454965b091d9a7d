import ScriptCore.Heap

/-!
# Attributes

Reading an attribute gives a value or a method of the type's table; a method still has to be bound
to its receiver.  Only objects of library types have attributes that can be written.
-/

namespace ScriptCore

/-- What an attribute name stands for. -/
inductive Attribute
  | value (v : Value)
  | method (m : Method)
  deriving DecidableEq, Repr

/-- The attribute of an object. -/
def Object.attribute? (o : Object) (name : String) : Option Attribute :=
  match o, name with
  | .str s, "len" => some (.value (.int (Int64.ofNat s.length)))
  | .result isError _, "is_error" => some (.value (.bool isError))
  | .result _ payload, "payload" => some (.value payload)
  | .custom (.counter n), "value" => some (.value (.int n))
  | .custom (.cell v), "value" => some (.value v)
  | o, name => (Method.find? o.typeName name).map .method

/-- The object after an attribute was written, if it can be. -/
def Object.withAttribute? (o : Object) (name : String) (v : Value) : Option Object :=
  match o, name, v with
  | .custom (.counter _), "value", .int n => some (.custom (.counter n))
  | .custom (.cell _), "value", v => some (.custom (.cell v))
  | _, _, _ => none

namespace Heap

/-- The attribute of a value; immediates have none. -/
def attribute? (h : Heap) (v : Value) (name : String) : Option Attribute :=
  (h.deref? v).bind (·.attribute? name)

/-- The cell that writing an attribute changes, and the object it gets. -/
def attributeChange (h : Heap) (receiver : Value) (name : String) (v : Value) :
    Except Cause (CellId × Object) :=
  match receiver with
  | .ref c =>
      match (h.object? c).bind (·.withAttribute? name v) with
      | some o => .ok (c, o)
      | none => .error (.noAttribute (h.typeOf receiver) name)
  | _ => .error (.noAttribute (h.typeOf receiver) name)

end Heap

end ScriptCore
