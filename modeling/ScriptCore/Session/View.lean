import ScriptCore.Heap.Text

/-!
# Views of values

A view is a finite picture of a value: immediates and texts in full, lists and results with what
they hold down to a fixed depth, callables by their text, every other object by its type.
-/

namespace ScriptCore

/-- A finite picture of a value. -/
inductive View
  | nil
  | bool (b : Bool)
  | int (n : Int64)
  | float (x : Double)
  | str (s : String)
  | list (items : List View)
  /-- A list too deep to be looked into. -/
  | deepList (length : Nat)
  | error (f : Failure)
  | result (isError : Bool) (payload : View)
  /-- A result too deep to be looked into. -/
  | deepResult (isError : Bool)
  | callable (type : TypeName) (text : String)
  | object (type : TypeName)

/-- How deep views look into lists and results. -/
def View.depth : Nat := 6

namespace Heap

/-- The picture of a value, looking so many levels deep. -/
def viewWithin (h : Heap) : Nat → Value → View
  | _, .nil => .nil
  | _, .bool b => .bool b
  | _, .int n => .int n
  | _, .float x => .float x
  | levels, .ref c =>
      match h.object? c, levels with
      | some (.str s), _ => .str s
      | some (.list items), 0 => .deepList items.size
      | some (.list items), n + 1 => .list (items.toList.map (h.viewWithin n))
      | some (.result isError _), 0 => .deepResult isError
      | some (.result isError payload), n + 1 => .result isError (h.viewWithin n payload)
      | some (.error f), _ => .error f
      | some o, _ =>
          if o.isCallable then .callable o.typeName ((h.text? (.ref c)).getD "")
          else .object o.typeName
      | none, _ => .nil

/-- The picture of a value. -/
def view (h : Heap) (v : Value) : View := h.viewWithin View.depth v

/-- Values ordered by their texts. -/
def sortByText (h : Heap) (vs : Array Value) : Array Value :=
  let keyed := vs.toList.map fun v => ((h.text? v).getD "", v)
  ((keyed.mergeSort fun a b => !decide (b.1 < a.1)).map (·.2)).toArray

end Heap

end ScriptCore
