import ScriptCore.Heap
import ScriptCore.Text.Quoted

/-!
# The text of values

`Heap.text?` is the text scripts see.  Lists, results and resolved futures contain the texts of
what they hold, so a value that contains itself has no text; every other value has one, because a
path through containers visits each cell at most once and a heap has `size` cells.

`Heap.inspectValue` and `Heap.inspectObject` are the terse forms for inspection.
-/

namespace ScriptCore

namespace Heap

/-- How the identity of a cell or lock is written. -/
def address (n : Nat) : String := "0x" ++ Text.hex n

/-- The text of a value, entering at most `depth` containers one inside the other. -/
def textWithin (h : Heap) : Nat → Value → Option String
  | _, .nil => some "nil"
  | _, .bool b => some (if b then "true" else "false")
  | _, .int n => some (toString n.toInt)
  | _, .float x => some x.text
  | 0, .ref _ => none
  | depth + 1, .ref c =>
      match h.object? c with
      | none => none
      | some (.str s) => some s
      | some (.list items) =>
          (items.toList.mapM (h.textWithin depth)).map fun parts =>
            "[" ++ ", ".intercalate parts ++ "]"
      | some (.function code) => some ("<function " ++ code.name ++ ">")
      | some (.native f) => some ("<native function " ++ f.name ++ ">")
      | some (.bound receiver method) =>
          some ("<bound method " ++ (h.typeOf (.ref receiver)).text ++ "." ++ method.name ++ ">")
      | some (.future none) => some "<Future pending>"
      | some (.future (some v)) => (h.textWithin depth v).map fun s => "<Future " ++ s ++ ">"
      | some (.mutex l) => some ("<Mutex at " ++ address l ++ ">")
      | some (.result isError payload) =>
          (h.textWithin depth payload).map fun s =>
            (if isError then "Err(" else "Ok(") ++ s ++ ")"
      | some (.error f) => some f.text
      | some (.custom (.cell v)) => (h.textWithin depth v).map fun s => "Cell(" ++ s ++ ")"
      | some (.custom (.counter _)) => some ("<Counter at " ++ address c ++ ">")
      | some (.custom .plain) => some ("<Plain at " ++ address c ++ ">")

/-- The text of a value, if it does not contain itself. -/
def text? (h : Heap) (v : Value) : Option String := h.textWithin (h.size + 1) v

/-- The form of a value that shows what it is and not what it holds. -/
def inspectValue (h : Heap) : Value → String
  | .nil => "Nil"
  | .bool b => "Bool(" ++ (if b then "true" else "false") ++ ")"
  | .int n => "Int(" ++ toString n.toInt ++ ")"
  | .float x => "Float(" ++ x.text ++ ")"
  | .ref c => "Ref(<" ++ (h.typeOf (.ref c)).text ++ " at " ++ address c ++ ">)"

end Heap

/-- The form of an object that shows its text only where it is a text. -/
def Object.inspect : Object → String
  | .str s => "Str(" ++ Text.quoted s ++ ")"
  | .error f => "Error(" ++ f.text ++ ")"
  | o => o.typeName.text

end ScriptCore
