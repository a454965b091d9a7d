import ScriptCore.Heap

/-!
# Equality and hash classes

Immediates compare by value, an integer and a number by what they denote exactly; strings compare
by content, mutexes by the lock they share, every other object by identity.

The hash of a value is a function of its `HashKey`.  All immediates share one key space of 64-bit
words, so nil, false and zero have the same key.
-/

namespace ScriptCore

/-- What the hash of a value is computed from. -/
inductive HashKey
  | word (w : UInt64)
  | text (s : String)
  | lock (l : LockId)
  | cell (c : CellId)
  deriving DecidableEq, Repr

namespace Heap

/-- Equality of values, asked of the left one. -/
def equal (h : Heap) : Value → Value → Bool
  | .nil, .nil => true
  | .bool a, .bool b => a == b
  | .int a, .int b => a == b
  | .float a, .float b => a.numEq b
  | .int a, .float b => b.exactInt? == some a
  | .float a, .int b => a.exactInt? == some b
  | .ref a, other =>
      match h.object? a with
      | some (.str s) => h.str? other == some s
      | some (.mutex l) => h.mutex? other == some l
      | _ => other.cell? == some a
  | _, _ => false

/-- What the hash of a value depends on. -/
def hashKey (h : Heap) : Value → HashKey
  | .nil => .word 0
  | .bool b => .word (if b then 1 else 0)
  | .int n => .word n.toUInt64
  | .float x =>
      match x.exactInt? with
      | some n => .word n.toUInt64
      | none => .word x.bits
  | .ref c =>
      match h.object? c with
      | some (.str s) => .text s
      | some (.mutex l) => .lock l
      | _ => .cell c

end Heap

end ScriptCore
