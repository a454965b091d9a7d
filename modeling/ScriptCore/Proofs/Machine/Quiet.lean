import ScriptCore.Vm

/-!
# A machine leaves the counters alone

Whatever native functions, methods and instructions do to the store, they neither register nor park
a thread, begin or end no pause and no collection, and start no isolate.

* `Store.Quiet`: the rendezvous and the count of isolates are the same;
* `Native.quiet_call`, `Method.quiet_call`, `Vm.quiet_step`, `Vm.quiet_enter`.
-/

namespace ScriptCore

/-- The counters of the rendezvous and the number of isolates are the same. -/
structure Store.Quiet (s s' : Store) : Prop where
  sync : s'.collector.sync = s.collector.sync
  live : s'.live = s.live

variable {me : Caller} {s : Store}

theorem Store.Quiet.refl (s : Store) : s.Quiet s := ⟨rfl, rfl⟩

theorem Native.quiet_request (r : Except Cause Request) : s.Quiet (Native.request s r).1 := by
  unfold Native.request
  split <;> exact .refl s

theorem Native.quiet_run (f : Native) (args : Array Value) : s.Quiet (f.run me args s).1 := by
  unfold Native.run
  cases f with
  | startIsolate | waitUntilCompleted | sleep | sleepMs => exact quiet_request _
  | setAllocLimit =>
    simp only
    split
    · unfold setLimit
      split
      · exact .refl s
      · exact ⟨rfl, rfl⟩
    · exact .refl s
  | count | boomString =>
    simp only
    split <;> exact .refl s
  | _ => exact ⟨rfl, rfl⟩

theorem Native.quiet_call (f : Native) (args : Array Value) : s.Quiet (f.call me args s).1 := by
  unfold Native.call
  split
  · exact quiet_run f args
  · exact .refl s

theorem Method.quiet_increment (c : CellId) : s.Quiet (Method.increment c s).1 := by
  unfold Method.increment
  split
  · split
    · split <;> exact ⟨rfl, rfl⟩
    · exact .refl s
  · exact .refl s

theorem Method.quiet_run (m : Method) (c : CellId) (args : Array Value) :
    s.Quiet (m.run me c args s).1 := by
  unfold Method.run
  split
  · exact quiet_increment c
  all_goals first
    | exact ⟨rfl, rfl⟩
    | split <;> exact ⟨rfl, rfl⟩

theorem Method.quiet_call (m : Method) (c : CellId) (args : Array Value) :
    s.Quiet (m.call me c args s).1 := by
  unfold Method.call
  split
  · exact quiet_run m c args
  · exact .refl s

namespace Vm

variable {vm : Vm}

theorem store_answer (callee : Nat) (p : Store × Reaction) : (vm.answer callee p).2.1 = p.1 := by
  obtain ⟨s, v | e | q | q⟩ := p <;> rfl

theorem store_pushOr (r : Except Cause Value) : (vm.pushOr s r).2.1 = s := by
  cases r <;> rfl

theorem store_ret : (vm.ret s).2.1 = s := by
  unfold ret
  split
  · rfl
  · split <;> rfl

theorem quiet_arith (op : Arith) (l r : Value) : s.Quiet (arith me op l r s).1 := by
  unfold arith
  simp only
  split
  · exact .refl s
  · split
    · exact .refl s
    · split <;> exact ⟨rfl, rfl⟩

theorem quiet_invoke (argc : UInt64) : s.Quiet (vm.invoke me argc s).2.1 := by
  unfold invoke
  split
  · exact .refl s
  split
  · exact .refl s
  simp only
  split
  · split <;> exact .refl s
  · rw [store_answer]
    exact Native.quiet_call _ _
  · rw [store_answer]
    exact Method.quiet_call _ _ _
  · exact .refl s

theorem quiet_exec (code : Code) (base : Nat) (instr : Instr) :
    s.Quiet (vm.exec me code base instr s).2.1 := by
  cases instr with
  | const i =>
    rw [exec, store_pushOr]
    exact .refl s
  | arith op =>
    simp only [exec]
    split
    · exact .refl s
    · split
      · exact .refl s
      · rw [store_pushOr]
        exact quiet_arith _ _ _
  | call argc => exact quiet_invoke argc
  | ret =>
    rw [exec, store_ret]
    exact .refl s
  | setAttr i =>
    simp only [exec]
    split
    · exact .refl s
    · split
      · exact .refl s
      · split
        · exact .refl s
        · split <;> exact ⟨rfl, rfl⟩
  | getAttr i =>
    simp only [exec]
    split
    · exact .refl s
    · split
      · exact .refl s
      · split <;> exact ⟨rfl, rfl⟩
  | arg i | «global» i =>
    simp only [exec]
    split
    · exact .refl s
    · split <;> exact .refl s
  | pop | raise =>
    simp only [exec]
    split <;> exact .refl s

/-- An instruction leaves the counters alone. -/
theorem quiet_step (me : Caller) (vm : Vm) (s : Store) : s.Quiet (vm.step me s).2.1 := by
  unfold step
  split
  · exact .refl s
  · split
    · split
      · exact quiet_exec _ _ _
      · rw [store_ret]
        exact .refl s
    · exact .refl s

/-- Laying out a call leaves the counters alone. -/
theorem quiet_enter (me : Caller) (function : Value) (args : Array Value) (vm : Vm) (s : Store) :
    s.Quiet (vm.enter me function args s).2.1 :=
  quiet_invoke _

end Vm

end ScriptCore
