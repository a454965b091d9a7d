import ScriptCore.Proofs.Machine.Run

/-!
# Calls that suspend a machine

A machine is suspended by a native function or a method that asks for something.  It has changed
nothing by then, and callee and arguments lie on the stack.

* `Vm.Asking`: the callee at an index of the stack, called with what lies above it, asks for
  something;
* `Vm.asking_step`, `Vm.asking_enter`: every suspension is of this kind.
-/

namespace ScriptCore

variable {me : Caller} {s s' : Store} {args : Array Value} {r : Request}

/-- A native function that asks for something has done nothing else. -/
theorem Native.store_of_suspended {f : Native} (h : f.call me args s = (s', .suspended r)) :
    s' = s := by
  have hrequest : ∀ {q : Except Cause Request}, Native.request s q = (s', .suspended r) →
      s' = s := by
    intro q hq
    cases q <;> cases hq
    rfl
  unfold Native.call at h
  split at h
  · cases f <;> simp only [Native.run] at h
    case startIsolate | waitUntilCompleted | sleep | sleepMs => exact hrequest h
    case gcCollect =>
      cases h
      rfl
    case setAllocLimit =>
      split at h
      · unfold Native.setLimit at h
        split at h <;> cases h
      · cases h
    case count | boomString => split at h <;> cases h
    all_goals cases h
  · cases h

/-- A method that asks for something has done nothing else. -/
theorem Method.store_of_suspended {m : Method} {receiver : CellId}
    (h : m.call me receiver args s = (s', .suspended r)) : s' = s := by
  have hexcept : ∀ {x : Except Cause Value}, (s, Reaction.ofExcept x) = (s', .suspended r) →
      s' = s := by
    intro x hx
    cases x <;> cases hx
  unfold Method.call at h
  split at h
  · unfold Method.run at h
    split at h
    case h_1 =>
      unfold Method.increment at h
      repeat' split at h
      all_goals cases h
    case h_3 | h_8 | h_11 => split at h <;> cases h
    case h_4 =>
      split at h
      · exact hexcept h
      · cases h
    case h_9 | h_10 =>
      cases h
      rfl
    all_goals cases h
  · cases h

namespace Vm

variable {vm vm' : Vm} {callee : Nat}

/-- What lies at an index of the stack, called with what lies above it, asks for something. -/
inductive Asking (me : Caller) (vm : Vm) (s : Store) (callee : Nat) (r : Request) : Prop
  | native {c : CellId} {f : Native} : vm.stack[callee]? = some (.ref c) →
      s.heap.object? c = some (.native f) →
      f.call me (vm.stack.drop (callee + 1)) s = (s, .suspended r) → Asking me vm s callee r
  | method {c receiver : CellId} {m : Method} : vm.stack[callee]? = some (.ref c) →
      s.heap.object? c = some (.bound receiver m) →
      m.call me receiver (vm.stack.drop (callee + 1)) s = (s, .suspended r) →
      Asking me vm s callee r

theorem Asking.lt_depth (h : Asking me vm s callee r) : callee < vm.depth := by
  cases h with
  | native hc => exact (Array.getElem?_eq_some_iff.1 hc).1
  | method hc => exact (Array.getElem?_eq_some_iff.1 hc).1

theorem answer_eq_suspended {n : Nat} {p : Store × Reaction}
    (h : vm.answer n p = (vm', s', .suspended callee r)) :
    vm' = vm ∧ callee = n ∧ p = (s', .suspended r) := by
  obtain ⟨s, reaction⟩ := p
  cases reaction <;> cases h
  exact ⟨rfl, rfl, rfl⟩

theorem asking_invoke {argc : UInt64} (h : vm.invoke me argc s = (vm', s', .suspended callee r)) :
    s' = s ∧ Asking me vm' s' callee r := by
  unfold Vm.invoke at h
  split at h
  · cases h
  split at h
  · cases h
  rename_i hdepth
  simp only at h
  generalize hn : vm.depth - (argc.toNat + 1) = n at h
  have hlt : n < vm.stack.size := by
    unfold Vm.depth at hdepth hn
    omega
  have hget : vm.stack[n]? = some (vm.stack.getD n .nil) := by
    rw [Array.getElem?_eq_getElem hlt, Array.getD, dif_pos hlt]
    rfl
  generalize vm.stack.getD n .nil = function at h hget
  -- what is called is a cell with a native function or a bound method in it
  have hcell : ∀ {o : Object}, s.heap.deref? function = some o →
      ∃ c, function = .ref c ∧ s.heap.object? c = some o := by
    intro o ho
    cases function with
    | ref c => exact ⟨c, rfl, ho⟩
    | _ => cases ho
  split at h
  · split at h <;> cases h
  · rename_i ho
    obtain ⟨c, rfl, ho⟩ := hcell ho
    obtain ⟨rfl, rfl, hcall⟩ := answer_eq_suspended h
    obtain rfl := Native.store_of_suspended hcall
    exact ⟨rfl, .native hget ho hcall⟩
  · rename_i ho
    obtain ⟨c, rfl, ho⟩ := hcell ho
    obtain ⟨rfl, rfl, hcall⟩ := answer_eq_suspended h
    obtain rfl := Method.store_of_suspended hcall
    exact ⟨rfl, .method hget ho hcall⟩
  · cases h

theorem ret_ne_suspended (vm : Vm) (s : Store) (callee : Nat) (r : Request) :
    (vm.ret s).2.2 ≠ .suspended callee r := by
  unfold Vm.ret
  repeat' split
  all_goals simp

/-- Only a call suspends its machine. -/
theorem eq_call_of_suspended {code : Code} {base : Nat} {instr : Instr}
    (h : vm.exec me code base instr s = (vm', s', .suspended callee r)) :
    ∃ argc, instr = .call argc := by
  have hpushOr : ∀ {vm₁ : Vm} {s₁ : Store} {x : Except Cause Value},
      vm₁.pushOr s₁ x ≠ (vm', s', .suspended callee r) := by
    intro vm₁ s₁ x hx
    cases x <;> cases hx
  cases instr <;> simp only [Vm.exec] at h
  case const => exact absurd h hpushOr
  case call argc => exact ⟨argc, rfl⟩
  case arith =>
    repeat' split at h
    · cases h
    · cases h
    · exact absurd h hpushOr
  case ret => exact absurd (congrArg (·.2.2) h) (ret_ne_suspended _ _ _ _)
  case raise =>
    split at h
    · cases h
    · unfold Vm.raised at h
      repeat' split at h
      all_goals cases h
  all_goals
    repeat' split at h
    all_goals cases h

/-- An instruction that suspends its machine is a call, and nothing but its place has changed. -/
theorem invoke_of_suspended (h : vm.step me s = (vm', s', .suspended callee r)) :
    ∃ frames argc, ({ vm with frames } : Vm).invoke me argc s =
      (vm', s', .suspended callee r) := by
  unfold Vm.step at h
  split at h
  · cases h
  split at h
  · simp only at h
    split at h
    · obtain ⟨argc, hinstr⟩ := eq_call_of_suspended h
      rw [hinstr] at h
      exact ⟨_, argc, h⟩
    · exact absurd (congrArg (·.2.2) h) (ret_ne_suspended _ _ _ _)
  · cases h

/-- A call that suspends its machine leaves it as it is. -/
theorem invoke_eq_suspended {argc : UInt64}
    (h : vm.invoke me argc s = (vm', s', .suspended callee r)) : vm' = vm := by
  unfold Vm.invoke at h
  split at h
  · cases h
  split at h
  · cases h
  simp only at h
  split at h
  · split at h <;> cases h
  · exact (answer_eq_suspended h).1
  · exact (answer_eq_suspended h).1
  · cases h

/-- An instruction that suspends its machine calls something that asks. -/
theorem asking_step (h : vm.step me s = (vm', s', .suspended callee r)) :
    s' = s ∧ Asking me vm' s' callee r := by
  obtain ⟨frames, argc, hinvoke⟩ := invoke_of_suspended h
  exact asking_invoke hinvoke

/-- An instruction that suspends its machine takes nothing off the stack. -/
theorem step_eq_suspended (h : vm.step me s = (vm', s', .suspended callee r)) :
    vm'.stack = vm.stack ∧ vm'.entry = vm.entry := by
  obtain ⟨frames, argc, hinvoke⟩ := invoke_of_suspended h
  rw [invoke_eq_suspended hinvoke]
  exact ⟨rfl, rfl⟩

theorem asking_enter {function : Value} {args : Array Value}
    (h : vm.enter me function args s = (vm', s', .suspended callee r)) :
    s' = s ∧ Asking me vm' s' callee r :=
  asking_invoke h

end Vm

end ScriptCore
