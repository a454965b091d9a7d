import ScriptCore.Proofs.Machine.Refinement

/-!
# What a call does to the stack below it

An instruction takes its operands from the top of the stack, and nothing keeps it from taking those
of the caller. So a call returns to the stack it found only if its code takes no more than it has
pushed.

* `Vm.Trims`: an instruction cuts off at most its operands and puts values on top;
* `Vm.leftover`: what the last instruction of a call leaves of the stack;
* `Vm.Runs.last`, `Vm.ends_of_step`: what is below the result of a call is what its last instruction
  has left there;
* `runs_enter_stack`: when the stack of the caller is whole.
-/

namespace ScriptCore

namespace Vm

/-! ### What an instruction cuts off -/

/-- At most the topmost operands are cut off, and nothing but a call of the callee below them has
been added to the frames. -/
structure Trims (vm : Vm) (takes : Nat) (r : Vm × Store × Signal) : Prop where
  stack : ∃ n more, vm.depth - takes ≤ n ∧ r.1.stack = vm.stack.shrink n ++ more
  frames : r.1.frames = vm.frames ∨ ∃ c, r.1.frames = ⟨c, 0, vm.depth - takes + 1⟩ :: vm.frames ∧
    r.1.stack[vm.depth - takes]? = some (.ref c) ∧ r.2.2 = .next
  entry : r.1.entry = vm.entry
  error : r.1.error = vm.error
  callee : ∀ callee q, r.2.2 = .suspended callee q → callee = vm.depth - takes

/-- The machine without its topmost operands. -/
def drop (vm : Vm) (k : Nat) : Vm := { vm with stack := vm.stack.shrink (vm.depth - k) }

section trims

variable {vm : Vm} {s : Store} {takes k : Nat} {signal : Signal} {me : Caller}

theorem shrink_depth (vm : Vm) : vm.stack.shrink vm.depth = vm.stack := by simp [depth]

theorem drop_zero (vm : Vm) : vm.drop 0 = vm := by rw [drop, Nat.sub_zero, shrink_depth]

theorem dropTop_drop (vm : Vm) (k : Nat) : (vm.drop k).dropTop = vm.drop (k + 1) := by
  have hpop : (vm.stack.shrink (vm.depth - k)).pop = vm.stack.shrink (vm.depth - (k + 1)) := by
    apply Array.toList_inj.1
    rw [Array.toList_pop, Array.toList_shrink, Array.toList_shrink, List.dropLast_eq_take,
      List.take_take, List.length_take, Array.length_toList]
    congr 1
    unfold depth
    omega
  rw [drop, dropTop, hpop]
  rfl

theorem dropTop_eq_drop (vm : Vm) : vm.dropTop = vm.drop 1 := by
  rw [← dropTop_drop, drop_zero]

theorem trims_drop (hk : k ≤ takes) (hsignal : ∀ callee q, signal ≠ .suspended callee q) :
    vm.Trims takes (vm.drop k, s, signal) where
  stack := ⟨vm.depth - k, #[], by omega, by simp [drop]⟩
  frames := .inl rfl
  entry := rfl
  error := rfl
  callee callee q h := absurd h (hsignal callee q)

theorem trims_same (hsignal : ∀ callee q, signal ≠ .suspended callee q) :
    vm.Trims takes (vm, s, signal) := by
  have h : vm.Trims takes (vm.drop 0, s, signal) := trims_drop (Nat.zero_le _) hsignal
  rwa [drop_zero] at h

theorem trims_push (hk : k ≤ takes) (v : Value) :
    vm.Trims takes ((vm.drop k).push v, s, .next) where
  stack := ⟨vm.depth - k, #[v], by omega, by simp [drop, push]⟩
  frames := .inl rfl
  entry := rfl
  error := rfl
  callee _ _ h := by cases h

theorem trims_pushed (v : Value) : vm.Trims takes (vm.push v, s, .next) := by
  have h : vm.Trims takes ((vm.drop 0).push v, s, .next) := trims_push (Nat.zero_le _) v
  rwa [drop_zero] at h

theorem trims_pushOr (hk : k ≤ takes) (r : Except Cause Value) :
    vm.Trims takes ((vm.drop k).pushOr s r) := by
  cases r with
  | ok v => exact trims_push hk v
  | error e => exact trims_drop hk (by simp)

/-- Arguments and callee of a native call are cut off together. -/
theorem trims_answer (r : Store × Reaction) :
    vm.Trims takes (vm.answer (vm.depth - takes) r) := by
  obtain ⟨s, v | e | q | q⟩ := r
  · exact trims_push le_rfl v
  · exact trims_same (by simp)
  · exact trims_same (by simp)
  · exact { (trims_same (by simp) : vm.Trims takes (vm, s, .next)) with
      frames := .inl rfl
      callee := fun callee q h => by cases h; rfl }

theorem trims_invoke (argc : UInt64) : vm.Trims (argc.toNat + 1) (vm.invoke me argc s) := by
  unfold invoke
  split
  · exact trims_same (by simp)
  · split
    · exact trims_same (by simp)
    · simp only
      split
      · rename_i hdepth _ _ c code hfunction _
        have hseat : vm.stack[vm.depth - (argc.toNat + 1)]? = some (.ref c) := by
          have hlt : vm.depth - (argc.toNat + 1) < vm.stack.size := by
            show _ < vm.depth
            omega
          rw [← hfunction, Array.getD_eq_getD_getElem?, Array.getElem?_eq_getElem hlt]
          rfl
        split
        · exact { (trims_same (by simp) : vm.Trims (argc.toNat + 1) (vm, s, .next)) with
            frames := .inr ⟨c, rfl, hseat, rfl⟩
            callee := fun _ _ h => by cases h }
        · exact trims_same (by simp)
      · exact trims_answer _
      · exact trims_answer _
      · exact trims_same (by simp)

/-- Instructions other than a return cut off no more than their operands. -/
theorem trims_exec {code : Code} {base : Nat} {instr : Instr} (hret : instr ≠ .ret) :
    vm.Trims (instr.takes s.heap code) (vm.exec me code base instr s) := by
  have hsame : ∀ {takes} e, vm.Trims takes (vm, s, .failed e) := fun e => trims_same (by simp)
  cases instr with
  | const i =>
    rw [exec]
    cases constant code i with
    | ok v => exact trims_pushed v
    | error e => exact hsame e
  | arg i =>
    rw [exec]
    split
    · exact hsame _
    · split
      · exact trims_pushed _
      · exact hsame _
  | global i =>
    simp only [exec]
    split
    · exact hsame _
    · split
      · exact trims_pushed _
      · exact hsame _
  | arith op =>
    simp only [exec, dropTop_eq_drop vm, dropTop_drop]
    split
    · exact hsame _
    · split
      · exact trims_drop (by simp [Instr.takes]) (by simp)
      · exact trims_pushOr le_rfl _
  | call argc => exact trims_invoke argc
  | getAttr i =>
    simp only [exec, dropTop_eq_drop vm, Instr.takes]
    cases nameConstant s.heap code i with
    | error e => exact hsame e
    | ok name =>
      simp only [Except.isOk, Except.toBool, if_true]
      split
      · exact hsame _
      · split
        · exact trims_push le_rfl _
        · exact trims_push le_rfl _
        · exact trims_drop le_rfl (by simp)
  | setAttr i =>
    simp only [exec, dropTop_eq_drop vm, dropTop_drop, Instr.takes]
    cases nameConstant s.heap code i with
    | error e => exact hsame e
    | ok name =>
      simp only [Except.isOk, Except.toBool, if_true]
      split
      · exact hsame _
      · split
        · exact trims_drop (by simp) (by simp)
        · split
          · exact trims_drop le_rfl (by simp)
          · exact trims_drop le_rfl (by simp)
  | pop =>
    simp only [exec, dropTop_eq_drop vm]
    split
    · exact hsame _
    · exact trims_drop le_rfl (by simp)
  | ret => exact absurd rfl hret
  | raise =>
    simp only [exec, dropTop_eq_drop vm]
    split
    · exact hsame _
    · refine trims_drop le_rfl ?_
      unfold raised
      split
      · simp
      · split <;> simp

end trims

/-! ### Steps -/

/-- What the next instruction leaves of the stack: an instruction that is over has taken its
operands, one that fails or waits leaves the stack as it is then. -/
def leftover (me : Caller) (vm : Vm) (s : Store) : Array Value :=
  match vm.step me s with
  | (_, _, .next) => vm.stack.shrink (vm.depth - vm.demand s.heap)
  | (vm', _, _) => vm'.stack

variable {env : Surroundings} {me : Caller} {vm vm' : Vm} {s s' : Store} {x : Option Cause}
  {trace : List (Vm × Store)} {frame : Frame} {rest : List Frame} {n : Nat}

/-- The innermost call returns. -/
theorem ret_cases (vm : Vm) (s : Store) (hframes : vm.frames = frame :: rest) :
    vm.ret s = (vm, s, .failed .stackUnderflow) ∨
    ∃ v, vm.ret s = (⟨((vm.drop 1).stack.shrink (frame.base - 1)).push v, rest, vm.entry, vm.error⟩,
      s, .next) := by
  unfold ret
  split
  · exact .inl rfl
  · rename_i v _
    rw [hframes, dropTop_eq_drop]
    exact .inr ⟨v, rfl⟩

/-- An instruction cuts off its operands, or the innermost call returns. -/
theorem step_cases (me : Caller) (s : Store) (hframes : vm.frames = frame :: rest) :
    (∃ ip, { vm with frames := { frame with ip } :: rest }.Trims (vm.demand s.heap)
      (vm.step me s)) ∨
    ∃ v, vm.step me s = (⟨((vm.stack.shrink (vm.depth - vm.demand s.heap)).shrink
      (frame.base - 1)).push v, rest, vm.entry, vm.error⟩, s, .next) := by
  obtain ⟨stack, frames, entry, error⟩ := vm
  obtain rfl : frames = frame :: rest := hframes
  by_cases hcode : ∃ code, s.heap.object? frame.code = some (.function code)
  · obtain ⟨code, ho⟩ := hcode
    rcases hi : code.instrs[frame.ip]? with _ | instr
    · right
      refine ⟨.nil, ?_⟩
      simp [step, demand, ho, hi, ret, peek?, push, dropTop, truncate, depth]
    · have hstep : step me ⟨stack, frame :: rest, entry, error⟩ s =
          exec me code frame.base instr
            ⟨stack, { frame with ip := frame.ip + 1 } :: rest, entry, error⟩ s := by
        simp only [step, ho, hi]
      have hdemand : demand ⟨stack, frame :: rest, entry, error⟩ s.heap =
          instr.takes s.heap code := by
        simp [demand, ho, hi]
      rw [hstep, hdemand]
      by_cases hret : instr = .ret
      · subst hret
        rw [exec]
        rcases ret_cases ⟨stack, { frame with ip := frame.ip + 1 } :: rest, entry, error⟩ s rfl with
          h | ⟨v, h⟩ <;> rw [h]
        · exact .inl ⟨frame.ip + 1, trims_same (by simp)⟩
        · exact .inr ⟨v, rfl⟩
      · exact .inl ⟨frame.ip + 1, trims_exec hret⟩
  · replace hcode := not_exists.1 hcode
    have hstep : step me ⟨stack, frame :: rest, entry, error⟩ s =
        (⟨stack, frame :: rest, entry, error⟩, s, .failed .noBytecode) := by
      simp only [step]
    rw [hstep]
    exact .inl ⟨frame.ip, trims_same (by simp)⟩

/-! ### The depth of a call -/

/-- The outermost call was made at a depth, with its callee right above it. -/
structure CalledAt (n : Nat) (vm : Vm) : Prop where
  entry : vm.entry = n
  error : vm.error = false
  outermost : ∀ frame, vm.frames.getLast? = some frame → frame.base = n + 1

theorem CalledAt.step (h : vm.CalledAt n) (hframes : vm.frames = frame :: rest) :
    (vm.step me s).1.CalledAt n := by
  rcases step_cases me s hframes with ⟨ip, ht⟩ | ⟨v, hv⟩
  · refine ⟨ht.entry.trans h.entry, ht.error.trans h.error, ?_⟩
    have hlast : ∀ frame', ({ frame with ip } :: rest).getLast? = some frame' →
        frame'.base = n + 1 := by
      intro frame' hframe'
      cases rest with
      | nil =>
        cases hframe'
        exact h.outermost frame (by rw [hframes]; rfl)
      | cons _ _ => exact h.outermost frame' (by rw [hframes]; exact hframe')
    intro frame' hframe'
    rcases ht.frames with hf | ⟨c, hf, -⟩ <;> rw [hf] at hframe'
    · exact hlast frame' hframe'
    · exact hlast frame' hframe'
  · rw [hv]
    refine ⟨h.entry, h.error, fun frame' hframe' => h.outermost frame' ?_⟩
    rw [hframes]
    cases rest with
    | nil => cases hframe'
    | cons _ _ => exact hframe'

/-- Only the stack changes when a machine receives an outcome. -/
theorem CalledAt.receive (h : vm.CalledAt n) (callee : Nat) (o : Outcome) :
    (vm.receive me callee s o).1.CalledAt n := by
  cases o <;> exact ⟨h.entry, h.error, h.outermost⟩

/-- Before the last instruction of a run. -/
theorem Runs.last {r : Vm × Store × Signal} (hrun : Runs env me trace r vm' s' x)
    (h : r.1.CalledAt n) {vmₙ : Vm} {sₙ : Store} (hlast : trace.getLast? = some (vmₙ, sₙ)) :
    vmₙ.frames ≠ [] ∧ vmₙ.CalledAt n ∧ Runs env me [] (vmₙ.step me sₙ) vm' s' x := by
  induction hrun with
  | done | failed => cases hlast
  | granted _ _ ih => exact ih (h.receive _ _) hlast
  | @step trace vm vm' s s₀ s' x hframes hdrifts hrun ih =>
    cases trace with
    | nil =>
      cases hlast
      exact ⟨hframes, h, hrun⟩
    | cons st trace =>
      obtain ⟨frame, rest, hf⟩ := List.exists_cons_of_ne_nil hframes
      exact ih (CalledAt.step h hf) hlast

/-- The end of a call made at a depth, when `left` was left of the stack: one value on top of what
is below that depth. A failure has put an error object there. -/
structure Ends (n : Nat) (left : Array Value) (vm : Vm) (s : Store) (x : Option Cause) : Prop where
  frames : vm.frames = []
  error : vm.error = x.isSome
  stack : ∃ top, vm.stack = (left.shrink n).push top ∧
    ∀ e, x = some e → ∃ c, top = .ref c ∧ s.heap.object? c = some (.error e.failure)

theorem CalledAt.ends_failed {e : Cause} (h : vm.CalledAt n) :
    Ends n vm.stack (vm.fail me e s).1 (vm.fail me e s).2 (some e) where
  frames := rfl
  error := rfl
  stack := by
    refine ⟨.ref (s.make me.storage (.error e.failure)).2, ?_, ?_⟩
    · rw [← h.entry]
      rfl
    · rintro _ ⟨⟩
      exact ⟨_, rfl, Store.object?_make _ _ _⟩

/-- A run that needs no more instruction, although frames are left, has failed. -/
theorem ends_of_frames {r : Vm × Store × Signal} (h : r.1.CalledAt n) (hframes : r.1.frames ≠ [])
    (hrun : Runs env me [] r vm' s' x) : Ends n r.1.stack vm' s' x ∧ r.2.2 ≠ .next := by
  generalize htrace : ([] : List (Vm × Store)) = trace at hrun
  induction hrun with
  | done hnil => exact absurd hnil hframes
  | step => cases htrace
  | failed => exact ⟨h.ends_failed, by simp⟩
  | @granted trace vm vm' s s₁ s' callee r o x _ hrun ih =>
    cases o with
    | failed e => exact ⟨(ih h hframes htrace).1, by simp⟩
    | panicked q => exact absurd hrun Site.not_runs_panicked
    -- after any other answer the frames go on, which takes one more instruction
    | _ => exact absurd rfl (ih ⟨h.entry, h.error, h.outermost⟩ hframes htrace).2

/-- The end of a call, from its last instruction. -/
theorem CalledAt.ends_step (h : vm.CalledAt n) (hframes : vm.frames ≠ [])
    (hrun : Runs env me [] (vm.step me s) vm' s' x) : Ends n (vm.leftover me s) vm' s' x := by
  obtain ⟨frame, rest, hf⟩ := List.exists_cons_of_ne_nil hframes
  rcases step_cases me s hf with ⟨ip, ht⟩ | ⟨v, hv⟩
  · have hne : (vm.step me s).1.frames ≠ [] := by
      rcases ht.frames with hf | ⟨c, hf, -⟩ <;> rw [hf] <;> exact List.cons_ne_nil _ _
    obtain ⟨hends, hnext⟩ := ends_of_frames (h.step hf) hne hrun
    have hleft : vm.leftover me s = (vm.step me s).1.stack := by
      unfold leftover
      split
      · rename_i heq
        rw [heq] at hnext
        exact absurd rfl hnext
      · rename_i heq
        rw [heq]
    rwa [hleft]
  · have hleft : vm.leftover me s = vm.stack.shrink (vm.depth - vm.demand s.heap) := by
      rw [leftover, hv]
    rw [hv] at hrun
    cases hrun with
    | done hnil =>
      -- no caller waits, so the frame was that of the outermost call
      obtain rfl : rest = [] := hnil
      have hbase := h.outermost frame (by rw [hf]; rfl)
      refine ⟨rfl, h.error, v, ?_, by simp⟩
      rw [hleft, hbase, Nat.add_sub_cancel]

theorem Ends.failed_iff {left : Array Value} (h : Ends n left vm s x) :
    vm.error = true ↔ ∃ e, x = some e := by
  rw [h.error, Option.isSome_iff_exists]

theorem Ends.peek? {left : Array Value} {e : Cause} (h : Ends n left vm s x) (hx : x = some e) :
    ∃ c, vm.peek? = some (.ref c) ∧ s.heap.object? c = some (.error e.failure) := by
  obtain ⟨top, hstack, htop⟩ := h.stack
  obtain ⟨c, rfl, ho⟩ := htop e hx
  exact ⟨c, by rw [Vm.peek?, hstack, Array.back?_push], ho⟩

/-- The stack of the caller is whole if what was left of the stack begins with it. -/
theorem Ends.whole_iff {low left : Array Value} (h : Ends low.size left vm s x) :
    (∃ top, vm.stack = low.push top) ↔ ∃ more, left = low ++ more := by
  obtain ⟨top, hstack, -⟩ := h.stack
  rw [hstack]
  constructor
  · rintro ⟨top', heq⟩
    obtain ⟨-, hlow⟩ := Array.push_eq_push.1 heq
    have htake : left.toList.take low.size = low.toList := by rw [← Array.toList_shrink, hlow]
    refine ⟨(left.toList.drop low.size).toArray, Array.toList_inj.1 ?_⟩
    rw [Array.toList_append, ← htake]
    exact (List.take_append_drop _ _).symm
  · rintro ⟨more, rfl⟩
    exact ⟨top, by simp⟩

/-! ### Calls that keep to themselves -/

/-- The operands of the caller are whole, and every call lies above them. -/
structure Spares (low : Array Value) (vm : Vm) : Prop where
  stack : ∃ more, vm.stack = low ++ more
  frames : ∀ frame ∈ vm.frames, low.size < frame.base

variable {low : Array Value}

theorem shrink_append {more : Array Value} (hn : low.size ≤ n) :
    ∃ more', (low ++ more).shrink n = low ++ more' := by
  refine ⟨more.shrink (n - low.size), Array.toList_inj.1 ?_⟩
  rw [Array.toList_shrink, Array.toList_append, List.take_append, Array.toList_append,
    Array.toList_shrink, Array.length_toList, List.take_of_length_le hn]

/-- An instruction that takes no operand of the caller leaves them whole. -/
theorem Spares.step (h : vm.Spares low) (hframes : vm.frames = frame :: rest)
    (hdemand : low.size + vm.demand s.heap ≤ vm.depth) :
    (vm.step me s).1.Spares low ∧ (∃ more, vm.leftover me s = low ++ more) ∧
      ∀ callee q, (vm.step me s).2.2 = .suspended callee q → low.size ≤ callee := by
  obtain ⟨more, hstack⟩ := h.stack
  have hrest : ∀ frame' ∈ rest, low.size < frame'.base := fun frame' hframe' =>
    h.frames frame' (hframes ▸ List.mem_cons_of_mem _ hframe')
  have hbase := h.frames frame (hframes ▸ List.mem_cons_self ..)
  obtain ⟨more₁, hcut⟩ : ∃ more', vm.stack.shrink (vm.depth - vm.demand s.heap) = low ++ more' := by
    rw [hstack]
    exact shrink_append (by omega)
  rcases step_cases me s hframes with ⟨ip, ht⟩ | ⟨v, hv⟩
  -- the instruction trims the stack by no more than its operands and pushes on what is left
  · have hspared : ∃ more', (vm.step me s).1.stack = low ++ more' := by
      obtain ⟨m, more', hm, hstep⟩ := ht.stack
      have hm : vm.depth - vm.demand s.heap ≤ m := hm
      obtain ⟨more₂, hcut⟩ : ∃ more', (low ++ more).shrink m = low ++ more' :=
        shrink_append (by omega)
      exact ⟨more₂ ++ more', by rw [hstep, hstack, hcut, Array.append_assoc]⟩
    have hframe : ∀ frame' ∈ { frame with ip } :: rest, low.size < frame'.base := by
      rintro frame' (_ | ⟨_, hframe'⟩)
      · exact hbase
      · exact hrest frame' hframe'
    refine ⟨⟨hspared, ?_⟩, ?_, ?_⟩
    · rcases ht.frames with hf | ⟨c, hf, -⟩ <;> rw [hf]
      · exact hframe
      · rintro frame' (_ | ⟨_, hframe'⟩)
        · show low.size < vm.depth - vm.demand s.heap + 1
          omega
        · exact hframe frame' hframe'
    · unfold leftover
      split
      · exact ⟨more₁, hcut⟩
      · rename_i heq
        rwa [heq] at hspared
    · intro callee q hsignal
      have hcallee : callee = vm.depth - vm.demand s.heap := ht.callee callee q hsignal
      omega
  -- a return cuts the stack at the callee of its frame, which lies above the caller's operands
  · rw [leftover, hv]
    refine ⟨⟨?_, hrest⟩, ⟨more₁, hcut⟩, by simp⟩
    obtain ⟨more₂, hcut₂⟩ : ∃ more', (low ++ more₁).shrink (frame.base - 1) = low ++ more' :=
      shrink_append (by omega)
    exact ⟨more₂.push v, by simp only [hcut, hcut₂, Array.push_append]⟩

theorem Spares.receive (h : vm.Spares low) {callee : Nat} (hcallee : low.size ≤ callee)
    (o : Outcome) : (vm.receive me callee s o).1.Spares low := by
  have hpush : ∀ v, ((vm.truncate callee).push v).Spares low := by
    intro v
    obtain ⟨more, hstack⟩ := h.stack
    obtain ⟨more', hcut⟩ : ∃ more', (low ++ more).shrink callee = low ++ more' :=
      shrink_append hcallee
    refine ⟨⟨more'.push v, ?_⟩, h.frames⟩
    simp only [push, truncate, hstack, hcut, Array.push_append]
  cases o with
  | failed e | panicked q => exact h
  | _ => exact hpush _

theorem Runs.spares {r : Vm × Store × Signal} (hrun : Runs env me trace r vm' s' x)
    (h : r.1.Spares low) (hcallee : ∀ callee q, r.2.2 = .suspended callee q → low.size ≤ callee)
    (hdemand : ∀ st ∈ trace, low.size + st.1.demand st.2.heap ≤ st.1.depth) :
    ∀ st ∈ trace, ∃ more, st.1.leftover me st.2 = low ++ more := by
  induction hrun with
  | done | failed => exact List.forall_mem_nil _
  | granted _ _ ih =>
    refine ih (h.receive (hcallee _ _ rfl) _) (fun callee q hsignal => ?_) hdemand
    exact absurd hsignal (receive_not_suspended _ _ _ _ callee q)
  | step hframes hdrifts hrun ih =>
    obtain ⟨frame, rest, hf⟩ := List.exists_cons_of_ne_nil hframes
    obtain ⟨hspares, hleft, hcallee'⟩ := Spares.step h hf (hdemand _ (List.mem_cons_self ..))
    rintro st (_ | ⟨_, hst⟩)
    · exact hleft
    · exact ih hspares hcallee' (fun st hst => hdemand st (List.mem_cons_of_mem _ hst)) st hst

end Vm

/-! ### Whole calls -/

section calls

variable {env : Surroundings} {me : Caller} {function : Value} {args : Array Value} {vm vm' : Vm}
  {s s' : Store} {trace : List (Vm × Store)} {x : Option Cause}

/-- A result at the site of an outermost call is its end. -/
theorem Vm.ends_of_runs_landing {out : Except Cause Value}
    (hrun : Runs env me trace (vm.site.landing s out) vm' s' x) :
    trace = [] ∧ Ends vm.depth vm.stack vm' s' x := by
  cases out with
  | ok v =>
    cases hrun with
    | done _ => exact ⟨rfl, rfl, rfl, v, by rw [shrink_depth]; rfl, by simp⟩
    | step hframes => exact absurd rfl hframes
  | error e =>
    have hcalled : CalledAt vm.depth ⟨vm.stack, [], vm.depth, false⟩ := ⟨rfl, rfl, by simp⟩
    cases hrun with
    | failed => exact ⟨rfl, hcalled.ends_failed⟩

/-- A call that enters bytecode ends with its last instruction. -/
theorem Vm.ends_of_runs_inside {c : CellId}
    (hrun : Runs env me trace (vm.site.inside c args 0 [], s, .next) vm' s' x) :
    ∃ st, trace.getLast? = some st ∧ Ends vm.depth (st.1.leftover me st.2) vm' s' x ∧
      ((∀ st ∈ trace, vm.depth + st.1.demand st.2.heap ≤ st.1.depth) →
        ∃ more, st.1.leftover me st.2 = vm.stack ++ more) := by
  obtain ⟨st, hst⟩ : ∃ st, trace.getLast? = some st := by
    cases hrun with
    | done hnil => cases hnil
    | step => exact ⟨_, List.getLast?_eq_some_getLast (List.cons_ne_nil _ _)⟩
  have hcalled : (vm.site.inside c args 0 []).CalledAt vm.depth := by
    refine ⟨rfl, rfl, ?_⟩
    rintro _ ⟨⟩
    rfl
  have hspares : (vm.site.inside c args 0 []).Spares vm.stack := by
    refine ⟨⟨_, Site.stack_inside _ _ _ _ _⟩, ?_⟩
    rintro _ (_ | ⟨_, ⟨⟩⟩)
    exact Nat.lt_succ_self _
  obtain ⟨hne, hcalled, hlast⟩ := hrun.last hcalled hst
  refine ⟨st, hst, hcalled.ends_step hne hlast, fun hdemand => ?_⟩
  exact hrun.spares hspares (by simp) hdemand st (List.mem_of_getLast? hst)

/-- What a call leaves of the stack of its caller.  No frame is left, the error flag is up exactly
if the failure path was taken, and then an error object is on top.  Below the result the stack is
whole exactly if it was so when the last instruction had taken its operands; this is the case if no
instruction takes an operand of the caller. -/
theorem runs_enter_stack (env : Surroundings) (me : Caller) (function : Value) (args : Array Value)
    (hargs : args.size + 1 < UInt64.size) (vm : Vm) (hframes : vm.frames = []) (s : Store)
    (trace : List (Vm × Store)) (vm' : Vm) (s' : Store) (x : Option Cause)
    (hrun : Vm.Runs env me trace (vm.enter me function args s) vm' s' x) :
    vm'.frames = [] ∧ (vm'.error = true ↔ ∃ e, x = some e) ∧
    (∀ e, x = some e → ∃ c, vm'.peek? = some (.ref c) ∧
      s'.heap.object? c = some (.error e.failure)) ∧
    ((∃ top, vm'.stack = vm.stack.push top) ↔
      ∀ st, trace.getLast? = some st → ∃ more, st.1.leftover me st.2 = vm.stack ++ more) ∧
    ((∀ st ∈ trace, vm.depth + st.1.demand st.2.heap ≤ st.1.depth) →
      ∃ top, vm'.stack = vm.stack.push top) := by
  have hstart := hrun
  rw [Vm.enter_eq_start hframes] at hstart
  rcases Site.runs_invoke_cases hargs hstart with
    ⟨c, code, rfl, -, -, hinside⟩ | ⟨out, s₁, -, hlanding⟩
  · obtain ⟨st, hst, hends, hspared⟩ := Vm.ends_of_runs_inside hinside
    refine ⟨hends.frames, hends.failed_iff, fun e => hends.peek?, ?_, ?_⟩
    · rw [hends.whole_iff, hst]
      simp
    · exact fun hdemand => hends.whole_iff.2 (hspared hdemand)
  · obtain ⟨rfl, hends⟩ := Vm.ends_of_runs_landing hlanding
    have hwhole : ∃ top, vm'.stack = vm.stack.push top := hends.whole_iff.2 ⟨#[], by simp⟩
    refine ⟨hends.frames, hends.failed_iff, fun e => hends.peek?, ?_, fun _ => hwhole⟩
    simpa using hwhole

end calls

/-- Doubling takes its own operands only, and the 7 is still there. -/
theorem runs_enter_stack_doubling : ∃ trace vm' s' x,
    Vm.Runs .still ⟨0, 0, "main"⟩ trace
      (Vm.enter ⟨0, 0, "main"⟩ (.ref 0) #[.int 21] { stack := #[.int 7] } .doubling) vm' s' x ∧
    vm'.error = false ∧ ∃ top, vm'.stack = #[.int 7].push top := by
  have hrun : Vm.Runs .still ⟨0, 0, "main"⟩ _
      (Vm.enter ⟨0, 0, "main"⟩ (.ref 0) #[.int 21] { stack := #[.int 7] } .doubling) _ _ _ :=
    .step (List.cons_ne_nil _ _) rfl <| .step (List.cons_ne_nil _ _) rfl <|
      .step (List.cons_ne_nil _ _) rfl <| .step (List.cons_ne_nil _ _) rfl <| .done rfl
  obtain ⟨-, -, -, -, hwhole⟩ := runs_enter_stack _ _ _ _ (by decide) _ rfl _ _ _ _ _ hrun
  exact ⟨_, _, _, _, hrun, rfl, hwhole (by decide)⟩

/-- A store with a function that takes two operands although it has pushed none. -/
def Store.overdrawing : Store :=
  let s : Store := { collector := .new {}, isolates := {} }
  (s.makeImmortal (.function ⟨"overdraw", 0, #[.int 1], #[.pop, .pop, .const 0, .ret]⟩)).1

/-- Popping the callee and the caller's 7, the function returns 1 in its place. -/
theorem not_runs_enter_stack_overdrawing :
    ¬ ∀ (env : Surroundings) (me : Caller) (function : Value) (args : Array Value),
      args.size + 1 < UInt64.size → ∀ vm : Vm, vm.frames = [] → ∀ s trace vm' s' x,
      Vm.Runs env me trace (vm.enter me function args s) vm' s' x →
      ∃ top, vm'.stack = vm.stack.push top := by
  intro hwhole
  have hrun : ∃ trace, Vm.Runs .still ⟨0, 0, "main"⟩ trace
      (Vm.enter ⟨0, 0, "main"⟩ (.ref 0) #[] { stack := #[.int 7] } .overdrawing)
      ⟨#[.int 1], [], 1, false⟩ .overdrawing none :=
    ⟨_, .step (List.cons_ne_nil _ _) rfl <| .step (List.cons_ne_nil _ _) rfl <|
      .step (List.cons_ne_nil _ _) rfl <| .step (List.cons_ne_nil _ _) rfl <| .done rfl⟩
  obtain ⟨trace, hrun⟩ := hrun
  obtain ⟨top, htop⟩ := hwhole .still _ _ _ (by decide) _ rfl _ _ _ _ _ hrun
  cases congrArg Array.size htop

end ScriptCore
