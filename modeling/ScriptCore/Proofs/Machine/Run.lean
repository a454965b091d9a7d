import ScriptCore.Proofs.Machine.Safe
import ScriptCore.World

/-!
# Runs of one machine

A call of a machine from its beginning to its end, whatever happens around it. Other threads and the
collector act at safepoints and while a request is granted; all that is asked of them is that code
stays code.

* `Surroundings`: what may happen at safepoints and during waits;
* `Vm.receive`: how the outcome of a wait reaches the machine, as `World.deliver` hands it over;
* `Vm.Runs`: from a signal to the end of the call, with the states in which an instruction was
  executed;
* `Vm.Disciplined`: the next instruction finds its operands above the arguments of its frame.
-/

namespace ScriptCore

/-- No cell becomes a function, and no function becomes another one. -/
structure Heap.KeepsCode (h h' : Heap) : Prop where
  size_le : h.size ≤ h'.size
  code : ∀ c code, c < h.size → h'.object? c = some (.function code) →
    h.object? c = some (.function code)

namespace Heap.KeepsCode

variable {h h' h'' : Heap}

theorem refl (h : Heap) : h.KeepsCode h := ⟨le_rfl, fun _ _ _ ho => ho⟩

theorem trans (h₁ : h.KeepsCode h') (h₂ : h'.KeepsCode h'') : h.KeepsCode h'' where
  size_le := h₁.size_le.trans h₂.size_le
  code c code hc ho := h₁.code c code hc (h₂.code c code (hc.trans_le h₁.size_le) ho)

/-- Writes never change a function. -/
theorem of_evolves (he : h.Evolves h') : h.KeepsCode h' where
  size_le := he.size_le
  code c code hc ho := by
    obtain ⟨o, ho', hgrows⟩ := he.back c _ hc ho
    rwa [hgrows.function] at ho'

end Heap.KeepsCode

/-- What other threads and the collector may do while a machine is at a safepoint or waits. -/
structure Surroundings where
  drifts : Store → Store → Prop
  /-- A request is granted with an outcome. -/
  grants : Request → Store → Outcome → Store → Prop
  drifts_code : ∀ s s', drifts s s' → s.heap.KeepsCode s'.heap
  grants_code : ∀ r s o s', grants r s o s' → s.heap.KeepsCode s'.heap

/-- Nothing happens around the machine, and no wait ends. -/
def Surroundings.still : Surroundings where
  drifts s s' := s = s'
  grants _ _ _ _ := False
  drifts_code s _ h := h ▸ .refl s.heap
  grants_code _ _ _ _ h := h.elim

/-- The outcome of a wait takes the place of callee and arguments. -/
def Vm.receive (me : Caller) (callee : Nat) (vm : Vm) (s : Store) : Outcome → Vm × Store × Signal
  | .value v => ((vm.truncate callee).push v, s, .next)
  | .values vs =>
      let (s, c) := s.make me.storage (.list vs)
      ((vm.truncate callee).push (.ref c), s, .next)
  | .done | .absent => ((vm.truncate callee).push .nil, s, .next)
  | .failed c => (vm, s, .failed c)
  | .panicked p => (vm, s, .panicked p)

/-- Threads hand over outcomes in this way. -/
theorem World.deliver_call (w : World) (t : ThreadId) (callee : Nat) (outermost : Bool)
    (outcome : Outcome) :
    w.deliver t (.call callee outermost) outcome =
      let r := (w.thread t).vm.receive ((w.thread t).caller t) callee w.store outcome
      { (w.setVm t {}) with store := r.2.1 }.afterSignal t outermost r.1 r.2.2 := by
  cases outcome <;> rfl

namespace Vm

/-- From machine, store and signal to the machine and the store at the end of a call, and the cause
if the call failed.  A panic has no end. -/
inductive Runs (env : Surroundings) (me : Caller) :
    List (Vm × Store) → Vm × Store × Signal → Vm → Store → Option Cause → Prop
  | done {vm : Vm} {s : Store} : vm.frames = [] → Runs env me [] (vm, s, .next) vm s none
  | step {trace : List (Vm × Store)} {vm vm' : Vm} {s s₀ s' : Store} {x : Option Cause} :
      vm.frames ≠ [] → env.drifts s s₀ → Runs env me trace (vm.step me s₀) vm' s' x →
      Runs env me ((vm, s₀) :: trace) (vm, s, .next) vm' s' x
  | failed {vm : Vm} {s : Store} {c : Cause} :
      Runs env me [] (vm, s, .failed c) (vm.fail me c s).1 (vm.fail me c s).2 (some c)
  | granted {trace : List (Vm × Store)} {vm vm' : Vm} {s s₁ s' : Store} {callee : Nat}
      {r : Request} {o : Outcome} {x : Option Cause} : env.grants r s o s₁ →
      Runs env me trace (vm.receive me callee s₁ o) vm' s' x →
      Runs env me trace (vm, s, .suspended callee r) vm' s' x

end Vm

/-! ### Operands -/

/-- The operands an instruction takes from the stack.  A name that is none is noticed before. -/
def Instr.takes (h : Heap) (code : Code) : Instr → Nat
  | .const _ | .arg _ | .global _ => 0
  | .pop | .ret | .raise => 1
  | .arith _ => 2
  | .call argc => argc.toNat + 1
  | .getAttr i => if (Vm.nameConstant h code i).isOk then 1 else 0
  | .setAttr i => if (Vm.nameConstant h code i).isOk then 2 else 0

/-- The operands the next instruction of a machine takes. -/
def Vm.demand (vm : Vm) (h : Heap) : Nat :=
  match vm.frames with
  | [] => 0
  | frame :: _ =>
      match h.object? frame.code with
      | some (.function code) => (code.instrs[frame.ip]?.map (·.takes h code)).getD 0
      | _ => 0

/-- Where the operands of the innermost frame begin. -/
def Vm.floor (vm : Vm) (h : Heap) : Nat :=
  match vm.frames with
  | [] => 0
  | frame :: _ =>
      match h.object? frame.code with
      | some (.function code) => frame.base + code.arity.toNat
      | _ => 0

/-- The next instruction finds all its operands among those of its own frame. -/
def Vm.Disciplined (vm : Vm) (h : Heap) : Prop := vm.floor h + vm.demand h ≤ vm.depth

/-! ### What a step keeps -/

namespace Vm

variable {me : Caller}

/-- Nobody waits twice. -/
theorem receive_not_suspended (vm : Vm) (s : Store) (callee : Nat) (o : Outcome) (callee' : Nat)
    (q : Request) : (vm.receive me callee s o).2.2 ≠ .suspended callee' q := by
  cases o <;> simp [Vm.receive]

end Vm

end ScriptCore
