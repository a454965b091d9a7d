import ScriptCore.Proofs.Machine.Run

/-!
# Evaluation of calls

Calls as they are meant: every bytecode call has its arguments and a list of operands for itself.
There is no common stack, no frame and no depth to unwind to.

* `Code.effect`: the instructions that neither call nor return;
* `Answers`, `Responds`: what a native function or method yields, waits included, and what a call
  comes to that runs no bytecode;
* `Evaluates`: a call, or the rest of a body, yields a value or stops with the first failure.

An instruction whose operands are not there has no evaluation, and a panic has none.
-/

namespace ScriptCore

/-- What an instruction that neither calls nor returns does to the operands of its own call, topmost
first. -/
def Code.effect (me : Caller) (code : Code) (args : Array Value) (s : Store) (instr : Instr)
    (ops : List Value) : Option (Store × Except Cause (List Value)) :=
  match instr with
  | .const i => some (s, (Vm.constant code i).map (· :: ops))
  | .arg i =>
      if code.arity ≤ i then some (s, .error (.noArgument code.name i.toNat))
      else args[i.toNat]?.map fun v => (s, .ok (v :: ops))
  | .global i =>
      match Vm.nameConstant s.heap code i with
      | .error c => some (s, .error c)
      | .ok name =>
          match s.global? name with
          | some v => some (s, .ok (v :: ops))
          | none => some (s, .error (.unboundName name))
  | .arith op =>
      match ops with
      | r :: l :: ops =>
          let (s, result) := Vm.arith me op l r s
          some (s, result.map (· :: ops))
      | _ => none
  | .getAttr i =>
      match Vm.nameConstant s.heap code i, ops with
      | .error c, _ => some (s, .error c)
      | .ok name, receiver :: ops =>
          match receiver, s.heap.attribute? receiver name with
          | _, some (.value v) => some (s, .ok (v :: ops))
          | .ref c, some (.method m) =>
              let (s, b) := s.make me.storage (.bound c m)
              some (s, .ok (.ref b :: ops))
          | _, _ => some (s, .error (.noAttribute (s.heap.typeOf receiver) name))
      | .ok _, [] => none
  | .setAttr i =>
      match Vm.nameConstant s.heap code i, ops with
      | .error c, _ => some (s, .error c)
      | .ok name, v :: receiver :: ops =>
          match s.heap.attributeChange receiver name v with
          | .ok (c, o) => some (s.modifyHeap (·.setObject c o), .ok ops)
          | .error c => some (s, .error c)
      | .ok _, _ => none
  | .pop =>
      match ops with
      | _ :: ops => some (s, .ok ops)
      | [] => none
  | .raise =>
      match ops with
      | v :: _ =>
          match Vm.raised s.heap v with
          | .failed c => some (s, .error c)
          | _ => none
      | [] => none
  | .call _ | .ret => none

/-- The result that a wait brings. -/
def Outcome.result (me : Caller) (s : Store) : Outcome → Option (Except Cause Value × Store)
  | .value v => some (.ok v, s)
  | .values vs =>
      let (s, c) := s.make me.storage (.list vs)
      some (.ok (.ref c), s)
  | .done | .absent => some (.ok .nil, s)
  | .failed c => some (.error c, s)
  | .panicked _ => none

/-- What a native function or method yields in the end. -/
inductive Answers (env : Surroundings) (me : Caller) :
    Store × Reaction → Except Cause Value → Store → Prop
  | value {s : Store} {v : Value} : Answers env me (s, .value v) (.ok v) s
  | failed {s : Store} {c : Cause} : Answers env me (s, .failed c) (.error c) s
  | waited {s s₁ s' : Store} {r : Request} {o : Outcome} {out : Except Cause Value} :
      env.grants r s o s₁ → o.result me s₁ = some (out, s') →
      Answers env me (s, .suspended r) out s'

/-- Something to evaluate. -/
inductive Work
  | call (callee : Value) (args : Array Value)
  /-- The rest of a bytecode call, with its own operands, topmost first. -/
  | body (code : CellId) (args : Array Value) (ip : Nat) (ops : List Value)
  deriving DecidableEq, Repr

/-- Calls fail unless the callee is of one of these sorts. -/
def Object.callable : Object → Bool
  | .function _ | .native _ | .bound _ _ => true
  | _ => false

/-- Calls that run no bytecode. -/
inductive Responds (env : Surroundings) (me : Caller) (callee : Value) (args : Array Value)
    (s : Store) : Except Cause Value → Store → Prop
  | arity {code : Code} : s.heap.deref? callee = some (.function code) →
      code.arity.toNat ≠ args.size →
      Responds env me callee args s
        (.error (.arity code.name (.exact code.arity.toNat) args.size)) s
  | native {f : Native} {out : Except Cause Value} {s' : Store} :
      s.heap.deref? callee = some (.native f) → Answers env me (f.call me args s) out s' →
      Responds env me callee args s out s'
  | method {receiver : CellId} {m : Method} {out : Except Cause Value} {s' : Store} :
      s.heap.deref? callee = some (.bound receiver m) →
      Answers env me (m.call me receiver args s) out s' → Responds env me callee args s out s'
  | notCallable : (∀ o, s.heap.deref? callee = some o → o.callable = false) →
      Responds env me callee args s (.error (.notCallable (s.heap.typeOf callee))) s

/-- After a safepoint, the code in a cell and the instruction at an index, if there is one. -/
structure Fetches (env : Surroundings) (c : CellId) (ip : Nat) (s s₀ : Store) (code : Code)
    (instr : Option Instr) : Prop where
  drifts : env.drifts s s₀
  object : s₀.heap.object? c = some (.function code)
  instr : code.instrs[ip]? = instr

/-- A call yields a value or a failure. -/
inductive Evaluates (env : Surroundings) (me : Caller) :
    Work → Store → Except Cause Value → Store → Prop
  | enter {c : CellId} {code : Code} {args : Array Value} {s s' : Store}
      {out : Except Cause Value} :
      s.heap.object? c = some (.function code) → code.arity.toNat = args.size →
      Evaluates env me (.body c args 0 []) s out s' →
      Evaluates env me (.call (.ref c) args) s out s'
  | responds {callee : Value} {args : Array Value} {s s' : Store} {out : Except Cause Value} :
      Responds env me callee args s out s' → Evaluates env me (.call callee args) s out s'
  /-- The code has been freed. -/
  | noCode {c : CellId} {args : Array Value} {ip : Nat} {ops : List Value} {s s₀ : Store} :
      env.drifts s s₀ → (∀ code, s₀.heap.object? c ≠ some (.function code)) →
      Evaluates env me (.body c args ip ops) s (.error .noBytecode) s₀
  | fall {c : CellId} {code : Code} {args : Array Value} {ip : Nat} {ops : List Value}
      {s s₀ : Store} :
      Fetches env c ip s s₀ code none →
      Evaluates env me (.body c args ip ops) s (.ok .nil) s₀
  | ret {c : CellId} {code : Code} {args : Array Value} {ip : Nat} {v : Value} {ops : List Value}
      {s s₀ : Store} :
      Fetches env c ip s s₀ code (some .ret) →
      Evaluates env me (.body c args ip (v :: ops)) s (.ok v) s₀
  | step {c : CellId} {code : Code} {args : Array Value} {ip : Nat} {instr : Instr}
      {ops ops' : List Value} {s s₀ s₁ s' : Store} {out : Except Cause Value} :
      Fetches env c ip s s₀ code (some instr) →
      code.effect me args s₀ instr ops = some (s₁, .ok ops') →
      Evaluates env me (.body c args (ip + 1) ops') s₁ out s' →
      Evaluates env me (.body c args ip ops) s out s'
  | stop {c : CellId} {code : Code} {args : Array Value} {ip : Nat} {instr : Instr}
      {ops : List Value} {s s₀ s₁ : Store} {e : Cause} :
      Fetches env c ip s s₀ code (some instr) →
      code.effect me args s₀ instr ops = some (s₁, .error e) →
      Evaluates env me (.body c args ip ops) s (.error e) s₁
  | call {c : CellId} {code : Code} {args args' : Array Value} {ip : Nat} {argc : UInt64}
      {callee v : Value} {ops : List Value} {s s₀ s₁ s' : Store} {out : Except Cause Value} :
      Fetches env c ip s s₀ code (some (.call argc)) → args'.size = argc.toNat →
      argc.toNat + 1 < UInt64.size →
      Evaluates env me (.call callee args') s₀ (.ok v) s₁ →
      Evaluates env me (.body c args (ip + 1) (v :: ops)) s₁ out s' →
      Evaluates env me (.body c args ip (args'.toList.reverse ++ callee :: ops)) s out s'
  | callStop {c : CellId} {code : Code} {args args' : Array Value} {ip : Nat} {argc : UInt64}
      {callee : Value} {ops : List Value} {s s₀ s₁ : Store} {e : Cause} :
      Fetches env c ip s s₀ code (some (.call argc)) → args'.size = argc.toNat →
      argc.toNat + 1 < UInt64.size →
      Evaluates env me (.call callee args') s₀ (.error e) s₁ →
      Evaluates env me (.body c args ip (args'.toList.reverse ++ callee :: ops)) s (.error e) s₁

/-! ### Code stays code -/

section keepsCode

variable {env : Surroundings} {me : Caller} {s s' : Store} {out : Except Cause Value}

theorem Outcome.keepsCode_result {o : Outcome} (ho : o.result me s = some (out, s')) :
    s.heap.KeepsCode s'.heap := by
  cases o with
  | values vs => cases ho; exact .of_evolves (Heap.evolves_alloc _ _)
  | panicked q => cases ho
  | _ => cases ho; exact .refl _

theorem Answers.keepsCode {r : Store × Reaction} (h : Answers env me r out s') :
    r.1.heap.KeepsCode s'.heap := by
  cases h with
  | value | failed => exact .refl _
  | waited hg ho => exact (env.grants_code _ _ _ _ hg).trans (Outcome.keepsCode_result ho)

theorem Responds.keepsCode {callee : Value} {args : Array Value}
    (h : Responds env me callee args s out s') : s.heap.KeepsCode s'.heap := by
  cases h with
  | arity | notCallable => exact .refl _
  | native _ ha =>
    exact (Heap.KeepsCode.of_evolves (Native.answered_call _).edited.evolves).trans ha.keepsCode
  | method _ ha =>
    exact (Heap.KeepsCode.of_evolves (Method.answered_call _ _).edited.evolves).trans ha.keepsCode

theorem Vm.keepsCode_arith (op : Arith) (l r : Value) :
    s.heap.KeepsCode (Vm.arith me op l r s).1.heap := by
  have hsafe : Safe me {} s (Vm.pushOr {} (Vm.arith me op l r s).1 (Vm.arith me op l r s).2) :=
    arith_safe op l r fun _ h => h
  have hev := hsafe.edited.evolves
  cases h : (Vm.arith me op l r s).2 <;> rw [h] at hev <;> exact .of_evolves hev

theorem Code.keepsCode_effect {code : Code} {args : Array Value} {instr : Instr} {ops : List Value}
    {r : Except Cause (List Value)} (he : code.effect me args s instr ops = some (s', r)) :
    s.heap.KeepsCode s'.heap := by
  unfold Code.effect at he
  split at he
  · cases he; exact .refl _
  · split at he
    · cases he; exact .refl _
    · obtain ⟨v, -, hv⟩ := Option.map_eq_some_iff.1 he
      cases hv
      exact .refl _
  · split at he
    · cases he; exact .refl _
    · split at he <;> cases he <;> exact .refl _
  · split at he
    · cases he; exact Vm.keepsCode_arith _ _ _
    · cases he
  · split at he
    · cases he; exact .refl _
    · split at he
      · cases he; exact .refl _
      · cases he; exact .of_evolves (Heap.evolves_alloc _ _)
      · cases he; exact .refl _
    · cases he
  · split at he
    · cases he; exact .refl _
    · split at he
      · rename_i hc
        cases he
        have hedit : Store.Edited me.storage (fun _ => True) s _ :=
          Store.edited_attributeChange hc trivial
        exact .of_evolves hedit.evolves
      · cases he; exact .refl _
    · cases he
  · split at he <;> cases he
    exact .refl _
  · split at he
    · split at he <;> cases he
      exact .refl _
    · cases he
  · cases he
  · cases he

theorem Evaluates.keepsCode {work : Work} (h : Evaluates env me work s out s') :
    s.heap.KeepsCode s'.heap := by
  induction h with
  | enter _ _ _ ih => exact ih
  | responds h => exact h.keepsCode
  | noCode hd _ => exact env.drifts_code _ _ hd
  | fall hf | ret hf => exact env.drifts_code _ _ hf.drifts
  | step hf he _ ih =>
    exact ((env.drifts_code _ _ hf.drifts).trans (Code.keepsCode_effect he)).trans ih
  | stop hf he => exact (env.drifts_code _ _ hf.drifts).trans (Code.keepsCode_effect he)
  | call hf _ _ _ _ ih₁ ih₂ => exact ((env.drifts_code _ _ hf.drifts).trans ih₁).trans ih₂
  | callStop hf _ _ _ ih => exact (env.drifts_code _ _ hf.drifts).trans ih

end keepsCode

end ScriptCore
