import ScriptCore.Proofs.Machine.Alike
import ScriptCore.Proofs.Machine.Run
import ScriptCore.Proofs.Store.Twins

/-!
# Machines do not notice collections

The same machine in twin stores: as long as both of them hold its operands and the code it runs, it
comes to the same state and the same signal in both, and they stay twins. The only calls it could
tell them apart with are those of native functions that ask the collector for its counters and
settings, set them, collect, or start an isolate.

* `Native.oblivious`: all other native functions;
* `Store.TwinPair`, `Vm.TwinSteps`: the same outcome beside twin stores;
* `Native.twins_run`, `Method.twins_run`: native functions and methods;
* `Vm.twins_step`, `Vm.twins_enter`, `Vm.twins_receive`: instructions, calls, and the outcomes of
  waits.
-/

namespace ScriptCore

/-- The function neither starts an isolate nor asks the collector for anything. -/
def Native.oblivious : Native → Bool
  | .startIsolate | .gcCollect | .getAllocLimit | .setAllocLimit | .getAllocCount
  | .getImmortalCount => false
  | _ => true

/-- A request that an oblivious function or a method makes. -/
def Request.mild : Request → Bool
  | .sleep _ | .await _ | .lock _ | .join _ _ _ => true
  | _ => false

/-- Twin stores with the same beside them. -/
structure Store.TwinPair {α : Type} (p p' : Store × α) : Prop where
  store : p.1.Twins p'.1
  same : p.2 = p'.2

/-- The same machine and the same signal beside twin stores. -/
structure Vm.TwinSteps (r r' : Vm × Store × Signal) : Prop where
  machine : r.1 = r'.1
  store : r.2.1.Twins r'.2.1
  signal : r.2.2 = r'.2.2
  mild : ∀ callee q, r.2.2 = .suspended callee q → q.mild = true

open Store (TwinPair)

/-! ### Arguments -/

section

variable {h h' : Heap} {args : Array Value}

theorem Arguments.expect_congr {α : Type} {read read' : Value → Option α}
    (hargs : ∀ v ∈ args, h.Agree h' v) (hread : ∀ v ∈ args, read v = read' v) (i : Nat)
    (expected : Expected) :
    Arguments.expect h args i expected read = Arguments.expect h' args i expected read' := by
  unfold Arguments.expect
  cases hv : Arguments.get args i with
  | error c => rfl
  | ok v =>
    have hmem := Arguments.get_mem hv
    simp only [hread v hmem, (hargs v hmem).typeOf]

theorem Arguments.int_congr (hargs : ∀ v ∈ args, h.Agree h' v) (i : Nat) :
    Arguments.int h args i = Arguments.int h' args i :=
  expect_congr hargs (fun _ _ => rfl) i _

theorem Arguments.number_congr (hargs : ∀ v ∈ args, h.Agree h' v) (i : Nat) :
    Arguments.number h args i = Arguments.number h' args i :=
  expect_congr hargs (fun _ _ => rfl) i _

theorem Arguments.list_congr (hargs : ∀ v ∈ args, h.Agree h' v) (i : Nat) :
    Arguments.list h args i = Arguments.list h' args i :=
  expect_congr hargs (fun v hv => (hargs v hv).list?) i _

end

/-! ### Native functions and methods -/

section

variable {me : Caller} {s s' : Store} {args : Array Value}

theorem Native.twins_makeValue (ht : s.Twins s') (o : Object) :
    TwinPair (Native.makeValue me s o) (Native.makeValue me s' o) :=
  ⟨ht.make _ _ o, congrArg (Reaction.value ∘ Value.ref) (ht.make_snd me.storage me.storage o)⟩

theorem Native.twins_request (ht : s.Twins s') (r : Except Cause Request) :
    TwinPair (Native.request s r) (Native.request s' r) := by
  cases r <;> exact ⟨ht, rfl⟩

theorem Native.twins_run (ht : s.Twins s') (hargs : ∀ v ∈ args, s.heap.Agree s'.heap v)
    {f : Native} (hf : f.oblivious = true) : TwinPair (f.run me args s) (f.run me args s') := by
  cases f with
  | startIsolate | gcCollect | getAllocLimit | setAllocLimit | getAllocCount
  | getImmortalCount => cases hf
  | waitUntilCompleted =>
    simp only [Native.run, Arguments.list_congr hargs, ht.isolates]
    exact Native.twins_request ht _
  | sleep =>
    simp only [Native.run, Arguments.number_congr hargs]
    exact Native.twins_request ht _
  | sleepMs =>
    simp only [Native.run, Arguments.int_congr hargs]
    exact Native.twins_request ht _
  | mutex =>
    have hlock : s.newLock.2 = s'.newLock.2 := congrArg Array.size ht.locks
    show TwinPair (Native.makeValue me s.newLock.1 (.mutex s.newLock.2)) _
    rw [hlock]
    exact Native.twins_makeValue ht.newLock _
  | count =>
    simp only [Native.run]
    split <;> exact ⟨ht, rfl⟩
  | boomString =>
    have htext : s.heap.text? (args.getD 0 .nil) = s'.heap.text? (args.getD 0 .nil) := by
      rw [Array.getD_eq_getD_getElem?]
      cases hv : args[0]? with
      | none => rfl
      | some v => exact (hargs v (Array.mem_of_getElem? hv)).text?
    simp only [Native.run, htext]
    split <;> exact ⟨ht, rfl⟩
  | answer | boomStr | boomAny => exact ⟨ht, rfl⟩
  | list | echo | shadowList | threadName | counter | cell | plain =>
    exact Native.twins_makeValue ht _

/-- What an oblivious function waits for. -/
theorem Native.mild_run {f : Native} (hf : f.oblivious = true) {q : Request}
    (hq : (f.run me args s).2 = .suspended q) : q.mild = true := by
  have hrequest : ∀ {r : Except Cause Request}, (Native.request s r).2 = .suspended q →
      r = .ok q := by
    rintro (c | q') heq <;> cases heq
    rfl
  cases f with
  | startIsolate | gcCollect | getAllocLimit | setAllocLimit | getAllocCount
  | getImmortalCount => cases hf
  | waitUntilCompleted =>
    have hr := hrequest hq
    cases hl : Arguments.list s.heap args 0 with
    | error c => simp [hl, Except.map] at hr
    | ok fs =>
      simp only [hl, Except.map, Except.ok.injEq] at hr
      subst hr
      rfl
  | sleep =>
    have hr := hrequest hq
    cases hx : Arguments.number s.heap args 0 with
    | error c => simp [hx, Except.bind] at hr
    | ok x =>
      simp only [hx, Except.bind, sleepSeconds] at hr
      split at hr <;> cases hr
      rfl
  | sleepMs =>
    have hr := hrequest hq
    cases hn : Arguments.int s.heap args 0 with
    | error c => simp [hn, Except.bind] at hr
    | ok n =>
      simp only [hn, Except.bind, sleepMilliseconds] at hr
      split at hr <;> cases hr
      rfl
  | count | boomString =>
    simp only [Native.run] at hq
    split at hq <;> cases hq
  | _ => cases hq

theorem Native.twins_call (ht : s.Twins s') (hargs : ∀ v ∈ args, s.heap.Agree s'.heap v)
    {f : Native} (hf : f.oblivious = true) : TwinPair (f.call me args s) (f.call me args s') := by
  unfold Native.call
  cases f.arity.check f.name args.size with
  | ok => exact Native.twins_run ht hargs hf
  | error c => exact ⟨ht, rfl⟩

theorem Native.mild_call {f : Native} (hf : f.oblivious = true) {q : Request}
    (hq : (f.call me args s).2 = .suspended q) : q.mild = true := by
  unfold Native.call at hq
  split at hq
  · exact Native.mild_run hf hq
  · cases hq

variable {receiver : CellId}

theorem Method.twins_increment (ht : s.Twins s') (hr : s.heap.Agree s'.heap (.ref receiver)) :
    TwinPair (Method.increment receiver s) (Method.increment receiver s') := by
  unfold Method.increment
  simp only [hr.object?, hr.attributeChange]
  split
  · split
    · split
      · exact ⟨ht.setObject _ _, rfl⟩
      · exact ⟨ht, rfl⟩
    · exact ⟨ht, rfl⟩
  · exact ⟨ht, rfl⟩

theorem Method.twins_run (ht : s.Twins s') (hargs : ∀ v ∈ args, s.heap.Agree s'.heap v)
    (hr : s.heap.Agree s'.heap (.ref receiver)) (m : Method) :
    TwinPair (m.run me receiver args s) (m.run me receiver args s') := by
  unfold Method.run
  simp only [hr.object?, hr.typeOf, Arguments.int_congr hargs, ht.lock]
  split
  · exact Method.twins_increment ht hr
  · exact ⟨ht, rfl⟩
  · split
    · exact ⟨ht.pushItem _ _, rfl⟩
    · exact ⟨ht, rfl⟩
  · split <;> exact ⟨ht, rfl⟩
  · exact ⟨ht.make _ _ _, congrArg (Reaction.value ∘ Value.ref) (ht.make_snd _ _ _)⟩
  · exact ⟨ht.make _ _ _, congrArg (Reaction.value ∘ Value.ref) (ht.make_snd _ _ _)⟩
  · exact ⟨ht, rfl⟩
  · split <;> exact ⟨ht, rfl⟩
  · exact ⟨ht, rfl⟩
  · exact ⟨ht, rfl⟩
  · split
    · exact ⟨ht.setLock _ _, rfl⟩
    · exact ⟨ht, rfl⟩
  · exact ⟨ht, rfl⟩

/-- What a method waits for. -/
theorem Method.mild_run {m : Method} {q : Request}
    (hq : (m.run me receiver args s).2 = .suspended q) : q.mild = true := by
  unfold Method.run at hq
  split at hq
  · unfold Method.increment at hq
    split at hq
    · split at hq
      · split at hq <;> cases hq
      · cases hq
    · cases hq
  · cases hq
  · split at hq <;> cases hq
  · split at hq
    · unfold itemAt at hq
      split at hq <;> cases hq
    · cases hq
  · cases hq
  · cases hq
  · cases hq
  · split at hq <;> cases hq
  · cases hq
    rfl
  · cases hq
    rfl
  · split at hq <;> cases hq
  · cases hq

theorem Method.twins_call (ht : s.Twins s') (hargs : ∀ v ∈ args, s.heap.Agree s'.heap v)
    (hr : s.heap.Agree s'.heap (.ref receiver)) (m : Method) :
    TwinPair (m.call me receiver args s) (m.call me receiver args s') := by
  unfold Method.call
  cases m.arity.check m.name args.size with
  | ok => exact Method.twins_run ht hargs hr m
  | error c => exact ⟨ht, rfl⟩

theorem Method.mild_call {m : Method} {q : Request}
    (hq : (m.call me receiver args s).2 = .suspended q) : q.mild = true := by
  unfold Method.call at hq
  split at hq
  · exact Method.mild_run hq
  · cases hq

end

/-! ### Machines -/

namespace Vm

variable {me : Caller} {vm : Vm} {s s' : Store}

namespace TwinSteps

theorem next (ht : s.Twins s') (vm : Vm) : TwinSteps (vm, s, .next) (vm, s', .next) :=
  ⟨rfl, ht, rfl, fun _ _ h => by cases h⟩

theorem failed (ht : s.Twins s') (vm : Vm) (c : Cause) :
    TwinSteps (vm, s, .failed c) (vm, s', .failed c) :=
  ⟨rfl, ht, rfl, fun _ _ h => by cases h⟩

theorem panicked (ht : s.Twins s') (vm : Vm) (p : Panic) :
    TwinSteps (vm, s, .panicked p) (vm, s', .panicked p) :=
  ⟨rfl, ht, rfl, fun _ _ h => by cases h⟩

theorem answer (callee : Nat) {p p' : Store × Reaction} (hp : TwinPair p p')
    (hmild : ∀ q, p.2 = .suspended q → q.mild = true) :
    TwinSteps (vm.answer callee p) (vm.answer callee p') := by
  obtain ⟨s, r⟩ := p
  obtain ⟨s', r'⟩ := p'
  obtain ⟨ht, rfl⟩ := hp
  cases r with
  | value v => exact .next ht _
  | failed c => exact .failed ht _ _
  | panicked p => exact .panicked ht _ _
  | suspended q => exact ⟨rfl, ht, rfl, fun _ _ h => by cases h; exact hmild q rfl⟩

theorem pushOr {p p' : Store × Except Cause Value} (hp : TwinPair p p') :
    TwinSteps (vm.pushOr p.1 p.2) (vm.pushOr p'.1 p'.2) := by
  obtain ⟨s, r⟩ := p
  obtain ⟨s', r'⟩ := p'
  obtain ⟨ht, rfl⟩ := hp
  cases r with
  | ok v => exact .next ht _
  | error c => exact .failed ht _ _

theorem ret (ht : s.Twins s') (vm : Vm) : TwinSteps (vm.ret s) (vm.ret s') := by
  unfold Vm.ret
  split
  · exact .failed ht _ _
  · split <;> exact .next ht _

end TwinSteps

theorem twins_fail (ht : s.Twins s') (me : Caller) (c : Cause) (vm : Vm) :
    (vm.fail me c s).1 = (vm.fail me c s').1 ∧ (vm.fail me c s).2.Twins (vm.fail me c s').2 := by
  refine ⟨?_, ht.make _ _ _⟩
  unfold Vm.fail
  simp only [ht.make_snd me.storage me.storage]

/-- The outcome of a wait. -/
theorem twins_receive (ht : s.Twins s') (me : Caller) (callee : Nat) (vm : Vm) (o : Outcome) :
    TwinSteps (vm.receive me callee s o) (vm.receive me callee s' o) := by
  cases o with
  | values vs =>
    simp only [Vm.receive, ht.make_snd me.storage me.storage]
    exact .next (ht.make _ _ _) _
  | value v => exact .next ht _
  | done | absent => exact .next ht _
  | failed c => exact .failed ht _ _
  | panicked p => exact .panicked ht _ _

/-- Arithmetic on values that look the same. -/
theorem twins_arith (ht : s.Twins s') {l r : Value} (hl : s.heap.Agree s'.heap l)
    (hr : s.heap.Agree s'.heap r) (op : Arith) :
    TwinPair (arith me op l r s) (arith me op l r s') := by
  unfold arith
  simp only [hl.typeOf, hr.typeOf]
  split
  · exact ⟨ht, rfl⟩
  · split
    · exact ⟨ht, rfl⟩
    · simp only [hl.str?, hr.str?]
      split
      · exact ⟨ht.make _ _ _,
          congrArg (Except.ok ∘ Value.ref) (ht.make_snd me.storage me.storage _)⟩
      · exact ⟨ht, rfl⟩

theorem twins_raised (ht : s.Twins s') (vm : Vm) {v : Value} (hv : s.heap.Agree s'.heap v) :
    TwinSteps (vm, s, raised s.heap v) (vm, s', raised s'.heap v) := by
  simp only [raised, hv.error?, hv.text?]
  split
  · exact .failed ht _ _
  · split
    · exact .failed ht _ _
    · exact .panicked ht _ _

section

variable (ht : s.Twins s') (hclosed : s.heap.Closed) (hclosed' : s'.heap.Closed)
  (hvm : vm.Sound s.heap) (hvm' : vm.Sound s'.heap)

include ht hclosed hclosed' hvm hvm'

theorem agree_of_mem {v : Value} (hv : v ∈ vm.stack) : s.heap.Agree s'.heap v :=
  ht.heap.agree hclosed hclosed' (hvm v hv) (hvm' v hv)

theorem agree_of_peek? {v : Value} (hv : vm.peek? = some v) : s.heap.Agree s'.heap v :=
  agree_of_mem ht hclosed hclosed' hvm hvm' (Array.mem_of_back? hv)

theorem twins_invoke {argc : UInt64} (hcallee : ∀ v f, vm.below argc = some v →
    s.heap.deref? v = some (.native f) → f.oblivious = true) :
    TwinSteps (vm.invoke me argc s) (vm.invoke me argc s') := by
  have hagree : ∀ v ∈ vm.stack, s.heap.Agree s'.heap v := fun v hv =>
    agree_of_mem ht hclosed hclosed' hvm hvm' hv
  unfold invoke
  split
  · exact .panicked ht _ _
  split
  · exact .failed ht _ _
  rename_i hdepth
  obtain ⟨v, hv⟩ : ∃ v, vm.stack[vm.depth - (argc.toNat + 1)]? = some v := by
    refine ⟨_, Array.getElem?_eq_getElem ?_⟩
    have : vm.depth = vm.stack.size := rfl
    omega
  have hget : vm.stack.getD (vm.depth - (argc.toNat + 1)) .nil = v := by
    rw [Array.getD_eq_getD_getElem?, hv]
    rfl
  have hmem := Array.mem_of_getElem? hv
  have hderef := (hagree v hmem).deref?
  have hargs : ∀ w ∈ vm.stack.drop (vm.depth - (argc.toNat + 1) + 1), s.heap.Agree s'.heap w :=
    fun w hw => hagree w (mem_of_mem_drop hw)
  have hnative : ∀ f, s'.heap.deref? v = some (.native f) → f.oblivious = true := fun f hf =>
    hcallee v f hv (hderef.trans hf)
  have hbound : ∀ receiver m, s'.heap.deref? v = some (.bound receiver m) →
      s.heap.Agree s'.heap (.ref receiver) := fun receiver m hm =>
    ht.heap.agree hclosed hclosed' (hclosed.holds_deref? (hderef.trans hm) (by simp [Object.edges]))
      (hclosed'.holds_deref? hm (by simp [Object.edges]))
  simp only [hget, hderef, (hagree v hmem).typeOf]
  split
  · split
    · exact .next ht _
    · exact .failed ht _ _
  · have hf := hnative _ ‹_›
    exact .answer _ (Native.twins_call ht hargs hf) fun _ => Native.mild_call hf
  · exact .answer _ (Method.twins_call ht hargs (hbound _ _ ‹_›) _) fun _ => Method.mild_call
  · exact .failed ht _ _

/-- One instruction of a function whose constants look the same. -/
theorem twins_exec {code : Code} (hconstants : ∀ v ∈ code.constants, s.heap.Agree s'.heap v)
    (base : Nat) {instr : Instr} (hcallee : ∀ argc, instr = .call argc → ∀ v f,
      vm.below argc = some v → s.heap.deref? v = some (.native f) → f.oblivious = true) :
    TwinSteps (vm.exec me code base instr s) (vm.exec me code base instr s') := by
  have htop : ∀ {v}, vm.peek? = some v → s.heap.Agree s'.heap v :=
    agree_of_peek? ht hclosed hclosed' hvm hvm'
  have hnext : ∀ {v}, vm.dropTop.peek? = some v → s.heap.Agree s'.heap v :=
    agree_of_peek? ht hclosed hclosed' hvm.dropTop hvm'.dropTop
  have hname : ∀ i, nameConstant s.heap code i = nameConstant s'.heap code i := by
    intro i
    unfold nameConstant constant
    cases hv : code.constants[i.toNat]? with
    | none => rfl
    | some v => simp only [(hconstants v (Array.mem_of_getElem? hv)).str?]
  cases instr with
  | const i =>
    have hpair : TwinPair (s, constant code i) (s', constant code i) := ⟨ht, rfl⟩
    exact .pushOr hpair
  | arg i =>
    simp only [exec]
    split
    · exact .failed ht _ _
    · split
      · exact .next ht _
      · exact .failed ht _ _
  | global i =>
    simp only [exec, hname, ht.global?]
    split
    · exact .failed ht _ _
    · split
      · exact .next ht _
      · exact .failed ht _ _
  | arith op =>
    simp only [exec]
    cases hr : vm.peek? with
    | none => exact .failed ht _ _
    | some r =>
      cases hl : vm.dropTop.peek? with
      | none => exact .failed ht _ _
      | some l =>
        exact .pushOr (twins_arith ht (hnext hl) (htop hr) op)
  | call argc => exact twins_invoke ht hclosed hclosed' hvm hvm' (hcallee argc rfl)
  | getAttr i =>
    simp only [exec, hname]
    split
    · exact .failed ht _ _
    · cases hr : vm.peek? with
      | none => exact .failed ht _ _
      | some r =>
        have hagree := htop hr
        simp only [hagree.attribute?, hagree.typeOf]
        split
        · exact .next ht _
        · simp only [ht.make_snd me.storage me.storage]
          exact .next (ht.make _ _ _) _
        · exact .failed ht _ _
  | setAttr i =>
    simp only [exec, hname]
    split
    · exact .failed ht _ _
    · split
      · exact .failed ht _ _
      · cases hr : vm.dropTop.peek? with
        | none => exact .failed ht _ _
        | some r =>
          have hagree := hnext hr
          simp only [hagree.attributeChange]
          split
          · exact .next (ht.setObject _ _) _
          · exact .failed ht _ _
  | pop =>
    simp only [exec]
    split
    · exact .failed ht _ _
    · exact .next ht _
  | ret => exact .ret ht vm
  | raise =>
    simp only [exec]
    cases hv : vm.peek? with
    | none => exact .failed ht _ _
    | some v => exact twins_raised ht _ (htop hv)

/-- One instruction. The code that runs is live in both stores. -/
theorem twins_step (hcode : ∀ frame ∈ vm.frames.head?,
      s.heap.Live frame.code ∧ s'.heap.Live frame.code)
    (hcallee : ∀ v f, vm.callee? s.heap = some v → s.heap.deref? v = some (.native f) →
      f.oblivious = true) : TwinSteps (vm.step me s) (vm.step me s') := by
  unfold step
  cases hframes : vm.frames with
  | nil => exact .next ht _
  | cons frame rest =>
    obtain ⟨hlive, hlive'⟩ := hcode frame (by rw [hframes]; rfl)
    have hobject := ht.heap.object?_eq hlive hlive'
    simp only [← hobject]
    split
    · rename_i code ho
      split
      · rename_i instr hinstr
        have hnow : ∀ {h : Heap}, vm.Sound h →
            Vm.Sound { vm with frames := { frame with ip := frame.ip + 1 } :: rest } h :=
          fun h => h
        refine twins_exec ht hclosed hclosed' (hnow hvm) (hnow hvm') (fun v hv => ?_) _ ?_
        · have hedge : v ∈ (Object.function code).edges := by simpa [Object.edges] using hv
          exact ht.heap.agree hclosed hclosed' (hclosed _ _ ho v hedge)
            (hclosed' _ _ (hobject.symm.trans ho) v hedge)
        · rintro argc rfl v f hv hf
          refine hcallee v f ?_ hf
          simp only [callee?, hframes, ho, hinstr]
          exact hv
      · exact .ret ht _
    · exact .failed ht _ _

end

/-- What a call calls once it is laid out: its function, if the number of arguments is a word. -/
def called? (vm : Vm) (function : Value) (args : Array Value) : Option Value :=
  ((vm.push function).pushAll args).below (UInt64.ofNat args.size)

/-- The call of a function. -/
theorem twins_enter (ht : s.Twins s') (hclosed : s.heap.Closed) (hclosed' : s'.heap.Closed)
    (hvm : vm.Sound s.heap) (hvm' : vm.Sound s'.heap) {function : Value} {args : Array Value}
    (hheld : ∀ v, v = function ∨ v ∈ args → s.heap.Holds v ∧ s'.heap.Holds v)
    (hcallee : ∀ v f, vm.called? function args = some v → s.heap.deref? v = some (.native f) →
      f.oblivious = true) :
    TwinSteps (vm.enter me function args s) (vm.enter me function args s') := by
  let laid : Vm := ({ vm with error := false, entry := vm.depth }.push function).pushAll args
  have hlaid : ∀ v ∈ laid.stack, s.heap.Holds v ∧ s'.heap.Holds v := by
    intro v hv
    rcases Array.mem_append.1 hv with hv | hv
    · rcases Array.mem_push.1 hv with hv | rfl
      · exact ⟨hvm v hv, hvm' v hv⟩
      · exact hheld v (.inl rfl)
    · exact hheld v (.inr hv)
  have hsound : laid.Sound s.heap := fun v hv => (hlaid v hv).1
  have hsound' : laid.Sound s'.heap := fun v hv => (hlaid v hv).2
  exact twins_invoke ht hclosed hclosed' hsound hsound' hcallee

end Vm

end ScriptCore
