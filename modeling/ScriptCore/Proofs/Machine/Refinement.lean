import ScriptCore.Proofs.Machine.Evaluation

/-!
# The machine refines evaluation

The machine keeps the operands of all its calls on one stack. As long as every instruction finds its
operands above the arguments of its own frame, this cannot be observed.

* `piled`, `Site`: how a call and its callers lie on the stack;
* `Site.exec_effect`: one instruction of the machine against its effect on private operands;
* `Evaluates.runs`, `Vm.Runs.evaluates`: evaluations and stretches of runs correspond;
* `runs_enter_iff_evaluates`: whole calls.
-/

namespace ScriptCore

/-! ### Operands on a stack -/

/-- Operands, topmost first, on top of a stack. -/
def piled (under : Array Value) : List Value → Array Value
  | [] => under
  | v :: ops => (piled under ops).push v

section piled

variable (under : Array Value) (ops : List Value) (v : Value)

@[simp] theorem piled_nil : piled under [] = under := rfl

theorem push_piled : (piled under ops).push v = piled under (v :: ops) := rfl

@[simp] theorem pop_piled : (piled under (v :: ops)).pop = piled under ops := Array.pop_push

@[simp] theorem back?_piled : (piled under (v :: ops)).back? = some v := Array.back?_push

@[simp] theorem size_piled : (piled under ops).size = under.size + ops.length := by
  induction ops with
  | nil => rfl
  | cons v ops ih => rw [← push_piled, Array.size_push, ih]; rfl

theorem piled_eq_append : piled under ops = under ++ ops.reverse.toArray := by
  induction ops with
  | nil => simp
  | cons v ops ih => rw [← push_piled, ih]; simp

theorem piled_append (ops' : List Value) :
    piled under (ops' ++ ops) = piled (piled under ops) ops' := by
  induction ops' with
  | nil => rfl
  | cons v ops' ih => rw [List.cons_append, ← push_piled, ih]; rfl

theorem getElem?_piled {i : Nat} (hi : i < under.size) : (piled under ops)[i]? = under[i]? := by
  rw [piled_eq_append, Array.getElem?_append_left hi]

theorem shrink_piled {n : Nat} (hn : n ≤ under.size) :
    (piled under ops).shrink n = under.shrink n := by
  rw [piled_eq_append, Array.shrink_eq_take, Array.shrink_eq_take, Array.take_eq_extract,
    Array.extract_append, Nat.sub_eq_zero_of_le hn]
  simp

/-- Arguments in their order on top of a callee. -/
theorem piled_call (callee : Value) (args : Array Value) :
    piled under (args.toList.reverse ++ callee :: ops) = (piled under ops).push callee ++ args := by
  rw [piled_append, ← push_piled, piled_eq_append (Array.push _ _), List.reverse_reverse]

end piled

/-! ### Sites of calls -/

/-- Where a call takes place: what lies below the callee, the calls that wait for it, and the depth
to which a failure unwinds. -/
structure Site where
  below : Array Value
  callers : List Frame
  entry : Nat
  entry_le : entry ≤ below.size

namespace Site

/-- Callee and arguments are laid out. -/
def laid (p : Site) (callee : Value) (args : Array Value) : Vm :=
  ⟨p.below.push callee ++ args, p.callers, p.entry, false⟩

/-- A bytecode call is under way. -/
def inside (p : Site) (c : CellId) (args : Array Value) (ip : Nat) (ops : List Value) : Vm :=
  ⟨piled (p.below.push (.ref c) ++ args) ops, ⟨c, ip, p.below.size + 1⟩ :: p.callers, p.entry,
    false⟩

/-- The call is over. -/
def landing (p : Site) (s : Store) : Except Cause Value → Vm × Store × Signal
  | .ok v => (⟨p.below.push v, p.callers, p.entry, false⟩, s, .next)
  | .error c => (⟨p.below, p.callers, p.entry, false⟩, s, .failed c)

/-- The site of a call that a body makes. -/
def nested (p : Site) (c : CellId) (args : Array Value) (ip : Nat) (ops : List Value) : Site where
  below := piled (p.below.push (.ref c) ++ args) ops
  callers := ⟨c, ip, p.below.size + 1⟩ :: p.callers
  entry := p.entry
  entry_le := by
    have := p.entry_le
    simp only [size_piled, Array.size_append, Array.size_push]
    omega

variable {p : Site} {me : Caller} {c : CellId} {code : Code} {args : Array Value} {ip : Nat}
  {ops : List Value} {s : Store} {instr : Instr}

theorem stack_laid (p : Site) (callee : Value) (args : Array Value) :
    (p.laid callee args).stack = p.below ++ (#[callee] ++ args) := by
  simp [laid]

theorem stack_inside (p : Site) (c : CellId) (args : Array Value) (ip : Nat) (ops : List Value) :
    (p.inside c args ip ops).stack = p.below ++ (#[.ref c] ++ args ++ ops.reverse.toArray) := by
  simp [inside, piled_eq_append]

/-- A body that calls. -/
theorem inside_call {callee : Value} {args' : Array Value} :
    p.inside c args ip (args'.toList.reverse ++ callee :: ops) =
      (p.nested c args ip ops).laid callee args' := by
  rw [inside, piled_call]
  rfl

theorem landing_nested (v : Value) :
    (p.nested c args ip ops).landing s (.ok v) = (p.inside c args ip (v :: ops), s, .next) := rfl

/-! ### Instructions -/

theorem step_inside (ho : s.heap.object? c = some (.function code))
    (hi : code.instrs[ip]? = some instr) :
    (p.inside c args ip ops).step me s =
      (p.inside c args (ip + 1) ops).exec me code (p.below.size + 1) instr s := by
  simp [Vm.step, inside, ho, hi]

@[simp] theorem peek?_inside_cons (v : Value) : (p.inside c args ip (v :: ops)).peek? = some v :=
  back?_piled _ _ _

@[simp] theorem dropTop_inside_cons (v : Value) :
    (p.inside c args ip (v :: ops)).dropTop = p.inside c args ip ops := by
  simp [Vm.dropTop, inside]

@[simp] theorem pushOr_inside (r : Except Cause Value) :
    (p.inside c args ip ops).pushOr s r =
      match r with
      | .ok v => (p.inside c args ip (v :: ops), s, .next)
      | .error e => (p.inside c args ip ops, s, .failed e) := by
  cases r <;> rfl

/-- The arguments lie below the operands. -/
theorem getElem?_inside {i : Nat} (hi : i < args.size) :
    (p.inside c args ip ops).stack[p.below.size + 1 + i]? = args[i]? := by
  rw [inside, getElem?_piled _ _ (by simp; omega), Array.getElem?_append_right (by simp)]
  simp

/-- What the machine signals against the effect on private operands. -/
inductive Mirrors (p : Site) (c : CellId) (args : Array Value) (ip : Nat) :
    Option (Store × Except Cause (List Value)) → Vm × Store × Signal → Prop
  | next {s : Store} {ops : List Value} :
      Mirrors p c args ip (some (s, .ok ops)) (p.inside c args ip ops, s, .next)
  | failed {s : Store} {e : Cause} {ops : List Value} :
      Mirrors p c args ip (some (s, .error e)) (p.inside c args ip ops, s, .failed e)
  | panicked {s : Store} {vm : Vm} {q : Panic} : Mirrors p c args ip none (vm, s, .panicked q)

/-- An operand that is there is on top. -/
theorem exists_operand {n : Nat} (hn : n + 1 ≤ ops.length) :
    ∃ v rest, ops = v :: rest ∧ n ≤ rest.length := by
  cases ops with
  | nil => cases hn
  | cons v rest => exact ⟨v, rest, rfl, Nat.le_of_succ_le_succ hn⟩

/-- An instruction on the common stack does what it does to private operands, when these are
there. -/
theorem exec_effect (hargs : code.arity.toNat = args.size)
    (htakes : instr.takes s.heap code ≤ ops.length) (hcall : ∀ argc, instr ≠ .call argc)
    (hret : instr ≠ .ret) :
    p.Mirrors c args ip (code.effect me args s instr ops)
      ((p.inside c args ip ops).exec me code (p.below.size + 1) instr s) := by
  cases instr with
  | const i =>
    simp only [Vm.exec, Code.effect, pushOr_inside]
    cases Vm.constant code i with
    | ok v => exact .next
    | error e => exact .failed
  | arg i =>
    simp only [Vm.exec, Code.effect]
    by_cases hi : code.arity ≤ i
    · rw [if_pos hi, if_pos hi]
      exact .failed
    · have hlt : i.toNat < args.size := by
        rw [← hargs]
        exact UInt64.lt_iff_toNat_lt.1 (UInt64.not_le.1 hi)
      rw [if_neg hi, if_neg hi, getElem?_inside hlt, Array.getElem?_eq_getElem hlt]
      exact .next
  | global i =>
    simp only [Vm.exec, Code.effect]
    cases Vm.nameConstant s.heap code i with
    | error e => exact .failed
    | ok name =>
      cases hv : s.global? name with
      | some v => simp only [hv]; exact .next
      | none => simp only [hv]; exact .failed
  | arith op =>
    obtain ⟨r, ops, rfl, hl⟩ := exists_operand (n := 1) htakes
    obtain ⟨l, ops, rfl, -⟩ := exists_operand hl
    simp only [Vm.exec, Code.effect, peek?_inside_cons, dropTop_inside_cons, pushOr_inside]
    cases (Vm.arith me op l r s).2 with
    | ok v => exact .next
    | error e => exact .failed
  | getAttr i =>
    simp only [Instr.takes] at htakes
    simp only [Vm.exec, Code.effect]
    cases hname : Vm.nameConstant s.heap code i with
    | error e => exact .failed
    | ok name =>
      rw [hname] at htakes
      obtain ⟨receiver, ops, rfl, -⟩ := exists_operand (n := 0) htakes
      simp only [peek?_inside_cons, dropTop_inside_cons]
      rcases s.heap.attribute? receiver name with _ | ⟨v | m⟩
      · cases receiver <;> exact .failed
      · cases receiver <;> exact .next
      · cases receiver with
        | ref d => exact .next
        | _ => exact .failed
  | setAttr i =>
    simp only [Instr.takes] at htakes
    simp only [Vm.exec, Code.effect]
    cases hname : Vm.nameConstant s.heap code i with
    | error e => exact .failed
    | ok name =>
      rw [hname] at htakes
      obtain ⟨v, ops, rfl, hreceiver⟩ := exists_operand (n := 1) htakes
      obtain ⟨receiver, ops, rfl, -⟩ := exists_operand hreceiver
      simp only [peek?_inside_cons, dropTop_inside_cons]
      cases s.heap.attributeChange receiver name v with
      | ok q => exact .next
      | error e => exact .failed
  | pop =>
    obtain ⟨v, ops, rfl, -⟩ := exists_operand (n := 0) htakes
    simp only [Vm.exec, Code.effect, peek?_inside_cons, dropTop_inside_cons]
    exact .next
  | raise =>
    obtain ⟨v, ops, rfl, -⟩ := exists_operand (n := 0) htakes
    simp only [Vm.exec, Code.effect, peek?_inside_cons, dropTop_inside_cons, Vm.raised]
    cases s.heap.error? v with
    | some f => exact .failed
    | none =>
      cases s.heap.text? v with
      | some t => exact .failed
      | none => exact .panicked
  | call argc => exact absurd rfl (hcall argc)
  | ret => exact absurd rfl hret

/-- Instructions with an effect find their operands. -/
theorem takes_le_of_effect {r : Store × Except Cause (List Value)}
    (he : code.effect me args s instr ops = some r) : instr.takes s.heap code ≤ ops.length := by
  cases instr with
  | const i | arg i | global i => exact Nat.zero_le _
  | call argc | ret => cases he
  | pop | raise =>
    cases ops with
    | nil => cases he
    | cons v ops => exact Nat.le_add_left _ _
  | arith op =>
    rcases ops with _ | ⟨r, _ | ⟨l, ops⟩⟩
    · cases he
    · cases he
    · exact Nat.le_add_left _ _
  | getAttr i =>
    simp only [Instr.takes, Code.effect] at he ⊢
    cases hname : Vm.nameConstant s.heap code i with
    | error e => exact Nat.zero_le _
    | ok name =>
      rw [hname] at he
      cases ops with
      | nil => cases he
      | cons v ops => exact Nat.le_add_left _ _
  | setAttr i =>
    simp only [Instr.takes, Code.effect] at he ⊢
    cases hname : Vm.nameConstant s.heap code i with
    | error e => exact Nat.zero_le _
    | ok name =>
      rw [hname] at he
      rcases ops with _ | ⟨v, _ | ⟨receiver, ops⟩⟩
      · cases he
      · cases he
      · exact Nat.le_add_left _ _

theorem mirrors_of_effect (p : Site) (c : CellId) (ip : Nat)
    {r : Store × Except Cause (List Value)} (hargs : code.arity.toNat = args.size)
    (he : code.effect me args s instr ops = some r) :
    p.Mirrors c args ip (some r)
      ((p.inside c args ip ops).exec me code (p.below.size + 1) instr s) := by
  rw [← he]
  refine exec_effect hargs (takes_le_of_effect he) ?_ ?_
  · rintro argc rfl
    cases he
  · rintro rfl
    cases he

theorem exec_of_effect_ok {s₁ : Store} {ops' : List Value} (hargs : code.arity.toNat = args.size)
    (he : code.effect me args s instr ops = some (s₁, .ok ops')) :
    (p.inside c args ip ops).exec me code (p.below.size + 1) instr s =
      (p.inside c args ip ops', s₁, .next) := by
  have hm := mirrors_of_effect p c ip hargs he
  generalize hr : (p.inside c args ip ops).exec me code (p.below.size + 1) instr s = r at hm
  cases hm
  rfl

theorem exec_of_effect_error {s₁ : Store} {e : Cause} (hargs : code.arity.toNat = args.size)
    (he : code.effect me args s instr ops = some (s₁, .error e)) :
    ∃ ops', (p.inside c args ip ops).exec me code (p.below.size + 1) instr s =
      (p.inside c args ip ops', s₁, .failed e) := by
  have hm := mirrors_of_effect p c ip hargs he
  generalize (p.inside c args ip ops).exec me code (p.below.size + 1) instr s = r at hm
  cases hm
  exact ⟨_, rfl⟩

/-! ### The end of a call -/

variable {env : Surroundings} {trace : List (Vm × Store)} {vm vm' : Vm} {s' : Store}
  {x : Option Cause} {callee : Value} {more : Array Value} {v : Value}

theorem ret_inside : (p.inside c args ip (v :: ops)).ret s = p.landing s (.ok v) := by
  have hshrink : (piled (p.below.push (.ref c) ++ args) ops).shrink p.below.size = p.below := by
    rw [shrink_piled _ _ (by simp; omega)]
    simp
  simp only [Vm.ret, peek?_inside_cons, dropTop_inside_cons]
  simp only [inside, Vm.truncate, Vm.push, landing, Nat.add_sub_cancel, hshrink]

/-- A failure anywhere above the site unwinds as one at the site. -/
theorem runs_failed_iff {e : Cause} (hentry : vm.entry = p.entry)
    (hstack : vm.stack = p.below ++ more) :
    Vm.Runs env me trace (vm, s, .failed e) vm' s' x ↔
      Vm.Runs env me trace (p.landing s (.error e)) vm' s' x := by
  have hfail : vm.fail me e s = Vm.fail me e ⟨p.below, p.callers, p.entry, false⟩ s := by
    have hshrink : (p.below ++ more).shrink p.entry = p.below.shrink p.entry := by
      rw [Array.shrink_eq_take, Array.shrink_eq_take, Array.take_eq_extract, Array.extract_append,
        Nat.sub_eq_zero_of_le p.entry_le]
      simp
    simp only [Vm.fail, Vm.truncate, hentry, hstack, hshrink]
  constructor
  · rintro (_ | _ | _ | _)
    rw [hfail]
    exact .failed
  · rintro (_ | _ | _ | _)
    rw [← hfail]
    exact .failed

theorem not_runs_panicked {q : Panic} : ¬ Vm.Runs env me trace (vm, s, .panicked q) vm' s' x := by
  rintro (_ | _)

/-- A value takes the place of callee and arguments. -/
theorem replace_laid (v : Value) (s : Store) :
    (((p.laid callee args).truncate p.below.size).push v, s, Signal.next) =
      p.landing s (.ok v) := by
  simp [laid, landing, Vm.truncate, Vm.push]

/-- The outcome of a wait ends a call at its site. -/
theorem runs_receive_iff {o : Outcome} :
    Vm.Runs env me trace ((p.laid callee args).receive me p.below.size s o) vm' s' x ↔
      ∃ out s₁, o.result me s = some (out, s₁) ∧
        Vm.Runs env me trace (p.landing s₁ out) vm' s' x := by
  cases o with
  | failed e => simp [Vm.receive, Outcome.result, runs_failed_iff rfl (stack_laid p callee args)]
  | panicked q => simp [Vm.receive, Outcome.result, not_runs_panicked]
  | value v => simp [Vm.receive, Outcome.result, replace_laid]
  | values vs => simp [Vm.receive, Outcome.result, replace_laid]
  | done => simp [Vm.receive, Outcome.result, replace_laid]
  | absent => simp [Vm.receive, Outcome.result, replace_laid]

theorem runs_answer_iff {r : Store × Reaction} :
    Vm.Runs env me trace ((p.laid callee args).answer p.below.size r) vm' s' x ↔
      ∃ out s₁, Answers env me r out s₁ ∧ Vm.Runs env me trace (p.landing s₁ out) vm' s' x := by
  obtain ⟨s, v | e | q | r⟩ := r
  · rw [Vm.answer, replace_laid]
    constructor
    · exact fun h => ⟨_, _, .value, h⟩
    · rintro ⟨_, _, ⟨⟩, h⟩
      exact h
  · rw [Vm.answer, runs_failed_iff rfl (stack_laid p callee args)]
    constructor
    · exact fun h => ⟨_, _, .failed, h⟩
    · rintro ⟨_, _, ⟨⟩, h⟩
      exact h
  · constructor
    · exact fun h => absurd h not_runs_panicked
    · rintro ⟨_, _, ⟨⟩, _⟩
  · constructor
    · rintro (_ | _ | _ | ⟨hg, h⟩)
      obtain ⟨out, s₁, ho, h⟩ := runs_receive_iff.1 h
      exact ⟨out, s₁, .waited hg ho, h⟩
    · rintro ⟨out, s₁, _ | _ | ⟨hg, ho⟩, h⟩
      exact .granted hg (runs_receive_iff.2 ⟨out, s₁, ho, h⟩)

/-! ### The beginning of a call -/

theorem toNat_ofNat_of_succ_lt {n : Nat} (hn : n + 1 < UInt64.size) : (UInt64.ofNat n).toNat = n :=
  UInt64.toNat_ofNat_of_lt' (Nat.lt_of_succ_lt hn)

theorem invoke_laid (hlt : args.size + 1 < UInt64.size) :
    (p.laid callee args).invoke me (UInt64.ofNat args.size) s =
      match callee, s.heap.deref? callee with
      | .ref c, some (.function code) =>
          if code.arity.toNat = args.size then (p.inside c args 0 [], s, .next)
          else (p.laid callee args, s,
            .failed (.arity code.name (.exact code.arity.toNat) args.size))
      | _, some (.native f) => (p.laid callee args).answer p.below.size (f.call me args s)
      | _, some (.bound receiver m) =>
          (p.laid callee args).answer p.below.size (m.call me receiver args s)
      | _, _ => (p.laid callee args, s, .failed (.notCallable (s.heap.typeOf callee))) := by
  have hcount := toNat_ofNat_of_succ_lt hlt
  have harity : ∀ code : Code,
      code.arity = UInt64.ofNat args.size ↔ code.arity.toNat = args.size := by
    intro code
    rw [← UInt64.toNat_inj, hcount]
  have hdepth : (p.laid callee args).depth = p.below.size + (args.size + 1) := by
    simp only [Vm.depth, laid, Array.size_append, Array.size_push]
    omega
  have hcallee : (p.laid callee args).stack.getD p.below.size .nil = callee := by
    rw [stack_laid]
    simp [Array.getElem?_append]
  have hdrop : (p.laid callee args).stack.drop (p.below.size + 1) = args := by
    simp [laid]
  unfold Vm.invoke
  rw [hcount, if_neg hlt.ne, hdepth, if_neg (by omega), Nat.add_sub_cancel]
  simp only [hcallee, hdrop, harity]
  cases callee with
  | ref c =>
    rcases s.heap.deref? (.ref c) with _ | o
    · rfl
    · cases o <;> rfl
  | _ => rfl

theorem invoke_function (hlt : args.size + 1 < UInt64.size)
    (ho : s.heap.object? c = some (.function code)) (harity : code.arity.toNat = args.size) :
    (p.laid (.ref c) args).invoke me (UInt64.ofNat args.size) s =
      (p.inside c args 0 [], s, .next) := by
  have hd : s.heap.deref? (.ref c) = some (.function code) := ho
  rw [invoke_laid hlt, hd]
  simp only [if_pos harity]

/-- A call without bytecode is over at once. -/
theorem runs_invoke_of_responds (hlt : args.size + 1 < UInt64.size) {out : Except Cause Value}
    {s₁ : Store} (hr : Responds env me callee args s out s₁)
    (hrun : Vm.Runs env me trace (p.landing s₁ out) vm' s' x) :
    Vm.Runs env me trace ((p.laid callee args).invoke me (UInt64.ofNat args.size) s) vm' s' x := by
  rw [invoke_laid hlt]
  cases hr with
  | arity hd hne =>
    obtain ⟨c, rfl⟩ : ∃ c, callee = .ref c := by
      cases callee with
      | ref c => exact ⟨c, rfl⟩
      | _ => cases hd
    simp only [hd, if_neg hne]
    exact (runs_failed_iff rfl (stack_laid _ _ _)).2 hrun
  | native hd ha =>
    simp only [hd]
    exact runs_answer_iff.2 ⟨_, _, ha, hrun⟩
  | method hd ha =>
    simp only [hd]
    exact runs_answer_iff.2 ⟨_, _, ha, hrun⟩
  | notCallable hd =>
    have hfailed := (runs_failed_iff rfl (stack_laid p callee args)).2 hrun
    split
    · rename_i hc; cases hd _ hc
    · rename_i hc; cases hd _ hc
    · rename_i hc; cases hd _ hc
    · exact hfailed

/-- A call enters bytecode or is over at once. -/
theorem runs_invoke_cases (hlt : args.size + 1 < UInt64.size)
    (hrun : Vm.Runs env me trace ((p.laid callee args).invoke me (UInt64.ofNat args.size) s)
      vm' s' x) :
    (∃ c code, callee = .ref c ∧ s.heap.object? c = some (.function code) ∧
      code.arity.toNat = args.size ∧
      Vm.Runs env me trace (p.inside c args 0 [], s, .next) vm' s' x) ∨
    ∃ out s₁, Responds env me callee args s out s₁ ∧
      Vm.Runs env me trace (p.landing s₁ out) vm' s' x := by
  rw [invoke_laid hlt] at hrun
  split at hrun
  · rename_i c code hd
    split at hrun
    · rename_i harity
      exact .inl ⟨c, code, rfl, hd, harity, hrun⟩
    · rename_i harity
      exact .inr ⟨_, _, .arity hd harity, (runs_failed_iff rfl (stack_laid _ _ _)).1 hrun⟩
  · rename_i hd
    obtain ⟨out, s₁, ha, hrun⟩ := runs_answer_iff.1 hrun
    exact .inr ⟨out, s₁, .native hd ha, hrun⟩
  · rename_i hd
    obtain ⟨out, s₁, ha, hrun⟩ := runs_answer_iff.1 hrun
    exact .inr ⟨out, s₁, .method hd ha, hrun⟩
  · rename_i callee _ _ hnative hbound hfunction
    refine .inr ⟨_, _, .notCallable ?_, (runs_failed_iff rfl (stack_laid _ _ _)).1 hrun⟩
    intro o ho
    cases callee with
    | ref c =>
      cases o with
      | function code => cases hfunction c code rfl ho
      | native f => cases hnative f ho
      | bound receiver m => cases hbound receiver m ho
      | _ => rfl
    | _ => cases ho

end Site

/-! ### Simulation -/

/-- A function in the cell takes that many arguments. -/
def Heap.Matches (h : Heap) (c : CellId) (args : Array Value) : Prop :=
  c < h.size ∧ ∀ code, h.object? c = some (.function code) → code.arity.toNat = args.size

theorem Heap.matches_of_object? {h : Heap} {c : CellId} {args : Array Value} {code : Code}
    (ho : h.object? c = some (.function code)) (harity : code.arity.toNat = args.size) :
    h.Matches c args := by
  refine ⟨Heap.lt_size_of_object? ho, fun code' ho' => ?_⟩
  rw [ho] at ho'
  cases ho'
  exact harity

theorem Heap.KeepsCode.matches {h h' : Heap} {c : CellId} {args : Array Value}
    (hk : h.KeepsCode h') (hm : h.Matches c args) : h'.Matches c args :=
  ⟨hm.1.trans_le hk.size_le, fun code ho => hm.2 code (hk.code c code hm.1 ho)⟩

namespace Work

/-- Arguments can be counted, and the body is that of a function with these arguments. -/
def Fits (h : Heap) : Work → Prop
  | .call _ args => args.size + 1 < UInt64.size
  | .body c args _ _ => h.Matches c args

/-- The machine about to do the work. -/
def start (p : Site) (me : Caller) (s : Store) : Work → Vm × Store × Signal
  | .call callee args => (p.laid callee args).invoke me (UInt64.ofNat args.size) s
  | .body c args ip ops => (p.inside c args ip ops, s, .next)

end Work

namespace Site

variable {p : Site} {env : Surroundings} {me : Caller} {c : CellId} {code : Code}
  {args : Array Value} {ip : Nat} {ops : List Value} {s s₀ s₁ s' : Store} {instr : Instr}
  {trace : List (Vm × Store)} {vm' : Vm} {x : Option Cause} {out : Except Cause Value} {h : Heap}

theorem disciplined_inside (ho : h.object? c = some (.function code))
    (harity : code.arity.toNat = args.size) :
    (p.inside c args ip ops).Disciplined h ↔
      (code.instrs[ip]?.map (·.takes h code)).getD 0 ≤ ops.length := by
  have hdepth : (p.inside c args ip ops).depth = p.below.size + 1 + args.size + ops.length := by
    simp [Vm.depth, inside]
  have hfloor : (p.inside c args ip ops).floor h = p.below.size + 1 + args.size := by
    simp [Vm.floor, inside, ho, harity]
  have hdemand : (p.inside c args ip ops).demand h =
      (code.instrs[ip]?.map (·.takes h code)).getD 0 := by
    simp [Vm.demand, inside, ho]
  rw [Vm.Disciplined, hdepth, hfloor, hdemand]
  omega

theorem step_noCode (ho : ∀ code, s.heap.object? c ≠ some (.function code)) :
    (p.inside c args ip ops).step me s = (p.inside c args ip ops, s, .failed .noBytecode) := by
  simp only [Vm.step, inside]

theorem disciplined_noCode (ho : ∀ code, h.object? c ≠ some (.function code)) :
    (p.inside c args ip ops).Disciplined h := by
  have hfloor : (p.inside c args ip ops).floor h = 0 := by
    simp only [Vm.floor, inside]
  have hdemand : (p.inside c args ip ops).demand h = 0 := by
    simp only [Vm.demand, inside]
  rw [Vm.Disciplined, hfloor, hdemand]
  exact Nat.zero_le _

theorem step_fall (ho : s.heap.object? c = some (.function code)) (hi : code.instrs[ip]? = none) :
    (p.inside c args ip ops).step me s = p.landing s (.ok .nil) := by
  have hret : (p.inside c args (ip + 1) (.nil :: ops)).ret s = p.landing s (.ok .nil) := ret_inside
  rw [← hret]
  simp only [Vm.step, inside, ho, hi]
  rfl

theorem step_ret {v : Value} (ho : s.heap.object? c = some (.function code))
    (hi : code.instrs[ip]? = some .ret) :
    (p.inside c args ip (v :: ops)).step me s = p.landing s (.ok v) := by
  rw [step_inside ho hi]
  exact ret_inside

end Site

section simulation

variable {env : Surroundings} {me : Caller} {work : Work} {p : Site} {s s₁ s' : Store}
  {out : Except Cause Value} {trace : List (Vm × Store)} {vm' : Vm} {x : Option Cause}

theorem Fetches.matches {c : CellId} {code : Code} {args : Array Value} {ip : Nat} {s₀ : Store}
    {i : Option Instr} (hf : Fetches env c ip s s₀ code i) (hm : s.heap.Matches c args) :
    s₀.heap.Matches c args :=
  (env.drifts_code _ _ hf.drifts).matches hm

theorem Fetches.arity {c : CellId} {code : Code} {args : Array Value} {ip : Nat} {s₀ : Store}
    {i : Option Instr} (hf : Fetches env c ip s s₀ code i) (hm : s.heap.Matches c args) :
    code.arity.toNat = args.size :=
  (hf.matches hm).2 code hf.object

/-- An instruction whose operands are there is disciplined. -/
theorem Fetches.disciplined {c : CellId} {code : Code} {args : Array Value} {ip : Nat}
    {ops : List Value} {s₀ : Store} {instr : Instr} (hf : Fetches env c ip s s₀ code (some instr))
    (hm : s.heap.Matches c args) (htakes : instr.takes s₀.heap code ≤ ops.length) :
    (p.inside c args ip ops).Disciplined s₀.heap := by
  rw [Site.disciplined_inside hf.object (hf.arity hm), hf.instr]
  exact htakes

/-- One more instruction before a run. -/
theorem Vm.Runs.after {c : CellId} {args : Array Value} {ip : Nat} {ops : List Value} {s₀ : Store}
    {trace' : List (Vm × Store)} (hdrifts : env.drifts s s₀)
    (hd : (p.inside c args ip ops).Disciplined s₀.heap)
    (htrace : ∀ st ∈ trace', st.1.Disciplined st.2.heap)
    (hrun : Runs env me (trace' ++ trace) ((p.inside c args ip ops).step me s₀) vm' s' x) :
    ∃ trace', (∀ st ∈ trace', st.1.Disciplined st.2.heap) ∧
      Runs env me (trace' ++ trace) (p.inside c args ip ops, s, .next) vm' s' x := by
  refine ⟨(p.inside c args ip ops, s₀) :: trace', ?_, .step (List.cons_ne_nil _ _) hdrifts hrun⟩
  rintro st (_ | ⟨_, hst⟩)
  · exact hd
  · exact htrace st hst

/-- Callee and arguments are the operands of a call. -/
theorem call_takes_le {h : Heap} {code : Code} {argc : UInt64} {args : Array Value} {callee : Value}
    {ops : List Value} (hsize : args.size = argc.toNat) :
    (Instr.call argc).takes h code ≤ (args.toList.reverse ++ callee :: ops).length := by
  simp [Instr.takes, hsize]

/-- Whatever is evaluated, the machine does from any site, and lands with the result. -/
theorem Evaluates.runs (he : Evaluates env me work s out s₁) (hfits : work.Fits s.heap)
    (hrun : Vm.Runs env me trace (p.landing s₁ out) vm' s' x) :
    ∃ trace', (∀ st ∈ trace', st.1.Disciplined st.2.heap) ∧
      Vm.Runs env me (trace' ++ trace) (work.start p me s) vm' s' x := by
  induction he generalizing p trace with
  | enter ho harity hbody ih =>
    obtain ⟨trace', htrace, hrun⟩ := ih (Heap.matches_of_object? ho harity) hrun
    refine ⟨trace', htrace, ?_⟩
    rwa [Work.start, Site.invoke_function hfits ho harity]
  | responds hr => exact ⟨[], by simp, Site.runs_invoke_of_responds hfits hr hrun⟩
  | noCode hdrifts ho =>
    refine Vm.Runs.after hdrifts (Site.disciplined_noCode ho) (List.forall_mem_nil _) ?_
    rw [Site.step_noCode ho]
    exact (Site.runs_failed_iff rfl (Site.stack_inside _ _ _ _ _)).2 hrun
  | fall hf =>
    refine Vm.Runs.after hf.drifts ?_ (List.forall_mem_nil _) ?_
    · rw [Site.disciplined_inside hf.object (hf.arity hfits), hf.instr]
      exact Nat.zero_le _
    · rwa [Site.step_fall hf.object hf.instr]
  | ret hf =>
    refine Vm.Runs.after hf.drifts (hf.disciplined hfits ?_) (List.forall_mem_nil _) ?_
    · exact Nat.le_add_left _ _
    · rwa [Site.step_ret hf.object hf.instr]
  | step hf heff hrest ih =>
    have hm := (Code.keepsCode_effect heff).matches (hf.matches hfits)
    obtain ⟨trace', htrace, hrun⟩ := ih hm hrun
    refine Vm.Runs.after hf.drifts (hf.disciplined hfits (Site.takes_le_of_effect heff)) htrace ?_
    rwa [Site.step_inside hf.object hf.instr, Site.exec_of_effect_ok (hf.arity hfits) heff]
  | stop hf heff =>
    obtain ⟨ops', hexec⟩ := Site.exec_of_effect_error (hf.arity hfits) heff
    refine Vm.Runs.after hf.drifts (hf.disciplined hfits (Site.takes_le_of_effect heff))
      (List.forall_mem_nil _) ?_
    rw [Site.step_inside hf.object hf.instr, hexec]
    exact (Site.runs_failed_iff rfl (Site.stack_inside _ _ _ _ _)).2 hrun
  | @call c code args args' ip argc callee v ops s s₀ s₁ _ out hf hsize hlt hcall hrest ih₁ ih₂ =>
    have hargc : UInt64.ofNat args'.size = argc := by rw [hsize, UInt64.ofNat_toNat]
    -- the rest of the body comes first: what the call lands in is where the rest starts
    obtain ⟨trace₂, htrace₂, hrun₂⟩ := ih₂ (hcall.keepsCode.matches (hf.matches hfits)) hrun
    rw [Work.start, ← Site.landing_nested] at hrun₂
    obtain ⟨trace₁, htrace₁, hrun₁⟩ := ih₁ (by rwa [Work.Fits, hsize]) hrun₂
    rw [Work.start, hargc, ← Site.inside_call, ← List.append_assoc] at hrun₁
    refine Vm.Runs.after hf.drifts (hf.disciplined hfits (call_takes_le hsize))
      (List.forall_mem_append.2 ⟨htrace₁, htrace₂⟩) ?_
    rwa [Site.step_inside hf.object hf.instr]
  | @callStop c code args args' ip argc callee ops s s₀ s₁ e hf hsize hlt hcall ih =>
    have hargc : UInt64.ofNat args'.size = argc := by rw [hsize, UInt64.ofNat_toNat]
    -- a failure unwinds to the outermost call, so it lands alike from the nested site and from `p`
    have hrun' : Vm.Runs env me trace ((p.nested c args (ip + 1) ops).landing s₁ (.error e))
        vm' s' x :=
      (Site.runs_failed_iff rfl (Site.stack_inside p c args (ip + 1) ops)).2 hrun
    obtain ⟨trace₁, htrace₁, hrun₁⟩ := ih (by rwa [Work.Fits, hsize]) hrun'
    rw [Work.start, hargc, ← Site.inside_call] at hrun₁
    refine Vm.Runs.after hf.drifts (hf.disciplined hfits (call_takes_le hsize)) htrace₁ ?_
    rwa [Site.step_inside hf.object hf.instr]

/-- A run from the start of some work comes to the place where it lands. -/
def Lands (env : Surroundings) (me : Caller) (work : Work) (p : Site) (s : Store)
    (trace : List (Vm × Store)) (vm' : Vm) (s' : Store) (x : Option Cause) : Prop :=
  ∃ out s₁ rest, Evaluates env me work s out s₁ ∧ rest <:+ trace ∧
    Vm.Runs env me rest (p.landing s₁ out) vm' s' x

/-- What the induction over the instructions of a run provides: bodies land in what is left of
it. -/
def BodiesLand (env : Surroundings) (me : Caller) (trace : List (Vm × Store)) (vm' : Vm)
    (s' : Store) (x : Option Cause) : Prop :=
  ∀ p c args ip ops s rest, rest <:+ trace → s.heap.Matches c args →
    Vm.Runs env me rest ((Work.body c args ip ops).start p me s) vm' s' x →
    Lands env me (.body c args ip ops) p s rest vm' s' x

/-- The operands of a call. -/
theorem exists_call {n : Nat} {ops : List Value} (hn : n + 1 ≤ ops.length) :
    ∃ (args : Array Value) (callee : Value) (rest : List Value),
      args.size = n ∧ ops = args.toList.reverse ++ callee :: rest := by
  obtain ⟨callee, rest, hrest⟩ : ∃ callee rest, ops.drop n = callee :: rest := by
    cases hd : ops.drop n with
    | nil =>
      have := List.drop_eq_nil_iff.1 hd
      omega
    | cons callee rest => exact ⟨callee, rest, rfl⟩
  refine ⟨(ops.take n).reverse.toArray, callee, rest, ?_, ?_⟩
  · simp
    omega
  · rw [← hrest, List.reverse_reverse, List.take_append_drop]

theorem lands_call {callee : Value} {args : Array Value} (hlt : args.size + 1 < UInt64.size)
    (hrun : Vm.Runs env me trace ((Work.call callee args).start p me s) vm' s' x)
    (hbodies : BodiesLand env me trace vm' s' x) :
    Lands env me (.call callee args) p s trace vm' s' x := by
  rcases Site.runs_invoke_cases hlt hrun with
    ⟨c, code, rfl, ho, harity, hrun⟩ | ⟨out, s₁, hr, hrun⟩
  · obtain ⟨out, s₁, rest, he, hrest, hrun⟩ :=
      hbodies p c args 0 [] s _ (List.suffix_refl _) (Heap.matches_of_object? ho harity) hrun
    exact ⟨out, s₁, rest, .enter ho harity he, hrest, hrun⟩
  · exact ⟨out, s₁, trace, .responds hr, List.suffix_refl _, hrun⟩

section body

variable {c : CellId} {code : Code} {args : Array Value} {ip : Nat} {ops : List Value} {s₀ : Store}
  {instr : Instr} {st : Vm × Store}

/-- An instruction that neither calls nor returns, with the rest of the body after it. -/
theorem lands_simple (hf : Fetches env c ip s s₀ code (some instr)) (hm : s.heap.Matches c args)
    (htakes : instr.takes s₀.heap code ≤ ops.length) (hcall : ∀ argc, instr ≠ .call argc)
    (hret : instr ≠ .ret)
    (hrun : Vm.Runs env me trace ((p.inside c args ip ops).step me s₀) vm' s' x)
    (hbodies : BodiesLand env me trace vm' s' x) :
    Lands env me (.body c args ip ops) p s (st :: trace) vm' s' x := by
  rw [Site.step_inside hf.object hf.instr] at hrun
  have hmirrors : p.Mirrors c args (ip + 1) (code.effect me args s₀ instr ops) _ :=
    Site.exec_effect (hf.arity hm) htakes hcall hret
  generalize Vm.exec me code _ instr _ s₀ = r at hmirrors hrun
  generalize heff : code.effect me args s₀ instr ops = e at hmirrors
  cases hmirrors with
  | next =>
    obtain ⟨out, s₂, rest, he, hsuffix, hrun⟩ :=
      hbodies _ _ _ _ _ _ _ (List.suffix_refl _)
        ((Code.keepsCode_effect heff).matches (hf.matches hm)) hrun
    exact ⟨out, s₂, rest, .step hf heff he, hsuffix.trans (List.suffix_cons _ _), hrun⟩
  | failed =>
    exact ⟨_, _, trace, .stop hf heff, List.suffix_cons _ _,
      (Site.runs_failed_iff rfl (Site.stack_inside _ _ _ _ _)).1 hrun⟩
  | panicked => exact absurd hrun Site.not_runs_panicked

/-- A call from a body, with the rest of the body after it. -/
theorem lands_nested {argc : UInt64} (hf : Fetches env c ip s s₀ code (some (.call argc)))
    (hm : s.heap.Matches c args) (htakes : argc.toNat + 1 ≤ ops.length)
    (hrun : Vm.Runs env me trace ((p.inside c args ip ops).step me s₀) vm' s' x)
    (hbodies : BodiesLand env me trace vm' s' x) :
    Lands env me (.body c args ip ops) p s (st :: trace) vm' s' x := by
  obtain ⟨args', callee, ops, hsize, rfl⟩ := exists_call htakes
  rw [Site.step_inside hf.object hf.instr, Site.inside_call, Vm.exec] at hrun
  -- counting callee and arguments does not overflow: that would be a panic, and the run ends
  have hlt : argc.toNat + 1 < UInt64.size := by
    by_contra hge
    have heq : argc.toNat + 1 = UInt64.size :=
      Nat.le_antisymm argc.toNat_lt_size (Nat.not_lt.1 hge)
    rw [Vm.invoke, if_pos heq] at hrun
    exact Site.not_runs_panicked hrun
  have hargc : UInt64.ofNat args'.size = argc := by rw [hsize, UInt64.ofNat_toNat]
  rw [← hargc] at hrun
  obtain ⟨out, s₁, rest, he, hsuffix, hrun⟩ := lands_call (by rwa [hsize]) hrun hbodies
  have hsuffix' := hsuffix.trans (List.suffix_cons st trace)
  cases out with
  | ok v =>
    rw [Site.landing_nested] at hrun
    obtain ⟨out, s₂, rest', he', hrest', hrun⟩ :=
      hbodies _ _ _ _ _ _ _ hsuffix (he.keepsCode.matches (hf.matches hm)) hrun
    exact ⟨out, s₂, rest', .call hf hsize hlt he he', hrest'.trans hsuffix', hrun⟩
  | error e =>
    exact ⟨_, _, rest, .callStop hf hsize hlt he, hsuffix',
      (Site.runs_failed_iff rfl (Site.stack_inside p c args (ip + 1) ops)).1 hrun⟩

/-- An instruction whose operands are there, with the rest of the body after it. -/
theorem lands_instr (hf : Fetches env c ip s s₀ code (some instr)) (hm : s.heap.Matches c args)
    (htakes : instr.takes s₀.heap code ≤ ops.length)
    (hrun : Vm.Runs env me trace ((p.inside c args ip ops).step me s₀) vm' s' x)
    (hbodies : BodiesLand env me trace vm' s' x) :
    Lands env me (.body c args ip ops) p s (st :: trace) vm' s' x := by
  cases instr with
  | call argc => exact lands_nested hf hm htakes hrun hbodies
  | ret =>
    obtain ⟨v, ops, rfl, -⟩ := Site.exists_operand (n := 0) htakes
    rw [Site.step_ret hf.object hf.instr] at hrun
    exact ⟨_, _, trace, .ret hf, List.suffix_cons _ _, hrun⟩
  | _ => exact lands_simple hf hm htakes (by simp) (by simp) hrun hbodies

end body

/-- A disciplined run of a body lands with what evaluation yields. The induction is on the number of
instructions: a nested call takes some of them and leaves fewer to the rest of the body. -/
theorem lands_body {n : Nat} {c : CellId} {args : Array Value} {ip : Nat} {ops : List Value}
    (hn : trace.length ≤ n) (hdisc : ∀ st ∈ trace, st.1.Disciplined st.2.heap)
    (hm : s.heap.Matches c args)
    (hrun : Vm.Runs env me trace ((Work.body c args ip ops).start p me s) vm' s' x) :
    Lands env me (.body c args ip ops) p s trace vm' s' x := by
  induction n generalizing p trace s c args ip ops with
  | zero =>
    obtain rfl := List.eq_nil_of_length_eq_zero (Nat.le_zero.1 hn)
    cases hrun with
    | done hframes => cases hframes
  | succ n ih =>
    cases hrun with
    | done hframes => cases hframes
    | @step trace _ _ _ s₀ _ _ _ hdrifts hrun =>
      have hd := hdisc _ (List.mem_cons_self ..)
      have hdisc' : ∀ st ∈ trace, st.1.Disciplined st.2.heap :=
        fun st hst => hdisc st (List.mem_cons_of_mem _ hst)
      have hlen : trace.length ≤ n := Nat.le_of_succ_le_succ hn
      by_cases hcode : ∃ code, s₀.heap.object? c = some (.function code)
      · obtain ⟨code, ho⟩ := hcode
        have hf : Fetches env c ip s s₀ code code.instrs[ip]? := ⟨hdrifts, ho, rfl⟩
        have harity := hf.arity hm
        rw [Site.disciplined_inside ho harity] at hd
        rcases hi : code.instrs[ip]? with _ | instr <;> rw [hi] at hf hd
        · rw [Site.step_fall ho hi] at hrun
          exact ⟨_, _, trace, .fall hf, List.suffix_cons _ _, hrun⟩
        -- bodies within the rest of the run have fewer instructions
        · refine lands_instr hf hm hd hrun fun p c args ip ops s rest hsuffix hm hrun => ?_
          have hdisc'' := fun st hst => hdisc' st (hsuffix.mem hst)
          exact ih (hsuffix.length_le.trans hlen) hdisc'' hm hrun
      · replace hcode := not_exists.1 hcode
        rw [Site.step_noCode hcode] at hrun
        exact ⟨_, _, trace, .noCode hdrifts hcode, List.suffix_cons _ _,
          (Site.runs_failed_iff rfl (Site.stack_inside _ _ _ _ _)).1 hrun⟩

end simulation

/-! ### Whole calls -/

/-- How a result shows on a machine: one more operand, no frame, and whether the call failed.  A
failure is an error object with its kind and message, made last. -/
inductive Vm.Shows (me : Caller) (stack : Array Value) :
    Except Cause Value → Store → Vm → Store → Prop
  | value {v : Value} {s : Store} : Shows me stack (.ok v) s ⟨stack.push v, [], stack.size, false⟩ s
  | error {e : Cause} {s s' : Store} {c : CellId} : s.make me.storage (.error e.failure) = (s', c) →
      s'.heap.object? c = some (.error e.failure) →
      Shows me stack (.error e) s ⟨stack.push (.ref c), [], stack.size, true⟩ s'

section calls

variable {env : Surroundings} {me : Caller} {function : Value} {args : Array Value} {vm vm' : Vm}
  {s s' : Store} {out : Except Cause Value} {trace : List (Vm × Store)} {x : Option Cause}

/-- The site of an outermost call. -/
def Vm.site (vm : Vm) : Site := ⟨vm.stack, [], vm.depth, le_rfl⟩

theorem Vm.enter_eq_start (hframes : vm.frames = []) :
    vm.enter me function args s = (Work.call function args).start vm.site me s := by
  simp only [Vm.enter, Work.start, Site.laid, Vm.site, Vm.push, Vm.pushAll, hframes]

theorem Vm.shows_of_runs (hrun : Runs env me trace (vm.site.landing s out) vm' s' x) :
    Shows me vm.stack out s vm' s' := by
  cases out with
  | ok v =>
    cases hrun with
    | done _ => exact .value
    | step hframes => exact absurd rfl hframes
  | error e =>
    cases hrun with
    | failed =>
      have hshrink : vm.stack.shrink vm.depth = vm.stack := by simp [Vm.depth]
      simp only [Vm.fail, Vm.truncate, Vm.push, Vm.site, hshrink]
      exact .error rfl (Store.object?_make _ _ _)

theorem Vm.Shows.runs (hshows : Shows me vm.stack out s vm' s') :
    ∃ x, Runs env me [] (vm.site.landing s out) vm' s' x := by
  cases hshows with
  | value => exact ⟨none, .done rfl⟩
  | @error e _ s' c hmake _ =>
    have hrun : Runs env me [] (vm.site.landing s (.error e)) _ _ (some e) := .failed
    have hshrink : vm.stack.shrink vm.depth = vm.stack := by simp [Vm.depth]
    simp only [Vm.fail, Vm.truncate, Vm.push, Vm.site, hshrink, hmake] at hrun
    exact ⟨_, hrun⟩

/-- The machine with its one stack refines evaluation with private operands: for calls in which
every instruction finds its operands among those of its own frame, the machine comes to an end
exactly if evaluation does, with the same store, and shows the result on top of the stack it had
before. -/
theorem runs_enter_iff_evaluates (env : Surroundings) (me : Caller) (function : Value)
    (args : Array Value) (hargs : args.size + 1 < UInt64.size) (vm : Vm) (hframes : vm.frames = [])
    (s : Store) (vm' : Vm) (s' : Store) :
    (∃ trace x, (∀ st ∈ trace, st.1.Disciplined st.2.heap) ∧
      Vm.Runs env me trace (vm.enter me function args s) vm' s' x) ↔
    ∃ out s₁, Evaluates env me (.call function args) s out s₁ ∧
      Vm.Shows me vm.stack out s₁ vm' s' := by
  rw [Vm.enter_eq_start hframes]
  constructor
  · rintro ⟨trace, x, hdisc, hrun⟩
    have hbodies : BodiesLand env me trace vm' s' x :=
      fun p c args ip ops s rest hsuffix hm hrun =>
        lands_body le_rfl (fun st hst => hdisc st (hsuffix.mem hst)) hm hrun
    obtain ⟨out, s₁, rest, he, -, hrun⟩ := lands_call hargs hrun hbodies
    exact ⟨out, s₁, he, Vm.shows_of_runs hrun⟩
  · rintro ⟨out, s₁, he, hshows⟩
    obtain ⟨x, hrun⟩ := hshows.runs
    obtain ⟨trace, hdisc, hrun⟩ := he.runs hargs hrun
    exact ⟨_, x, by simpa using hdisc, hrun⟩

end calls

/-- A store with a function that doubles its argument and one that calls it. -/
def Store.doubling : Store :=
  let s : Store := { collector := .new {}, isolates := {} }
  let (s, double) := s.makeImmortal
    (.function ⟨"double", 1, #[], #[.arg 0, .arg 0, .arith .add, .ret]⟩)
  (s.makeImmortal (.function ⟨"twice", 1, #[.ref double], #[.const 0, .arg 0, .call 1, .ret]⟩)).1

/-- Twice 21 is 42, above the operand that was there before. -/
theorem runs_enter_iff_evaluates_doubling :
    ∃ trace x, (∀ st ∈ trace, st.1.Disciplined st.2.heap) ∧
      Vm.Runs .still ⟨0, 0, "main"⟩ trace
        (Vm.enter ⟨0, 0, "main"⟩ (.ref 1) #[.int 21] { stack := #[.int 7] } .doubling)
        ⟨#[.int 7, .int 42], [], 1, false⟩ .doubling x := by
  refine (runs_enter_iff_evaluates .still _ (.ref 1) #[.int 21] (by decide)
    { stack := #[.int 7] } rfl .doubling ⟨#[.int 7, .int 42], [], 1, false⟩ .doubling).2
    ⟨.ok (.int 42), .doubling, ?_, .value⟩
  refine .enter rfl rfl (.step ⟨rfl, rfl, rfl⟩ rfl (.step ⟨rfl, rfl, rfl⟩ rfl ?_))
  show Evaluates _ _ (.body 1 _ 2 (#[Value.int 21].toList.reverse ++ [.ref 0])) _ _ _
  refine .call ⟨rfl, rfl, rfl⟩ rfl (by decide) ?_ (.ret ⟨rfl, rfl, rfl⟩)
  refine .enter rfl rfl (.step ⟨rfl, rfl, rfl⟩ rfl (.step ⟨rfl, rfl, rfl⟩ rfl ?_))
  exact .step ⟨rfl, rfl, rfl⟩ rfl (.ret ⟨rfl, rfl, rfl⟩)

end ScriptCore
