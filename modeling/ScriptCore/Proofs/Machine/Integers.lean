import ScriptCore.Proofs.Double.Exact
import ScriptCore.Proofs.Machine.Caller
import ScriptCore.Proofs.Machine.Words

/-!
# Integer arithmetic is exact or fails

The arithmetic instructions compute on 64-bit integers what they mean on all integers, or the call
fails. It fails as a whole: no frame is left, and the stack is the one that the call has found, with
an error object on top.

* `Arith.exact`, `Arith.Fits`: the result on all integers, and when it is an operand again;
* `Vm.intArith_cases`: what the arithmetic of a machine computes;
* `Vm.Begun`: a call has left the operands and the frames alone that it has found;
* `Vm.Contained`: an instruction finds its operands in its own frame;
* `Vm.Proceeds`: a call of such instructions, with its waits and with panics that are caught;
* `Vm.Proceeds.begun`: whatever happens, the invariant holds;
* `integers_are_exact`: an arithmetic instruction on integers in a call.
-/

namespace ScriptCore

/-! ### Results -/

/-- The result on all integers. Quotients are rounded towards zero. -/
def Arith.exact : Arith → ℤ → ℤ → ℤ
  | .add, a, b => a + b
  | .sub, a, b => a - b
  | .mul, a, b => a * b
  | .div, a, b => a.tdiv b

/-- There is a result, and it is a 64-bit integer. -/
def Arith.Fits (op : Arith) (a b : Int64) : Prop :=
  -2 ^ 63 ≤ op.exact a.toInt b.toInt ∧ op.exact a.toInt b.toInt < 2 ^ 63 ∧ (op = .div → b ≠ 0)

instance (op : Arith) (a b : Int64) : Decidable (op.Fits a b) :=
  inferInstanceAs (Decidable (_ ∧ _ ∧ _))

/-- What is said about operands without such a result. -/
def Arith.complaint (op : Arith) (b : Int64) : String :=
  if op = .div ∧ b = 0 then "division by zero" else "integer overflow in " ++ op.symbol

/-- Whatever fits is a 64-bit integer. -/
theorem checked?_eq_none_iff {n : ℤ} : checked? n = none ↔ ¬ (-2 ^ 63 ≤ n ∧ n < 2 ^ 63) := by
  have hleast : Int64.minValue.toInt = -2 ^ 63 := by decide
  have hgreatest : Int64.maxValue.toInt = 2 ^ 63 - 1 := by decide
  unfold checked?
  rw [hleast, hgreatest]
  split
  · rename_i h
    exact iff_of_false (by simp) fun hnot => hnot ⟨h.1, by omega⟩
  · rename_i h
    exact iff_of_true rfl fun hfits => h ⟨hfits.1, by omega⟩

namespace Vm

theorem intArith_eq (op : Arith) (a b : Int64) :
    intArith op a b =
      if op = .div ∧ b = 0 then .error .divisionByZero
      else match checked? (op.exact a.toInt b.toInt) with
        | some r => .ok r
        | none => .error (.overflow op) := by
  cases op with
  | div =>
    by_cases hb : b = 0
    · rw [if_pos ⟨rfl, hb⟩]
      exact if_pos hb
    · rw [if_neg (fun h => hb h.2)]
      exact if_neg hb
  | _ => rfl

/-- The result is exact, or there is none and the complaint says why. -/
theorem intArith_cases (op : Arith) (a b : Int64) :
    (op.Fits a b ∧ ∃ r, intArith op a b = .ok r ∧ r.toInt = op.exact a.toInt b.toInt) ∨
    (¬ op.Fits a b ∧ ∃ e, intArith op a b = .error e ∧
      e.failure = ⟨.arithmetic, op.complaint b⟩) := by
  rw [intArith_eq, Arith.complaint]
  by_cases hzero : op = .div ∧ b = 0
  · refine .inr ⟨fun h => h.2.2 hzero.1 hzero.2, .divisionByZero, if_pos hzero, ?_⟩
    rw [if_pos hzero]
    rfl
  · rw [if_neg hzero, if_neg hzero]
    cases hchecked : checked? (op.exact a.toInt b.toInt) with
    | none =>
      have hout := checked?_eq_none_iff.1 hchecked
      exact .inr ⟨fun h => hout ⟨h.1, h.2.1⟩, .overflow op, rfl, rfl⟩
    | some r =>
      have hr := Double.toInt_of_checked? hchecked
      have hlow := r.le_toInt
      have hhigh := r.toInt_lt
      exact .inl ⟨⟨by rw [hr]; exact hlow, by rw [hr]; exact hhigh, fun hop hb => hzero ⟨hop, hb⟩⟩,
        r, rfl, hr.symm⟩

/-! ### The instruction -/

variable {env : Surroundings} {me : Caller} {vm vm' : Vm} {s s₀ s' : Store}
  {low : Array Value} {old : List Frame}

/-- An arithmetic instruction on two integers. -/
theorem step_arith (me : Caller) {op : Arith} {a b : Int64}
    (hcurrent : vm.current? s.heap = some (.arith op))
    (hstack : vm.stack = (low.push (.int a)).push (.int b)) :
    ∃ frame rest, vm.frames = frame :: rest ∧
      vm.step me s = pushOr { vm with
        stack := low
        frames := { frame with ip := frame.ip + 1 } :: rest } s ((intArith op a b).map .int) := by
  obtain ⟨frame, rest, code, hframes, -, -, hstep⟩ := step_of_current? me hcurrent
  refine ⟨frame, rest, hframes, ?_⟩
  rw [hstep]
  simp only [exec, peek?, dropTop, hstack, Array.back?_push, Array.pop_push, arith]

/-! ### What a call leaves alone -/

/-- The next instruction takes nothing from below its own frame, which begins with the callee. -/
def Contained (vm : Vm) (h : Heap) : Prop :=
  ∀ frame ∈ vm.frames.head?, vm.demand h ≠ 0 → frame.base + vm.demand h ≤ vm.depth + 1

instance (vm : Vm) (h : Heap) : Decidable (vm.Contained h) :=
  inferInstanceAs (Decidable (∀ frame ∈ vm.frames.head?, _))

/-- A call has begun above some operands and frames. It has left them alone, and a failure would
unwind to these operands. -/
structure Begun (low : Array Value) (old : List Frame) (vm : Vm) : Prop where
  stack : ∃ more, vm.stack = low ++ more
  frames : ∃ newer, vm.frames = newer ++ old ∧ ∀ frame ∈ newer, low.size < frame.base
  entry : vm.entry = low.size
  error : vm.error = false

namespace Begun

/-- Operands above those of the caller may be cut off. -/
theorem trims {takes : ℕ} {r : Vm × Store × Signal} (h : vm.Begun low old)
    (htrims : vm.Trims takes r) (htakes : low.size + takes ≤ vm.depth) :
    r.1.Begun low old ∧ ∀ callee q, r.2.2 = .suspended callee q → low.size ≤ callee := by
  obtain ⟨more, hstack⟩ := h.stack
  obtain ⟨newer, hframes, hbase⟩ := h.frames
  obtain ⟨n, more₁, hn, hcut⟩ := htrims.stack
  obtain ⟨more₂, hlow⟩ : ∃ more', (low ++ more).shrink n = low ++ more' :=
    shrink_append (by omega)
  refine ⟨⟨⟨more₂ ++ more₁, ?_⟩, ?_, htrims.entry.trans h.entry, htrims.error.trans h.error⟩, ?_⟩
  · rw [hcut, hstack, hlow, Array.append_assoc]
  · rcases htrims.frames with heq | ⟨c, heq, -⟩
    · exact ⟨newer, heq.trans hframes, hbase⟩
    · refine ⟨⟨c, 0, vm.depth - takes + 1⟩ :: newer, by rw [heq, hframes, List.cons_append], ?_⟩
      rintro frame (_ | ⟨_, hframe⟩)
      · show low.size < vm.depth - takes + 1
        omega
      · exact hbase frame hframe
  · intro callee q hsignal
    rw [htrims.callee callee q hsignal]
    omega

/-- An instruction of the call that takes nothing from below its frame. -/
theorem step (h : vm.Begun low old) (me : Caller) (hown : old.length < vm.frames.length)
    (hcontained : vm.Contained s.heap) :
    (vm.step me s).1.Begun low old ∧
      ∀ callee q, (vm.step me s).2.2 = .suspended callee q → low.size ≤ callee := by
  obtain ⟨more, hstack⟩ := h.stack
  obtain ⟨newer, hframes, hbase⟩ := h.frames
  obtain ⟨frame, rest, rfl⟩ : ∃ frame rest, newer = frame :: rest := by
    refine List.exists_cons_of_ne_nil fun hnil => ?_
    rw [hframes, hnil] at hown
    exact Nat.lt_irrefl _ hown
  have hframe : low.size < frame.base := hbase frame List.mem_cons_self
  have hrest : ∀ frame' ∈ rest, low.size < frame'.base := fun frame' hframe' =>
    hbase frame' (List.mem_cons_of_mem _ hframe')
  have hdemand : low.size + vm.demand s.heap ≤ vm.depth := by
    have hsize : low.size ≤ vm.depth := by simp [depth, hstack]
    have hfound := hcontained frame (by rw [hframes]; rfl)
    omega
  rcases step_cases me s hframes with ⟨ip, htrims⟩ | ⟨v, hret⟩
  · have hmoved : Begun low old { vm with frames := { frame with ip } :: (rest ++ old) } := by
      refine ⟨h.stack, ⟨{ frame with ip } :: rest, rfl, ?_⟩, h.entry, h.error⟩
      rintro frame' (_ | ⟨_, hframe'⟩)
      · exact hframe
      · exact hrest frame' hframe'
    exact hmoved.trims htrims hdemand
  · -- a return cuts the stack at the callee of its frame
    obtain ⟨more₁, hcut⟩ : ∃ more', (low ++ more).shrink (vm.depth - vm.demand s.heap) =
        low ++ more' := shrink_append (by omega)
    obtain ⟨more₂, hcallee⟩ : ∃ more', (low ++ more₁).shrink (frame.base - 1) = low ++ more' :=
      shrink_append (by omega)
    rw [hret]
    refine ⟨⟨⟨more₂.push v, ?_⟩, ⟨rest, rfl, hrest⟩, h.entry, h.error⟩, by simp⟩
    simp only [hstack, hcut, hcallee, Array.push_append]

theorem receive (h : vm.Begun low old) {callee : ℕ} (hcallee : low.size ≤ callee) (o : Outcome) :
    (vm.receive me callee s o).1.Begun low old := by
  have hpush : ∀ v, ((vm.truncate callee).push v).Begun low old := by
    intro v
    obtain ⟨more, hstack⟩ := h.stack
    obtain ⟨more', hcut⟩ : ∃ more', (low ++ more).shrink callee = low ++ more' :=
      shrink_append hcallee
    refine ⟨⟨more'.push v, ?_⟩, h.frames, h.entry, h.error⟩
    simp only [push, truncate, hstack, hcut, Array.push_append]
  cases o with
  | failed e | panicked q => exact h
  | _ => exact hpush _

/-- A call is laid out. -/
theorem enter (me : Caller) (function : Value) (args : Array Value) (vm : Vm) (s : Store) :
    (vm.enter me function args s).1.Begun vm.stack vm.frames ∧
      ∀ callee q, (vm.enter me function args s).2.2 = .suspended callee q →
        vm.stack.size ≤ callee := by
  have hlaid : (({ vm with error := false, entry := vm.depth }.push function).pushAll args).Begun
      vm.stack vm.frames :=
    ⟨⟨#[function] ++ args, by simp [push, pushAll]⟩, ⟨[], rfl, by simp⟩, rfl, rfl⟩
  refine hlaid.trims (trims_invoke _) ?_
  have hargc : (UInt64.ofNat args.size).toNat ≤ args.size := Nat.mod_le _ _
  simp only [depth, push, pushAll, Array.size_append, Array.size_push]
  omega

/-- A failure leaves the operands of the caller with an error object on top. -/
theorem fail (h : vm.Begun low old) (me : Caller) (e : Cause) (s : Store) :
    ∃ c, vm.fail me e s = (⟨low.push (.ref c), [], low.size, true⟩,
        (s.make me.storage (.error e.failure)).1) ∧
      (vm.fail me e s).2.heap.object? c = some (.error e.failure) := by
  obtain ⟨more, hstack⟩ := h.stack
  refine ⟨(s.make me.storage (.error e.failure)).2, ?_, Store.object?_make _ _ _⟩
  have hcut : vm.stack.shrink low.size = low := by
    rw [hstack]
    simp
  simp only [Vm.fail, truncate, push, h.entry, hcut]

end Begun

/-! ### Calls -/

/-- A call of a machine that had so many frames has come to machine, store and signal. Each of its
instructions so far was one of its own frames and has taken nothing from below its frame. Whoever
catches a panic may have the machine go on. -/
inductive Proceeds (env : Surroundings) (me : Caller) (below : ℕ) (start : Vm × Store × Signal) :
    Vm × Store × Signal → Prop
  | start : Proceeds env me below start start
  | step {vm : Vm} {s s₀ : Store} : Proceeds env me below start (vm, s, .next) →
      below < vm.frames.length → env.drifts s s₀ → vm.Contained s₀.heap →
      Proceeds env me below start (vm.step me s₀)
  | granted {vm : Vm} {s s₁ : Store} {callee : ℕ} {r : Request} {o : Outcome} :
      Proceeds env me below start (vm, s, .suspended callee r) → env.grants r s o s₁ →
      Proceeds env me below start (vm.receive me callee s₁ o)
  | caught {vm : Vm} {s s₀ : Store} {p : Panic} :
      Proceeds env me below start (vm, s, .panicked p) → env.drifts s s₀ →
      Proceeds env me below start (vm, s₀, .next)

/-- The call has left alone what it has found, and waits above it. -/
theorem Proceeds.begun {function : Value} {args : Array Value} {r : Vm × Store × Signal}
    (h : Proceeds env me vm.frames.length (vm.enter me function args s) r) :
    r.1.Begun vm.stack vm.frames ∧
      ∀ callee q, r.2.2 = .suspended callee q → vm.stack.size ≤ callee := by
  induction h with
  | start => exact Begun.enter me function args vm s
  | step _ hown _ hcontained ih => exact Begun.step ih.1 me hown hcontained
  | granted _ _ ih =>
    refine ⟨Begun.receive ih.1 (ih.2 _ _ rfl) _, fun callee q hsignal => ?_⟩
    exact absurd hsignal (receive_not_suspended _ _ _ _ callee q)
  | caught _ _ ih => exact ⟨ih.1, fun callee q hsignal => by cases hsignal⟩

/-- A machine that has signalled a failure ends in one way only. -/
theorem runs_failed_iff {trace : List (Vm × Store)} {e : Cause} {x : Option Cause} :
    Runs env me trace (vm, s, .failed e) vm' s' x ↔
      trace = [] ∧ (vm', s') = vm.fail me e s ∧ x = some e := by
  constructor
  · intro h
    cases h
    exact ⟨rfl, rfl, rfl⟩
  · rintro ⟨rfl, heq, rfl⟩
    cases heq
    exact .failed

end Vm

/-- **Integer arithmetic.** A call, made by a machine with any stack and any frames, has come to an
arithmetic instruction of one of its frames, and all instructions have found their operands in their
frames. If these operands are integers, the instruction replaces them by the result exactly if the
result on all integers fits. Otherwise the call fails, and ends at once: no frame is left, the stack
is the one from before the call with an error object on top, which says what was wrong, and the
error flag is up. -/
theorem integers_are_exact (env : Surroundings) (me : Caller) (function : Value)
    (args : Array Value) (vm : Vm) (s : Store) {vm₁ : Vm} {s₁ s₀ : Store}
    (hreached : Vm.Proceeds env me vm.frames.length (vm.enter me function args s) (vm₁, s₁, .next))
    (hown : vm.frames.length < vm₁.frames.length) (hcontained : vm₁.Contained s₀.heap)
    {op : Arith} (hcurrent : vm₁.current? s₀.heap = some (.arith op)) {low : Array Value}
    {a b : Int64} (hstack : vm₁.stack = (low.push (.int a)).push (.int b)) :
    (op.Fits a b ↔ ∃ r frame rest, r.toInt = op.exact a.toInt b.toInt ∧
      vm₁.frames = frame :: rest ∧ vm₁.step me s₀ =
        ({ vm₁ with
          stack := low.push (.int r)
          frames := { frame with ip := frame.ip + 1 } :: rest }, s₀, .next)) ∧
    (¬ op.Fits a b → ∃ e c s', e.failure = ⟨.arithmetic, op.complaint b⟩ ∧
      s'.heap.object? c = some (.error e.failure) ∧
      ∀ trace vm' s'' x, Vm.Runs env me trace (vm₁.step me s₀) vm' s'' x ↔
        trace = [] ∧ vm' = ⟨vm.stack.push (.ref c), [], vm.depth, true⟩ ∧ s'' = s' ∧
          x = some e) := by
  obtain ⟨frame, rest, hframes, hstep⟩ := Vm.step_arith me hcurrent hstack
  have hbegun := (hreached.begun.1.step me hown hcontained).1
  rcases Vm.intArith_cases op a b with ⟨hfits, r, hr, hexact⟩ | ⟨hfits, e, he, hfailure⟩
  · rw [hr] at hstep
    exact ⟨iff_of_true hfits ⟨r, frame, rest, hexact, hframes, hstep⟩, fun h => absurd hfits h⟩
  · let vm₂ : Vm := { vm₁ with
      stack := low
      frames := { frame with ip := frame.ip + 1 } :: rest }
    replace hstep : vm₁.step me s₀ = (vm₂, s₀, .failed e) := by
      rw [hstep, he]
      rfl
    rw [hstep] at hbegun ⊢
    obtain ⟨c, hfail, hobject⟩ := hbegun.fail me e s₀
    refine ⟨iff_of_false hfits ?_, fun _ => ⟨e, c, _, hfailure, hobject, ?_⟩⟩
    · rintro ⟨r, _, _, -, -, heq⟩
      cases congrArg (·.2.2) heq
    · intro trace vm' s'' x
      rw [Vm.runs_failed_iff, hfail, Prod.mk.injEq, and_assoc]
      rfl

/-- A store with a function that hands its argument on to one that negates it. -/
def Store.negating : Store :=
  let s : Store := { collector := .new {}, isolates := {} }
  let (s, negate) := s.makeImmortal
    (.function ⟨"negate", 1, #[.int (-1)], #[.arg 0, .const 0, .arith .mul, .ret]⟩)
  (s.makeImmortal (.function ⟨"opposite", 1, #[.ref negate], #[.const 0, .arg 0, .call 1, .ret]⟩)).1

/-- The least integer has no opposite. Two calls are abandoned, and the 7 is still there. -/
theorem integers_are_exact_opposite : ∃ trace vm' s' e,
    Vm.Runs .still ⟨0, 0, "main"⟩ trace
      (Vm.enter ⟨0, 0, "main"⟩ (.ref 1) #[.int Int64.minValue] { stack := #[.int 7] } .negating)
      vm' s' (some e) ∧ e.failure = ⟨.arithmetic, "integer overflow in *"⟩ ∧
    ∃ c, vm'.stack = #[.int 7, .ref c] ∧ s'.heap.object? c = some (.error e.failure) := by
  let me : Caller := ⟨0, 0, "main"⟩
  let vm : Vm := { stack := #[.int 7] }
  let least : Value := .int Int64.minValue
  let Reached (above : Array Value) (frames : List Frame) : Prop :=
    Vm.Proceeds .still me 0 (vm.enter me (.ref 1) #[least] .negating)
      (⟨#[.int 7] ++ above, frames, 1, false⟩, .negating, .next)
  have h₀ : Reached #[.ref 1, least] [⟨1, 0, 2⟩] := .start
  have h₁ : Reached #[.ref 1, least, .ref 0] [⟨1, 1, 2⟩] := h₀.step (by decide) rfl (by decide)
  have h₂ : Reached #[.ref 1, least, .ref 0, least] [⟨1, 2, 2⟩] :=
    h₁.step (by decide) rfl (by decide)
  have h₃ : Reached #[.ref 1, least, .ref 0, least] [⟨0, 0, 4⟩, ⟨1, 3, 2⟩] :=
    h₂.step (by decide) rfl (by decide)
  have h₄ : Reached #[.ref 1, least, .ref 0, least, least] [⟨0, 1, 4⟩, ⟨1, 3, 2⟩] :=
    h₃.step (by decide) rfl (by decide)
  have h₅ : Reached #[.ref 1, least, .ref 0, least, least, .int (-1)] [⟨0, 2, 4⟩, ⟨1, 3, 2⟩] :=
    h₄.step (by decide) rfl (by decide)
  let vm₁ : Vm := ⟨#[.int 7, .ref 1, least, .ref 0, least, least, .int (-1)],
    [⟨0, 2, 4⟩, ⟨1, 3, 2⟩], 1, false⟩
  have hcurrent : vm₁.current? Store.negating.heap = some (.arith .mul) := rfl
  have hoperands : vm₁.stack =
      (#[.int 7, .ref 1, least, .ref 0, least].push least).push (.int (-1)) := rfl
  obtain ⟨e, c, s', he, hobject, hends⟩ := (integers_are_exact .still me (.ref 1) #[least] vm
    .negating h₅ (by decide) (by decide) hcurrent hoperands).2 (by decide)
  have hlast := (hends _ _ _ _).2 ⟨rfl, rfl, rfl, rfl⟩
  have hrun : Vm.Runs .still me _ (vm.enter me (.ref 1) #[least] .negating) _ _ _ :=
    .step (List.cons_ne_nil _ _) rfl <| .step (List.cons_ne_nil _ _) rfl <|
      .step (List.cons_ne_nil _ _) rfl <| .step (List.cons_ne_nil _ _) rfl <|
      .step (List.cons_ne_nil _ _) rfl <| .step (List.cons_ne_nil _ _) rfl hlast
  exact ⟨_, _, _, e, hrun, he, c, rfl, hobject⟩

end ScriptCore
