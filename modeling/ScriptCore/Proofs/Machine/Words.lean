import Mathlib.Data.Fintype.Order
import ScriptCore.Proofs.Heap.Text
import ScriptCore.Proofs.Machine.Run

/-!
# Machines compute with words

Indices are natural numbers here, but a machine has words for them, vectors of a limited length, and
code with any operands. This module computes every index of an instruction on words, looks up every
position before it is used, and shows that nothing is lost by that: the same instructions with the
same results.

* `Vm.step?`, `Vm.enter?`: an instruction and the beginning of a call, on words; `none` stands for a
  sum or difference that is no word, for a position outside its vector and for a branch that is not
  meant to be taken;
* `Vm.Framed`: what is known of frames. Arguments lie within a stack there was, and no frame is past
  the end of its code;
* `Vm.step?_eq`, `Vm.enter?_eq`: words are enough;
* `Vm.Framed.step`, `Vm.Framed.enter`: machines keep the invariant;
* `Heap.text?_isSome`: values that do not contain themselves have texts;
* `Vm.step_ne_panicked`, `Vm.enter_ne_panicked`: built-in functions never panic.
-/

namespace ScriptCore

/-! ### Words -/

namespace Word

/-- The sum of two words if it is one. -/
def add? (a b : Nat) : Option Nat := if a + b < UInt64.size then some (a + b) else none

/-- The difference of two words if it is one. -/
def sub? (a b : Nat) : Option Nat := if b ≤ a then some (a - b) else none

theorem add?_of_lt {a b : Nat} (h : a + b < UInt64.size) : add? a b = some (a + b) := if_pos h

theorem sub?_of_le {a b : Nat} (h : b ≤ a) : sub? a b = some (a - b) := if_pos h

end Word

/-- The values from a position of a vector on. -/
def suffix? (vs : Array Value) (i : Nat) : Option (Array Value) :=
  if i ≤ vs.size then some (vs.drop i) else none

theorem suffix?_of_le {vs : Array Value} {i : Nat} (h : i ≤ vs.size) :
    suffix? vs i = some (vs.drop i) := if_pos h

/-- No vector has more elements. -/
def vectorLimit : Nat := 2 ^ 63 - 1

/-! ### Instructions on words -/

/-- The arguments a function takes without a look at how many there are. -/
def Native.unchecked : Native → Nat
  | .startIsolate => 1
  | _ => 0

/-- The same for methods. -/
def Method.unchecked : Method → Nat
  | .listPush => 1
  | _ => 0

def Native.call? (f : Native) (me : Caller) (args : Array Value) (s : Store) :
    Option (Store × Reaction) :=
  match f.arity.check f.name args.size with
  | .ok () => if f.unchecked ≤ args.size then some (f.run me args s) else none
  | .error c => some (s, .failed c)

def Method.call? (m : Method) (me : Caller) (receiver : CellId) (args : Array Value) (s : Store) :
    Option (Store × Reaction) :=
  match m.arity.check m.name args.size with
  | .ok () => if m.unchecked ≤ args.size then some (m.run me receiver args s) else none
  | .error c => some (s, .failed c)

theorem Arity.admits_of_check {a : Arity} {name : String} {n : Nat} {u : Unit}
    (h : a.check name n = .ok u) : a.admits n = true := by
  unfold Arity.check at h
  by_cases hn : a.admits n = true
  · exact hn
  · rw [if_neg hn] at h
    cases h

theorem Native.call?_eq (f : Native) (me : Caller) (args : Array Value) (s : Store) :
    f.call? me args s = some (f.call me args s) := by
  unfold call? call
  cases hcheck : f.arity.check f.name args.size with
  | error c => rfl
  | ok =>
    have hadmits := Arity.admits_of_check hcheck
    refine if_pos ?_
    cases f with
    | startIsolate => simpa [arity, Arity.admits, unchecked] using hadmits
    | _ => exact Nat.zero_le _

theorem Method.call?_eq (m : Method) (me : Caller) (receiver : CellId) (args : Array Value)
    (s : Store) : m.call? me receiver args s = some (m.call me receiver args s) := by
  unfold call? call
  cases hcheck : m.arity.check m.name args.size with
  | error c => rfl
  | ok =>
    have hadmits := Arity.admits_of_check hcheck
    refine if_pos ?_
    cases m with
    | listPush =>
      have hsize : args.size = 1 := by simpa [arity, Arity.admits] using hadmits
      exact hsize.ge
    | _ => exact Nat.zero_le _

namespace Vm

/-- `Vm.invoke` on words. -/
def invoke? (me : Caller) (argc : UInt64) (vm : Vm) (s : Store) :
    Option (Vm × Store × Signal) := do
  let width ← Word.add? argc.toNat 1
  -- the one difference that may fail: too few operands are an error of the code
  match Word.sub? vm.depth width with
  | none => some (vm, s, .failed .stackUnderflow)
  | some callee =>
      let function ← vm.stack[callee]?
      let base ← Word.add? callee 1
      match function, s.heap.deref? function with
      | .ref c, some (.function code) =>
          if code.arity = argc then
            some ({ vm with frames := ⟨c, 0, base⟩ :: vm.frames }, s, .next)
          else some (vm, s, .failed (.arity code.name (.exact code.arity.toNat) argc.toNat))
      | _, some (.native f) =>
          let args ← suffix? vm.stack base
          (f.call? me args s).map (vm.answer callee)
      | _, some (.bound receiver m) =>
          let args ← suffix? vm.stack base
          (m.call? me receiver args s).map (vm.answer callee)
      | _, _ => some (vm, s, .failed (.notCallable (s.heap.typeOf function)))

/-- `Vm.enter` on words. -/
def enter? (me : Caller) (function : Value) (args : Array Value) (vm : Vm) (s : Store) :
    Option (Vm × Store × Signal) :=
  let vm := { vm with error := false, entry := vm.depth }
  ((vm.push function).pushAll args).invoke? me (UInt64.ofNat args.size) s

/-- `Vm.ret` on words. -/
def ret? (vm : Vm) (s : Store) : Option (Vm × Store × Signal) :=
  match vm.peek? with
  | none => some (vm, s, .failed .stackUnderflow)
  | some v =>
      match vm.frames with
      | [] => some (vm, s, .next)
      | frame :: rest => do
          let depth ← Word.sub? frame.base 1
          some (({ vm.dropTop with frames := rest }.truncate depth).push v, s, .next)

/-- `Vm.arith`, where two numbers have to be numbers. -/
def arith? (me : Caller) (op : Arith) (l r : Value) (s : Store) :
    Option (Store × Except Cause Value) :=
  match l, r with
  | .int _, .float _ | .float _, .int _ | .float _, .float _ => do
      let _ ← l.number?
      let _ ← r.number?
      some (arith me op l r s)
  | _, _ => some (arith me op l r s)

/-- An argument of a call, by the sum of two words. -/
def argument? (code : Code) (base : Nat) (i : UInt64) (vm : Vm) (s : Store) :
    Option (Vm × Store × Signal) :=
  if code.arity ≤ i then some (vm, s, .failed (.noArgument code.name i.toNat))
  else do
    let slot ← Word.add? base i.toNat
    match vm.stack[slot]? with
    | some v => some (vm.push v, s, .next)
    | none => some (vm, s, .failed .stackUnderflow)

/-- An arithmetic instruction. -/
def operation? (me : Caller) (op : Arith) (vm : Vm) (s : Store) : Option (Vm × Store × Signal) :=
  match vm.peek? with
  | none => some (vm, s, .failed .stackUnderflow)
  | some r =>
      let vm := vm.dropTop
      match vm.peek? with
      | none => some (vm, s, .failed .stackUnderflow)
      | some l => do
          let (s, result) ← arith? me op l r s
          some (vm.dropTop.pushOr s result)

/-- `Vm.exec` on words. -/
def exec? (me : Caller) (code : Code) (base : Nat) (instr : Instr) (vm : Vm) (s : Store) :
    Option (Vm × Store × Signal) :=
  match instr with
  | .arg i => vm.argument? code base i s
  | .arith op => vm.operation? me op s
  | .call argc => vm.invoke? me argc s
  | .ret => vm.ret? s
  | _ => some (vm.exec me code base instr s)

/-- `Vm.step` on words. -/
def step? (me : Caller) (vm : Vm) (s : Store) : Option (Vm × Store × Signal) :=
  match vm.frames with
  | [] => some (vm, s, .next)
  | frame :: rest =>
      match s.heap.object? frame.code with
      | some (.function code) => do
          let ip ← Word.add? frame.ip 1
          let vm := { vm with frames := { frame with ip } :: rest }
          match code.instrs[frame.ip]? with
          | some instr => vm.exec? me code frame.base instr s
          | none => (vm.push .nil).ret? s
      | _ => some (vm, s, .failed .noBytecode)

/-- The next instruction of a machine. -/
def current? (vm : Vm) (h : Heap) : Option Instr :=
  match vm.frames with
  | [] => none
  | frame :: _ =>
      match h.object? frame.code with
      | some (.function code) => code.instrs[frame.ip]?
      | _ => none

/-- The next instruction is executed once its frame has moved on. -/
theorem step_of_current? (me : Caller) {vm : Vm} {s : Store} {instr : Instr}
    (hcurrent : vm.current? s.heap = some instr) :
    ∃ frame rest code, vm.frames = frame :: rest ∧
      s.heap.object? frame.code = some (.function code) ∧ code.instrs[frame.ip]? = some instr ∧
      vm.step me s = Vm.exec me code frame.base instr
        { vm with frames := { frame with ip := frame.ip + 1 } :: rest } s := by
  unfold current? at hcurrent
  split at hcurrent
  · cases hcurrent
  rename_i frame rest hframes
  split at hcurrent
  · rename_i code ho
    exact ⟨frame, rest, code, hframes, ho, hcurrent, by simp only [step, hframes, ho, hcurrent]⟩
  · cases hcurrent

/-! ### Words are enough -/

section words

variable {me : Caller} {vm : Vm} {s : Store}

theorem invoke?_eq {argc : UInt64} (hargc : argc.toNat + 1 < UInt64.size)
    (hdepth : vm.depth < UInt64.size) : vm.invoke? me argc s = some (vm.invoke me argc s) := by
  unfold invoke? invoke
  rw [Word.add?_of_lt hargc, if_neg hargc.ne]
  by_cases hunder : vm.depth < argc.toNat + 1
  · have hsub : Word.sub? vm.depth (argc.toNat + 1) = none := if_neg (Nat.not_le.2 hunder)
    simp only [Option.bind_eq_bind, Option.bind_some, hsub, if_pos hunder]
  rw [if_neg hunder]
  have hlt : vm.depth - (argc.toNat + 1) < vm.stack.size := by
    unfold depth at hunder ⊢
    omega
  have hcallee : vm.stack[vm.depth - (argc.toNat + 1)]? =
      some (vm.stack.getD (vm.depth - (argc.toNat + 1)) .nil) := by
    rw [Array.getD_eq_getD_getElem?, Array.getElem?_eq_getElem hlt, Option.getD_some]
  have hbase : vm.depth - (argc.toNat + 1) + 1 < UInt64.size := by omega
  have hsuffix : suffix? vm.stack (vm.depth - (argc.toNat + 1) + 1) = some _ := suffix?_of_le hlt
  simp only [Option.bind_eq_bind, Option.bind_some, Word.sub?_of_le (Nat.not_lt.1 hunder), hcallee,
    Word.add?_of_lt hbase, hsuffix, Native.call?_eq, Method.call?_eq, Option.map_some]
  generalize vm.stack.getD _ _ = function
  generalize s.heap.deref? function = o
  rcases o with - | o
  · cases function <;> rfl
  · cases o with
    | function code =>
      cases function with
      | ref c =>
        simp only
        split <;> rfl
      | _ => rfl
    | _ => cases function <;> rfl

theorem enter?_eq {function : Value} {args : Array Value}
    (hroom : vm.depth + 1 + args.size < UInt64.size) :
    vm.enter? me function args s = some (vm.enter me function args s) := by
  refine invoke?_eq ?_ ?_
  · rw [UInt64.toNat_ofNat_of_lt' (by omega)]
    omega
  · simpa [depth, push, pushAll] using hroom

theorem ret?_eq (hbase : ∀ frame ∈ vm.frames, 0 < frame.base) : vm.ret? s = some (vm.ret s) := by
  unfold ret? ret
  cases vm.peek? with
  | none => rfl
  | some v =>
    cases hframes : vm.frames with
    | nil => rfl
    | cons frame rest =>
      have hpos : 1 ≤ frame.base := hbase frame (hframes ▸ List.mem_cons_self)
      simp only [Word.sub?_of_le hpos]
      rfl

theorem arith?_eq (op : Arith) (l r : Value) : arith? me op l r s = some (arith me op l r s) := by
  cases l <;> cases r <;> rfl

theorem argument?_eq {code : Code} {base : Nat} {i : UInt64}
    (hbase : base + code.arity.toNat < UInt64.size) :
    vm.argument? code base i s = some (vm.exec me code base (.arg i) s) := by
  simp only [argument?, exec]
  split
  · rfl
  · have hlt : i.toNat < code.arity.toNat := UInt64.lt_iff_toNat_lt.1 (UInt64.not_le.1 ‹_›)
    simp only [Word.add?_of_lt (show base + i.toNat < UInt64.size by omega), Option.bind_eq_bind,
      Option.bind_some]
    cases vm.stack[base + i.toNat]? <;> rfl

theorem operation?_eq {code : Code} {base : Nat} {op : Arith} :
    vm.operation? me op s = some (vm.exec me code base (.arith op) s) := by
  simp only [operation?, exec]
  cases vm.peek? with
  | none => rfl
  | some r =>
    simp only
    cases vm.dropTop.peek? with
    | none => rfl
    | some l =>
      simp only [arith?_eq]
      rfl

theorem exec?_eq {code : Code} {base : Nat} {instr : Instr}
    (hargc : ∀ argc, instr = .call argc → argc.toNat + 1 < UInt64.size)
    (hdepth : vm.depth < UInt64.size) (hframes : ∀ frame ∈ vm.frames, 0 < frame.base)
    (hbase : base + code.arity.toNat < UInt64.size) :
    vm.exec? me code base instr s = some (vm.exec me code base instr s) := by
  cases instr with
  | arg i => exact argument?_eq hbase
  | arith op => exact operation?_eq
  | call argc => exact invoke?_eq (hargc argc rfl) hdepth
  | ret => exact ret?_eq hframes
  | _ => rfl

end words

end Vm

/-! ### What is known of frames -/

/-- The code of a frame is or was there. Its arguments begin above a callee, and the last of them
has a word for its index. The frame is not past the end of its code. -/
structure Frame.Within (h : Heap) (frame : Frame) : Prop where
  known : frame.code < h.size
  base : 0 < frame.base
  code : ∀ code, h.object? frame.code = some (.function code) →
    frame.base + code.arity.toNat < UInt64.size ∧ frame.ip ≤ code.instrs.size

theorem Frame.Within.keepsCode {h h' : Heap} {frame : Frame} (hf : frame.Within h)
    (hk : h.KeepsCode h') : frame.Within h' where
  known := hf.known.trans_le hk.size_le
  base := hf.base
  code code ho := hf.code code (hk.code _ _ hf.known ho)

namespace Vm

/-- All frames are as frames are. -/
def Framed (h : Heap) (vm : Vm) : Prop := ∀ frame ∈ vm.frames, frame.Within h

namespace Framed

variable {me : Caller} {vm vm' : Vm} {s : Store} {h h' : Heap}

theorem of_frames_nil (hframes : vm.frames = []) : vm.Framed h := by
  intro frame hframe
  rw [hframes] at hframe
  cases hframe

theorem of_frames (hv : vm.Framed h) (hframes : vm'.frames = vm.frames) : vm'.Framed h :=
  fun frame hframe => hv frame (hframes ▸ hframe)

theorem keepsCode (hv : vm.Framed h) (hk : h.KeepsCode h') : vm.Framed h' :=
  fun frame hframe => (hv frame hframe).keepsCode hk

/-- A call of bytecode lays its arguments out on the stack. -/
theorem invoke (hv : vm.Framed s.heap) {argc : UInt64} (hdepth : vm.depth < UInt64.size) :
    (vm.invoke me argc s).1.Framed s.heap := by
  have hsame : ∀ {callee : Nat} (p : Store × Reaction), (vm.answer callee p).1.Framed s.heap := by
    rintro callee ⟨s', reaction⟩
    cases reaction <;> exact hv
  unfold Vm.invoke
  split
  · exact hv
  split
  · exact hv
  rename_i hdeep
  simp only
  split
  · split
    · rename_i c code hcallee ho harity
      have hobject : s.heap.object? c = some (.function code) := by
        rw [hcallee] at ho
        exact ho
      rintro frame (_ | ⟨_, hframe⟩)
      · refine ⟨Heap.lt_size_of_object? hobject, Nat.succ_pos _, fun code' ho' => ?_⟩
        rw [hobject] at ho'
        cases ho'
        refine ⟨?_, Nat.zero_le _⟩
        show vm.depth - (argc.toNat + 1) + 1 + code.arity.toNat < UInt64.size
        rw [harity]
        omega
      · exact hv frame hframe
    · exact hv
  · exact hsame _
  · exact hsame _
  · exact hv

/-- Instructions other than calls and returns leave the frames alone. -/
theorem frames_exec {code : Code} {base : Nat} {instr : Instr} (hcall : ∀ argc, instr ≠ .call argc)
    (hret : instr ≠ .ret) : (vm.exec me code base instr s).1.frames = vm.frames := by
  have hpushOr : ∀ (vm' : Vm) (s' : Store) (r : Except Cause Value), vm'.frames = vm.frames →
      (vm'.pushOr s' r).1.frames = vm.frames := by
    intro vm' s' r hframes
    cases r <;> exact hframes
  cases instr with
  | const i => exact hpushOr vm s _ rfl
  | arg i => simp only [exec]; split <;> [rfl; (split <;> rfl)]
  | global i => simp only [exec]; split <;> [rfl; (split <;> rfl)]
  | arith op =>
    simp only [exec]
    split <;> [rfl; (split <;> [rfl; exact hpushOr _ _ _ rfl])]
  | getAttr i =>
    simp only [exec]
    split <;> [rfl; (split <;> [rfl; (split <;> rfl)])]
  | setAttr i =>
    simp only [exec]
    split <;> [rfl; (split <;> [rfl; (split <;> [rfl; (split <;> rfl)])])]
  | pop => simp only [exec]; split <;> rfl
  | raise => simp only [exec]; split <;> rfl
  | call argc => exact absurd rfl (hcall argc)
  | ret => exact absurd rfl hret

/-- A return takes a frame away. -/
theorem ret (hv : vm.Framed h) : (vm.ret s).1.Framed h := by
  unfold Vm.ret
  split
  · exact hv
  · split
    · exact hv
    · rename_i frame rest hframes
      exact fun frame' hframe' => hv frame' (hframes ▸ List.mem_cons_of_mem _ hframe')

theorem exec (hv : vm.Framed s.heap) (hdepth : vm.depth < UInt64.size) {code : Code} {base : Nat}
    {instr : Instr} : (vm.exec me code base instr s).1.Framed s.heap := by
  by_cases hcall : ∃ argc, instr = .call argc
  · obtain ⟨argc, rfl⟩ := hcall
    exact hv.invoke hdepth
  by_cases hret : instr = .ret
  · subst hret
    exact hv.ret
  · exact hv.of_frames (frames_exec (fun argc heq => hcall ⟨argc, heq⟩) hret)

/-- An instruction keeps frames as frames are. -/
theorem step (hv : vm.Framed s.heap) (hdepth : vm.depth < UInt64.size) :
    (vm.step me s).1.Framed s.heap := by
  unfold Vm.step
  split
  · exact hv
  rename_i frame rest hframes
  split
  swap
  · exact hv
  rename_i code ho
  have hmine := hv frame (hframes ▸ List.mem_cons_self)
  have hothers : ∀ frame' ∈ rest, frame'.Within s.heap := fun frame' hframe' =>
    hv frame' (hframes ▸ List.mem_cons_of_mem _ hframe')
  simp only
  split
  · rename_i instr hinstr
    -- there is an instruction, so the next position is still one of the code or its end
    have hnow : Framed s.heap { vm with frames := { frame with ip := frame.ip + 1 } :: rest } := by
      rintro frame' (_ | ⟨_, hframe'⟩)
      · refine ⟨hmine.known, hmine.base, fun code' ho' => ?_⟩
        rw [ho] at ho'
        cases ho'
        exact ⟨(hmine.code code ho).1, (Array.getElem?_eq_some_iff.1 hinstr).1⟩
      · exact hothers frame' hframe'
    exact hnow.exec hdepth
  · -- the frame is gone
    rw [Vm.ret]
    split
    · rename_i hpeek
      simp [push, peek?] at hpeek
    · exact hothers

/-- The beginning of a call keeps frames as frames are. -/
theorem enter (hv : vm.Framed s.heap) {function : Value} {args : Array Value}
    (hroom : vm.depth + 1 + args.size < UInt64.size) :
    (vm.enter me function args s).1.Framed s.heap := by
  have hlaid : Framed s.heap
      ((({ vm with error := false, entry := vm.depth } : Vm).push function).pushAll args) := hv
  exact hlaid.invoke (by simpa [depth, push, pushAll] using hroom)

end Framed

section words

variable {me : Caller} {vm : Vm} {s : Store}

/-- Words are enough for the indices of every instruction. -/
theorem step?_eq (hv : vm.Framed s.heap) (hdepth : vm.depth < UInt64.size)
    (hcode : ∀ c code, s.heap.object? c = some (.function code) →
      code.instrs.size + 1 < UInt64.size)
    (hargc : ∀ argc, vm.current? s.heap = some (.call argc) → argc.toNat + 1 < UInt64.size) :
    vm.step? me s = some (vm.step me s) := by
  unfold step? step
  cases hframes : vm.frames with
  | nil => rfl
  | cons frame rest =>
    have hmine := hv frame (hframes ▸ List.mem_cons_self)
    let now : Vm := { vm with frames := { frame with ip := frame.ip + 1 } :: rest }
    have hbase : ∀ frame' ∈ now.frames, 0 < frame'.base := by
      rintro frame' (_ | ⟨_, hframe'⟩)
      · exact hmine.base
      · exact (hv frame' (hframes ▸ List.mem_cons_of_mem _ hframe')).base
    simp only
    cases ho : s.heap.object? frame.code with
    | none => rfl
    | some o =>
      cases o with
      | function code =>
        have hip : frame.ip + 1 < UInt64.size :=
          lt_of_le_of_lt (Nat.succ_le_succ (hmine.code code ho).2) (hcode _ code ho)
        simp only [Word.add?_of_lt hip, Option.bind_eq_bind, Option.bind_some]
        cases hinstr : code.instrs[frame.ip]? with
        | none =>
          have hret : (now.push .nil).ret? s = some ((now.push .nil).ret s) := ret?_eq hbase
          exact hret
        | some instr =>
          have hexec : now.exec? me code frame.base instr s =
              some (now.exec me code frame.base instr s) := by
            refine exec?_eq (fun argc heq => hargc argc ?_) hdepth hbase (hmine.code code ho).1
            simp only [current?, hframes, ho, hinstr, heq]
          exact hexec
      | _ => rfl

end words

end Vm

/-! ### Values that do not contain themselves -/

/-- The values whose texts are part of the text of an object. -/
def Object.contents : Object → List Value
  | .list items => items.toList
  | .future (some v) | .result _ v | .custom (.cell v) => [v]
  | _ => []

theorem Object.mem_edges_of_contents {o : Object} {v : Value} (hv : v ∈ o.contents) :
    v ∈ o.edges := by
  unfold contents at hv
  split at hv <;> simp_all [edges]

namespace Heap

variable {h : Heap} {c : CellId} {v : Value} {d : Nat} {o : Object}

/-- The text of the second cell is part of the text of the first. -/
def Contains (h : Heap) (c d : CellId) : Prop :=
  ∃ o, h.object? c = some o ∧ .ref d ∈ o.contents

/-- A value that does not contain itself, and neither does anything that it contains. -/
def Acyclic (h : Heap) (v : Value) : Prop :=
  ∀ c d, v = .ref c → Relation.ReflTransGen h.Contains c d → ¬ Relation.TransGen h.Contains d d

theorem isSome_textWithin_mono {d' : Nat} (hd : d ≤ d') (hv : (h.textWithin d v).isSome) :
    (h.textWithin d' v).isSome := by
  obtain ⟨t, ht⟩ := Option.isSome_iff_exists.1 hv
  induction hd with
  | refl => exact hv
  | step _ ih =>
    obtain ⟨t', ht'⟩ := Option.isSome_iff_exists.1 ih
    rw [textWithin_succ ht']
    rfl

theorem isSome_mapM {f : Value → Option String} {vs : List Value}
    (hf : ∀ v ∈ vs, (f v).isSome) : (vs.mapM f).isSome := by
  induction vs with
  | nil => rfl
  | cons v vs ih =>
    obtain ⟨t, ht⟩ := Option.isSome_iff_exists.1 (hf v List.mem_cons_self)
    obtain ⟨ts, hts⟩ := Option.isSome_iff_exists.1
      (ih fun w hw => hf w (List.mem_cons_of_mem _ hw))
    simp [List.mapM_cons, ht, hts]

/-- The text of an object takes the texts of its contents. -/
theorem isSome_textWithin_ref (ho : h.object? c = some o)
    (hcontents : ∀ v ∈ o.contents, (h.textWithin d v).isSome) :
    (h.textWithin (d + 1) (.ref c)).isSome := by
  rw [textWithin, ho]
  cases o with
  | list items =>
    have htexts : (items.toList.mapM (h.textWithin d)).isSome := isSome_mapM hcontents
    simpa using htexts
  | result isError payload => simpa using hcontents payload (by simp [Object.contents])
  | future slot =>
    cases slot with
    | none => rfl
    | some w => simpa using hcontents w (by simp [Object.contents])
  | custom i =>
    cases i with
    | cell w => simpa using hcontents w (by simp [Object.contents])
    | _ => rfl
  | _ => rfl

/-- Finitely many values have texts of one depth. -/
theorem exists_textWithin_forall {vs : List Value}
    (hvs : ∀ v ∈ vs, ∃ d, (h.textWithin d v).isSome) :
    ∃ d, ∀ v ∈ vs, (h.textWithin d v).isSome := by
  induction vs with
  | nil => exact ⟨0, by simp⟩
  | cons v vs ih =>
    obtain ⟨d, hd⟩ := hvs v List.mem_cons_self
    obtain ⟨d', hd'⟩ := ih fun w hw => hvs w (List.mem_cons_of_mem _ hw)
    refine ⟨max d d', ?_⟩
    rintro w (_ | ⟨_, hw⟩)
    · exact isSome_textWithin_mono (Nat.le_max_left d d') hd
    · exact isSome_textWithin_mono (Nat.le_max_right d d') (hd' w hw)

theorem Closed.live_of_contains (hh : h.Closed) (hc : h.Live c) {e : CellId}
    (he : Relation.ReflTransGen h.Contains c e) : h.Live e := by
  induction he with
  | refl => exact hc
  | tail _ hstep ih =>
    obtain ⟨o, ho, hmem⟩ := hstep
    exact holds_ref.1 (hh _ o ho _ (Object.mem_edges_of_contents hmem))

/-- A live cell that does not contain itself has a text. The induction is on the cells that it
contains; there are finitely many, and none is above itself. -/
theorem exists_textWithin (hh : h.Closed) (hc : h.Live c) (hacyclic : h.Acyclic (.ref c)) :
    ∃ d, (h.textWithin d (.ref c)).isSome := by
  let Inside := { e : CellId // Relation.ReflTransGen h.Contains c e }
  let below : Inside → Inside → Prop := fun a b => Relation.TransGen h.Contains b.1 a.1
  have hlive : ∀ e : Inside, h.Live e.1 := fun e => hh.live_of_contains hc e.2
  have hfinite : Finite Inside :=
    (Set.finite_lt_nat h.size).subset fun e he => lt_size_of_live (hh.live_of_contains hc he)
  have htrans : IsTrans Inside below := ⟨fun _ _ _ hab hbd => hbd.trans hab⟩
  have hirrefl : Std.Irrefl below := ⟨fun e => hacyclic c e.1 rfl e.2⟩
  have hall : ∀ e : Inside, ∃ d, (h.textWithin d (.ref e.1)).isSome := by
    intro e
    induction e using (Finite.wellFounded_of_trans_of_irrefl below).induction with
    | h e ih =>
      obtain ⟨o, ho⟩ := live_iff_object?.1 (hlive e)
      have hcontents : ∀ v ∈ o.contents, ∃ d, (h.textWithin d v).isSome := by
        intro v hv
        cases v with
        | ref d =>
          have hstep : h.Contains e.1 d := ⟨o, ho, hv⟩
          exact ih ⟨d, e.2.tail hstep⟩ (.single hstep)
        | _ => exact ⟨0, rfl⟩
      obtain ⟨d, hd⟩ := exists_textWithin_forall hcontents
      exact ⟨d + 1, isSome_textWithin_ref ho hd⟩
  exact hall ⟨c, .refl⟩

/-- A value that does not contain itself has a text. -/
theorem text?_isSome (hh : h.Closed) (hv : h.Holds v) (hacyclic : h.Acyclic v) :
    (h.text? v).isSome := by
  cases v with
  | ref c =>
    obtain ⟨d, hd⟩ := exists_textWithin hh (hv c rfl) hacyclic
    rw [← textWithin_eq_text? (Nat.le_max_left h.size d)]
    exact isSome_textWithin_mono (Nat.le_max_right h.size d) hd
  | _ => rfl

end Heap

/-! ### Nothing panics -/

theorem Heap.exists_object?_of_deref? {h : Heap} {v : Value} {o : Object}
    (ho : h.deref? v = some o) : ∃ c, h.object? c = some o := by
  cases v with
  | ref c => exact ⟨c, ho⟩
  | _ => cases ho

/-- The functions that every machine has. -/
def Native.builtIn : List Native := Native.sync ++ [.mutex]

theorem Native.request_ne_panicked (s : Store) (r : Except Cause Request) (p : Panic) :
    (request s r).2 ≠ .panicked p := by
  cases r <;> simp [request]

theorem Native.run_ne_panicked {f : Native} (hf : f ∈ builtIn) (me : Caller) (args : Array Value)
    (s : Store) (p : Panic) : (f.run me args s).2 ≠ .panicked p := by
  simp only [builtIn, sync, List.cons_append, List.nil_append, List.mem_cons, List.not_mem_nil,
    or_false] at hf
  rcases hf with rfl | rfl | rfl | rfl | rfl | rfl | rfl | rfl | rfl | rfl | rfl
  case inr.inr.inr.inr.inr.inr.inr.inl =>
    simp only [run]
    split
    · unfold setLimit
      split <;> simp
    · simp
  all_goals first
    | exact request_ne_panicked _ _ _
    | simp [run, makeValue]

theorem Native.call_ne_panicked {f : Native} (hf : f ∈ builtIn) (me : Caller) (args : Array Value)
    (s : Store) (p : Panic) : (f.call me args s).2 ≠ .panicked p := by
  unfold call
  split
  · exact run_ne_panicked hf me args s p
  · simp

theorem Method.run_ne_panicked (m : Method) (me : Caller) (receiver : CellId) (args : Array Value)
    (s : Store) (p : Panic) : (m.run me receiver args s).2 ≠ .panicked p := by
  unfold run
  split
  case h_1 =>
    unfold increment
    split
    · split
      · split <;> simp
      · simp
    · simp
  case h_4 items =>
    split
    · rename_i i hi
      cases itemAt _ i <;> simp [Reaction.ofExcept]
    · simp
  case h_3 | h_8 | h_11 => split <;> simp
  all_goals simp

theorem Method.call_ne_panicked (m : Method) (me : Caller) (receiver : CellId)
    (args : Array Value) (s : Store) (p : Panic) : (m.call me receiver args s).2 ≠ .panicked p := by
  unfold call
  split
  · exact run_ne_panicked m me receiver args s p
  · simp

namespace Vm

variable {me : Caller} {vm : Vm} {s : Store} {p : Panic}

theorem answer_ne_panicked {callee : Nat} {r : Store × Reaction} (hr : ∀ p, r.2 ≠ .panicked p) :
    (vm.answer callee r).2.2 ≠ .panicked p := by
  obtain ⟨s', reaction⟩ := r
  cases reaction with
  | panicked p => exact absurd rfl (hr p)
  | _ => simp [answer]

/-- A call does not panic if what it calls does not and its arguments can be counted. -/
theorem invoke_ne_panicked {argc : UInt64} (hargc : argc.toNat + 1 < UInt64.size)
    (hnative : ∀ c f, s.heap.object? c = some (.native f) → f ∈ Native.builtIn) :
    (vm.invoke me argc s).2.2 ≠ .panicked p := by
  unfold invoke
  rw [if_neg hargc.ne]
  split
  · simp
  simp only
  split
  · split <;> simp
  · rename_i f ho
    obtain ⟨c, ho⟩ := Heap.exists_object?_of_deref? ho
    exact answer_ne_panicked (Native.call_ne_panicked (hnative c f ho) me _ s)
  · exact answer_ne_panicked (Method.call_ne_panicked _ me _ _ s)
  · simp

theorem enter_ne_panicked {function : Value} {args : Array Value}
    (hargs : args.size + 1 < UInt64.size)
    (hnative : ∀ c f, s.heap.object? c = some (.native f) → f ∈ Native.builtIn) :
    (vm.enter me function args s).2.2 ≠ .panicked p := by
  refine invoke_ne_panicked ?_ hnative
  rw [UInt64.toNat_ofNat_of_lt' (by omega)]
  exact hargs

/-- What a value is raised as, if it does not contain itself. -/
theorem raised_ne_panicked {h : Heap} {v : Value} (hh : h.Closed) (hv : h.Holds v)
    (hacyclic : h.Acyclic v) : raised h v ≠ .panicked p := by
  unfold raised
  split
  · simp
  · obtain ⟨t, ht⟩ := Option.isSome_iff_exists.1 (Heap.text?_isSome hh hv hacyclic)
    rw [ht]
    simp

theorem exec_ne_panicked {code : Code} {base : Nat} {instr : Instr}
    (hargc : ∀ argc, instr = .call argc → argc.toNat + 1 < UInt64.size)
    (hnative : ∀ c f, s.heap.object? c = some (.native f) → f ∈ Native.builtIn)
    (hraise : instr = .raise → ∀ v, vm.peek? = some v →
      s.heap.Closed ∧ s.heap.Holds v ∧ s.heap.Acyclic v) :
    (vm.exec me code base instr s).2.2 ≠ .panicked p := by
  have hpushOr : ∀ (vm' : Vm) (s' : Store) (r : Except Cause Value),
      (vm'.pushOr s' r).2.2 ≠ .panicked p := by
    intro vm' s' r
    cases r <;> simp [pushOr]
  cases instr with
  | const i => exact hpushOr vm s _
  | arg i | global i => simp only [exec]; split <;> [simp; (split <;> simp)]
  | arith op =>
    simp only [exec]
    split <;> [simp; (split <;> [simp; exact hpushOr _ _ _])]
  | call argc => exact invoke_ne_panicked (hargc argc rfl) hnative
  | getAttr i =>
    simp only [exec]
    split <;> [simp; (split <;> [simp; (split <;> simp)])]
  | setAttr i =>
    simp only [exec]
    split <;> [simp; (split <;> [simp; (split <;> [simp; (split <;> simp)])])]
  | pop => simp only [exec]; split <;> simp
  | ret =>
    simp only [exec, ret]
    split <;> [simp; (split <;> simp)]
  | raise =>
    simp only [exec]
    split
    · simp
    · rename_i v hv
      obtain ⟨hclosed, hholds, hacyclic⟩ := hraise rfl v hv
      exact raised_ne_panicked hclosed hholds hacyclic

/-- No instruction panics that calls built-in functions only, can count its arguments and raises no
value that contains itself. -/
theorem step_ne_panicked
    (hargc : ∀ argc, vm.current? s.heap = some (.call argc) → argc.toNat + 1 < UInt64.size)
    (hnative : ∀ c f, s.heap.object? c = some (.native f) → f ∈ Native.builtIn)
    (hraise : vm.current? s.heap = some .raise → ∀ v, vm.peek? = some v →
      s.heap.Closed ∧ s.heap.Holds v ∧ s.heap.Acyclic v) :
    (vm.step me s).2.2 ≠ .panicked p := by
  unfold step
  unfold current? at hargc hraise
  cases hframes : vm.frames with
  | nil => simp
  | cons frame rest =>
    simp only [hframes] at hargc hraise ⊢
    split
    · rename_i code ho
      simp only [ho] at hargc hraise
      cases hinstr : code.instrs[frame.ip]? with
      | none =>
        simp only [ret]
        split <;> simp [push]
      | some instr =>
        rw [hinstr] at hargc hraise
        exact exec_ne_panicked (fun argc heq => hargc argc (by rw [heq])) hnative
          fun heq => hraise (by rw [heq])
    · simp

end Vm

end ScriptCore
