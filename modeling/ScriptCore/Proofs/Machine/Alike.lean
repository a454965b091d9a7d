import Mathlib.Data.List.Forall2
import ScriptCore.Proofs.Heap.Text
import ScriptCore.Proofs.Heap.Lasts

/-!
# Two machines that cannot be told apart

Two machines run the same code, each in a store of its own. The stores share some cells and agree on
them; whatever else the machines have on their stacks is a text or an error that they have made
themselves, and its cell may have another number. Constants, arguments, arithmetic, calls of
bytecode functions, returns and raised values do not notice.

* `Heap.Shares`: two heaps agree on the cells they have in common;
* `Value.Alike`: the same immediate, the same common cell, or a text or an error with the same
  content;
* `Vm.Alike`: the same calls, and operands that are alike;
* `Vm.Paired`: machines that have come to the same signal;
* `Vm.Paired.step`: an instruction takes them to the same signal again.
-/

namespace ScriptCore

/-- Two heaps agree on the cells that they have in common, and no such cell refers to another. -/
structure Heap.Shares (common : CellId → Prop) (h h₀ : Heap) : Prop where
  object : ∀ c, common c → h.object? c = h₀.object? c
  live : ∀ c, common c → h.Live c
  edges : ∀ c d, common c → h.Points c d → common d

/-- Two values that look the same, each in its own heap. -/
inductive Value.Alike (common : CellId → Prop) (h h₀ : Heap) : Value → Value → Prop
  | immediate {v : Value} : (∀ c, v ≠ .ref c) → Alike common h h₀ v v
  | common {c : CellId} : common c → Alike common h h₀ (.ref c) (.ref c)
  /-- Texts that have been made since. -/
  | text {c c₀ : CellId} {s : String} : ¬ common c → ¬ common c₀ → h.object? c = some (.str s) →
      h₀.object? c₀ = some (.str s) → Alike common h h₀ (.ref c) (.ref c₀)
  /-- Errors that have been made since. -/
  | error {c c₀ : CellId} {f : Failure} : ¬ common c → ¬ common c₀ →
      h.object? c = some (.error f) → h₀.object? c₀ = some (.error f) →
      Alike common h h₀ (.ref c) (.ref c₀)

/-- No object has changed. -/
def Heap.Keeps (h h' : Heap) : Prop := ∀ c o, h.object? c = some o → h'.object? c = some o

theorem Heap.Keeps.refl (h : Heap) : h.Keeps h := fun _ _ ho => ho

theorem Heap.keeps_alloc (h : Heap) (cell : Cell) : h.Keeps (h.alloc cell).1 := fun c o ho => by
  rw [object?_alloc, if_neg (lt_size_of_object? ho).ne, ho]

variable {common : CellId → Prop} {h h' h₀ h₀' : Heap}

theorem Heap.Keeps.back (hk : h.Keeps h') {c : CellId} (hc : h.Live c) {o : Object}
    (ho : h'.object? c = some o) : h.object? c = some o := by
  obtain ⟨o', ho'⟩ := live_iff_object?.1 hc
  rwa [ho', ← hk c o' ho']

namespace Heap.Shares

theorem keeps (hs : Shares common h h₀) (hk : h.Keeps h') (hk₀ : h₀.Keeps h₀') :
    Shares common h' h₀' := by
  have hobject : ∀ c, common c → ∃ o, h.object? c = some o ∧ h₀.object? c = some o := fun c hc => by
    obtain ⟨o, ho⟩ := live_iff_object?.1 (hs.live c hc)
    exact ⟨o, ho, (hs.object c hc).symm.trans ho⟩
  refine ⟨fun c hc => ?_, fun c hc => ?_, fun c d hc hp => ?_⟩
  · obtain ⟨o, ho, ho₀⟩ := hobject c hc
    rw [hk c o ho, hk₀ c o ho₀]
  · obtain ⟨o, ho, -⟩ := hobject c hc
    exact live_iff_object?.2 ⟨o, hk c o ho⟩
  · obtain ⟨o, ho, -⟩ := hobject c hc
    obtain ⟨o', ho', hd⟩ := hp
    rw [hk c o ho] at ho'
    exact hs.edges c d hc ⟨o, ho, Option.some.inj ho' ▸ hd⟩

/-- A cell that is new is not shared. -/
theorem not_common_size (hs : Shares common h h₀) : ¬ common h.size := fun hc =>
  (lt_size_of_live (hs.live _ hc)).ne rfl

theorem symm (hs : Shares common h h₀) : Shares common h₀ h where
  object c hc := (hs.object c hc).symm
  live c hc := by
    obtain ⟨o, ho⟩ := live_iff_object?.1 (hs.live c hc)
    exact live_iff_object?.2 ⟨o, (hs.object c hc).symm.trans ho⟩
  edges c d hc hp := by
    obtain ⟨o, ho, hd⟩ := hp
    exact hs.edges c d hc ⟨o, (hs.object c hc).trans ho, hd⟩

theorem trans {h₁ : Heap} (hs : Shares common h h₁) (hs' : Shares common h₁ h₀) :
    Shares common h h₀ :=
  ⟨fun c hc => (hs.object c hc).trans (hs'.object c hc), hs.live, hs.edges⟩

/-- Cells that are reached from values which are kept stay shared as long as nobody writes into
them, collections or not. -/
theorem shift {base : Heap} {starts : List Value} (hs : Shares (base.Reaches starts) h base)
    (hheld : ∀ v ∈ starts, h'.Holds v) (hclosed : h'.Closed)
    (hunwritten : ∀ c o, base.Reaches starts c → h'.object? c = some o → h.object? c = some o) :
    Shares (base.Reaches starts) h' h := by
  have hobject : ∀ c, base.Reaches starts c → h'.Live c → h'.object? c = h.object? c := by
    intro c hc hlive
    obtain ⟨o, ho⟩ := live_iff_object?.1 hlive
    rw [ho, hunwritten c o hc ho]
  have hlive : ∀ c, base.Reaches starts c → h'.Live c := by
    intro c hc
    induction hc with
    | start hc => exact holds_ref.1 (hheld _ hc)
    | @step c d hc hp ih =>
      obtain ⟨o, ho, hd⟩ := hp
      have ho' := ((hobject c hc ih).trans (hs.object c hc)).trans ho
      exact holds_ref.1 (hclosed c o ho' _ hd)
  refine ⟨fun c hc => hobject c hc (hlive c hc), hlive, fun c d hc hp => ?_⟩
  obtain ⟨o, ho, hd⟩ := hp
  exact hs.edges c d hc ⟨o, (hobject c hc (hlive c hc)).symm.trans ho, hd⟩

/-- What a shared cell holds is an immediate or shared. -/
theorem alike_of_mem_edges (hs : Shares common h h₀) {c : CellId} (hc : common c) {o : Object}
    (ho : h.object? c = some o) {v : Value} (hv : v ∈ o.edges) : Value.Alike common h h₀ v v := by
  cases v with
  | ref d => exact .common (hs.edges c d hc ⟨o, ho, hv⟩)
  | _ => exact .immediate (by simp)

end Heap.Shares

namespace Value.Alike

variable {v v₀ : Value}

theorem keeps (ha : Alike common h h₀ v v₀) (hk : h.Keeps h') (hk₀ : h₀.Keeps h₀') :
    Alike common h' h₀' v v₀ := by
  cases ha with
  | immediate hv => exact .immediate hv
  | common hc => exact .common hc
  | text hc hc₀ ho ho₀ => exact .text hc hc₀ (hk _ _ ho) (hk₀ _ _ ho₀)
  | error hc hc₀ ho ho₀ => exact .error hc hc₀ (hk _ _ ho) (hk₀ _ _ ho₀)

/-- What is on the stack of a machine stays what it is while others work and collect. -/
theorem lasts (ha : Alike common h h₀ v v₀) (hl : h.Lasts h') (hv : h'.Holds v) :
    Alike common h' h₀ v v₀ := by
  cases ha with
  | immediate hv => exact .immediate hv
  | common hc => exact .common hc
  | text hc hc₀ ho ho₀ => exact .text hc hc₀ (hl.settled (by rintro _ ⟨⟩) ho (hv _ rfl)) ho₀
  | error hc hc₀ ho ho₀ => exact .error hc hc₀ (hl.settled (by rintro _ ⟨⟩) ho (hv _ rfl)) ho₀

theorem evolves (ha : Alike common h h₀ v v₀) (he : h.Evolves h') : Alike common h' h₀ v v₀ := by
  cases ha with
  | immediate hv => exact .immediate hv
  | common hc => exact .common hc
  | text hc hc₀ ho ho₀ => exact .text hc hc₀ (he.settled (by rintro _ ⟨⟩) ho) ho₀
  | error hc hc₀ ho ho₀ => exact .error hc hc₀ (he.settled (by rintro _ ⟨⟩) ho) ho₀

theorem number?_eq (ha : Alike common h h₀ v v₀) : v.number? = v₀.number? := by
  cases ha <;> rfl

/-- Numbers are alike only if they are the same. -/
theorem eq_of_number? (ha : Alike common h h₀ v v₀) {x : Double} (hx : v.number? = some x) :
    v₀ = v := by
  cases ha with
  | immediate => rfl
  | _ => cases hx

section

variable (ha : Alike common h h₀ v v₀) (hs : Heap.Shares common h h₀)

include ha hs

theorem typeOf_eq : h.typeOf v = h₀.typeOf v₀ := by
  cases ha with
  | immediate hv => cases v <;> first | rfl | exact absurd rfl (hv _)
  | common hc => simp only [Heap.typeOf, hs.object _ hc]
  | text _ _ ho ho₀ | error _ _ ho ho₀ => simp only [Heap.typeOf, ho, ho₀]

theorem str?_eq : h.str? v = h₀.str? v₀ := by
  cases ha with
  | immediate hv => cases v <;> first | rfl | exact absurd rfl (hv _)
  | common hc => simp only [Heap.str?, Heap.deref?, hs.object _ hc]
  | text _ _ ho ho₀ | error _ _ ho ho₀ => simp only [Heap.str?, Heap.deref?, ho, ho₀]

theorem error?_eq : h.error? v = h₀.error? v₀ := by
  cases ha with
  | immediate hv => cases v <;> first | rfl | exact absurd rfl (hv _)
  | common hc => simp only [Heap.error?, Heap.deref?, hs.object _ hc]
  | text _ _ ho ho₀ | error _ _ ho ho₀ => simp only [Heap.error?, Heap.deref?, ho, ho₀]

theorem text?_eq : h.text? v = h₀.text? v₀ := by
  cases ha with
  | immediate hv => cases v <;> first | rfl | exact absurd rfl (hv _)
  | common hc =>
    refine Heap.text?_congr hs.object (fun c d hc hp => hs.symm.edges c d hc hp) ?_
    rintro _ ⟨⟩
    exact hc
  | text _ _ ho ho₀ | error _ _ ho ho₀ => simp only [Heap.text?, Heap.textWithin, ho, ho₀]

/-- What they raise is the same. -/
theorem raised_eq : Vm.raised h v = Vm.raised h₀ v₀ := by
  rw [Vm.raised, Vm.raised, ha.error?_eq hs, ha.text?_eq hs]

end

end Value.Alike

/-! ### Machines -/

/-- An instruction that works on the stack of its machine and on constants only. -/
def Instr.plain : Instr → Bool
  | .global _ | .getAttr _ | .setAttr _ => false
  | _ => true

/-- A native function or a bound method. -/
def Object.isBuiltIn : Object → Bool
  | .native _ | .bound _ _ => true
  | _ => false

/-- The value is no native function and no bound method. -/
def Heap.Scripted (h : Heap) (v : Value) : Prop := ∀ o, h.deref? v = some o → o.isBuiltIn = false

/-- What lies below that many arguments. -/
def Vm.below (vm : Vm) (argc : UInt64) : Option Value := vm.stack[vm.depth - (argc.toNat + 1)]?

/-- What the next instruction of a machine calls. -/
def Vm.callee? (vm : Vm) (h : Heap) : Option Value :=
  match vm.frames with
  | [] => none
  | frame :: _ =>
      match h.object? frame.code with
      | some (.function code) =>
          match code.instrs[frame.ip]? with
          | some (.call argc) => vm.below argc
          | _ => none
      | _ => none

namespace Vm

/-- Machines in the same calls, whose code is shared, with operands that are alike. -/
structure Alike (common : CellId → Prop) (h h₀ : Heap) (vm vm₀ : Vm) : Prop where
  stack : List.Forall₂ (Value.Alike common h h₀) vm.stack.toList vm₀.stack.toList
  frames : vm.frames = vm₀.frames
  code : ∀ frame ∈ vm.frames, common frame.code
  entry : vm.entry = vm₀.entry
  error : vm.error = vm₀.error

namespace Alike

variable {vm vm₀ : Vm}

theorem keeps (ha : Alike common h h₀ vm vm₀) (hk : h.Keeps h') (hk₀ : h₀.Keeps h₀') :
    Alike common h' h₀' vm vm₀ :=
  { ha with stack := ha.stack.imp fun _ _ hv => hv.keeps hk hk₀ }

/-- A machine whose stack is kept stays as it is while others work and collect. -/
theorem lasts (ha : Alike common h h₀ vm vm₀) (hl : h.Lasts h') (hvm : vm.Sound h') :
    Alike common h' h₀ vm vm₀ := by
  refine { ha with stack := ?_ }
  have hheld : ∀ v ∈ vm.stack.toList, h'.Holds v := fun v hv => hvm v (Array.mem_toList_iff.1 hv)
  have hstack := ha.stack
  revert hheld hstack
  generalize vm.stack.toList = vs, vm₀.stack.toList = vs₀
  intro hheld hstack
  induction hstack with
  | nil => exact .nil
  | cons hv _ ih =>
    exact .cons (hv.lasts hl (hheld _ List.mem_cons_self))
      (ih fun v hv => hheld v (List.mem_cons_of_mem _ hv))

theorem depth_eq (ha : Alike common h h₀ vm vm₀) : vm.depth = vm₀.depth := by
  rw [depth, depth, ← Array.length_toList, ← Array.length_toList, ha.stack.length_eq]

/-- Operands in the same place are alike. -/
theorem operand (ha : Alike common h h₀ vm vm₀) (n : Nat) :
    vm.stack[n]? = none ∧ vm₀.stack[n]? = none ∨
    ∃ v v₀, vm.stack[n]? = some v ∧ vm₀.stack[n]? = some v₀ ∧ Value.Alike common h h₀ v v₀ := by
  have hlength := ha.stack.length_eq
  simp only [← Array.getElem?_toList]
  by_cases hn : n < vm.stack.toList.length
  · exact .inr ⟨_, _, List.getElem?_eq_getElem hn, List.getElem?_eq_getElem (hlength ▸ hn),
      ha.stack.get hn (hlength ▸ hn)⟩
  · exact .inl ⟨List.getElem?_eq_none (Nat.not_lt.1 hn),
      List.getElem?_eq_none (hlength ▸ Nat.not_lt.1 hn)⟩

theorem top (ha : Alike common h h₀ vm vm₀) : vm.peek? = none ∧ vm₀.peek? = none ∨
    ∃ v v₀, vm.peek? = some v ∧ vm₀.peek? = some v₀ ∧ Value.Alike common h h₀ v v₀ := by
  have hdepth := ha.depth_eq
  simp only [depth] at hdepth
  simp only [Vm.peek?, Array.back?_eq_getElem?, ← hdepth]
  exact ha.operand _

theorem push (ha : Alike common h h₀ vm vm₀) {v v₀ : Value} (hv : Value.Alike common h h₀ v v₀) :
    Alike common h h₀ (vm.push v) (vm₀.push v₀) := by
  refine ⟨?_, ha.frames, ha.code, ha.entry, ha.error⟩
  rw [Vm.push, Vm.push, Array.toList_push, Array.toList_push]
  exact List.rel_append ha.stack (.cons hv .nil)

theorem truncate (ha : Alike common h h₀ vm vm₀) (n : Nat) :
    Alike common h h₀ (vm.truncate n) (vm₀.truncate n) := by
  refine ⟨?_, ha.frames, ha.code, ha.entry, ha.error⟩
  rw [Vm.truncate, Vm.truncate, Array.toList_shrink, Array.toList_shrink]
  exact List.forall₂_take n ha.stack

theorem dropTop (ha : Alike common h h₀ vm vm₀) :
    Alike common h h₀ vm.dropTop vm₀.dropTop := by
  refine ⟨?_, ha.frames, ha.code, ha.entry, ha.error⟩
  rw [Vm.dropTop, Vm.dropTop, Array.toList_pop, Array.toList_pop, List.dropLast_eq_take,
    List.dropLast_eq_take, ha.stack.length_eq]
  exact List.forall₂_take _ ha.stack

/-- Both machines go on with the same frames. -/
theorem setFrames (ha : Alike common h h₀ vm vm₀) {frames : List Frame}
    (hframes : ∀ frame ∈ frames, common frame.code) :
    Alike common h h₀ { vm with frames } { vm₀ with frames } :=
  ⟨ha.stack, rfl, hframes, ha.entry, ha.error⟩

end Alike

/-! ### Instructions -/

/-- Two machines have come to the same signal, and neither waits. The first of them has begun with
the heap `h`, of which no object has changed. -/
structure Paired (common : CellId → Prop) (h : Heap) (r r₀ : Vm × Store × Signal) : Prop where
  signal : r.2.2 = r₀.2.2
  busy : ∀ callee q, r.2.2 ≠ .suspended callee q
  keeps : h.Keeps r.2.1.heap
  shares : Heap.Shares common r.2.1.heap r₀.2.1.heap
  machine : Alike common r.2.1.heap r₀.2.1.heap r.1 r₀.1

variable {me me₀ : Caller} {vm vm₀ : Vm} {s s' s₀ : Store}

/-- Between two instructions of a machine others may work and collect, as long as they write into
no cell that is shared and free nothing that is on its stack. -/
theorem Paired.drift {signal : Signal} {r₀ : Vm × Store × Signal}
    (hp : Paired common h (vm, s, signal) r₀) (hs : Heap.Shares common s'.heap s.heap)
    (hl : s.heap.Lasts s'.heap) (hvm : vm.Sound s'.heap) :
    Paired common s'.heap (vm, s', signal) r₀ :=
  ⟨hp.signal, hp.busy, .refl _, hs.trans hp.shares, hp.machine.lasts hl hvm⟩

section

variable (hs : Heap.Shares common s.heap s₀.heap) (ha : Alike common s.heap s₀.heap vm vm₀)

include hs

theorem paired_same (ha : Alike common s.heap s₀.heap vm vm₀) {signal : Signal}
    (hsignal : ∀ callee q, signal ≠ .suspended callee q) :
    Paired common s.heap (vm, s, signal) (vm₀, s₀, signal) :=
  ⟨rfl, hsignal, .refl _, hs, ha⟩

include ha

theorem paired_next : Paired common s.heap (vm, s, .next) (vm₀, s₀, .next) :=
  paired_same hs ha (by simp)

theorem paired_failed (e : Cause) : Paired common s.heap (vm, s, .failed e) (vm₀, s₀, .failed e) :=
  paired_same hs ha (by simp)

/-- A new text on both sides. -/
theorem paired_makeText (text : String) :
    let p := s.make me.storage (.str text)
    let p₀ := s₀.make me₀.storage (.str text)
    Paired common s.heap (vm.push (.ref p.2), p.1, .next) (vm₀.push (.ref p₀.2), p₀.1, .next) := by
  intro p p₀
  have hk : s.heap.Keeps p.1.heap := Heap.keeps_alloc _ _
  have hk₀ : s₀.heap.Keeps p₀.1.heap := Heap.keeps_alloc _ _
  refine ⟨rfl, by simp, hk, hs.keeps hk hk₀, (ha.keeps hk hk₀).push ?_⟩
  exact .text hs.not_common_size hs.symm.not_common_size (Store.object?_make _ _ _)
    (Store.object?_make _ _ _)

theorem paired_pushOr {e : Except Cause Value}
    (he : ∀ v, e = .ok v → Value.Alike common s.heap s₀.heap v v) :
    Paired common s.heap (vm.pushOr s e) (vm₀.pushOr s₀ e) := by
  cases e with
  | ok v => exact paired_next hs (ha.push (he v rfl))
  | error c => exact paired_failed hs ha c

end

/-- Numbers are added, subtracted, multiplied and divided without a look at the store. -/
theorem arith_numbers {l r : Value} {x y : Double} (hl : l.number? = some x)
    (hr : r.number? = some y) (op : Arith) :
    ∃ e : Except Cause Value, (∀ v, e = .ok v → ∀ c, v ≠ .ref c) ∧
      ∀ (me : Caller) (s : Store), arith me op l r s = (s, e) := by
  have hmap : ∀ {α : Type} (e : Except Cause α) (f : α → Value), (∀ a c, f a ≠ .ref c) →
      ∀ v, e.map f = .ok v → ∀ c, v ≠ .ref c := by
    intro α e f hf v hv c
    cases e <;> cases hv
    exact hf _ c
  cases l <;> cases hl <;> cases r <;> cases hr
  case int.refl.int.refl a b =>
    exact ⟨(intArith op a b).map .int, hmap _ _ (by simp), fun _ _ => rfl⟩
  all_goals exact ⟨(floatArith op _ _).map .float, hmap _ _ (by simp), fun _ _ => rfl⟩

/-- Everything else is the sum of two texts or a failure. -/
theorem arith_others {l r : Value} (hlr : l.number? = none ∨ r.number? = none) (op : Arith) :
    arith me op l r s =
      match op, s.heap.str? l, s.heap.str? r with
      | .add, some a, some b =>
          let (s, c) := s.make me.storage (.str (a ++ b))
          (s, .ok (.ref c))
      | _, _, _ => (s, .error (.unsupported op (s.heap.typeOf l) (s.heap.typeOf r))) := by
  unfold arith
  split
  · simp [Value.number?] at hlr
  · split
    · simp_all
    · rfl

theorem paired_arith (hs : Heap.Shares common s.heap s₀.heap)
    (ha : Alike common s.heap s₀.heap vm vm₀) {l l₀ r r₀ : Value}
    (hl : Value.Alike common s.heap s₀.heap l l₀) (hr : Value.Alike common s.heap s₀.heap r r₀)
    (op : Arith) :
    Paired common s.heap (vm.pushOr (arith me op l r s).1 (arith me op l r s).2)
      (vm₀.pushOr (arith me₀ op l₀ r₀ s₀).1 (arith me₀ op l₀ r₀ s₀).2) := by
  by_cases hlr : l.number? = none ∨ r.number? = none
  · have hlr₀ : l₀.number? = none ∨ r₀.number? = none := by
      rwa [← hl.number?_eq, ← hr.number?_eq]
    rw [arith_others hlr, arith_others hlr₀, ← hl.str?_eq hs, ← hr.str?_eq hs, ← hl.typeOf_eq hs,
      ← hr.typeOf_eq hs]
    split
    · exact paired_makeText hs ha _
    · exact paired_failed hs ha _
  · simp only [not_or, ← ne_eq, Option.ne_none_iff_exists'] at hlr
    obtain ⟨⟨x, hx⟩, y, hy⟩ := hlr
    obtain ⟨e, he, heq⟩ := arith_numbers hx hy op
    rw [hl.eq_of_number? hx, hr.eq_of_number? hy, heq, heq]
    exact paired_pushOr hs ha fun v hv => .immediate (he v hv)

/-- A call of a bytecode function, or of something that is no function. -/
theorem paired_invoke (hs : Heap.Shares common s.heap s₀.heap)
    (ha : Alike common s.heap s₀.heap vm vm₀) (argc : UInt64)
    (hcallee : ∀ v, vm₀.below argc = some v → s₀.heap.Scripted v) :
    Paired common s.heap (vm.invoke me argc s) (vm₀.invoke me₀ argc s₀) := by
  unfold invoke
  rw [ha.depth_eq]
  split
  · exact paired_same hs ha (by simp)
  split
  · exact paired_failed hs ha _
  simp only [Array.getD_eq_getD_getElem?]
  rcases ha.operand (vm₀.depth - (argc.toNat + 1)) with ⟨hf, hf₀⟩ | ⟨v, v₀, hf, hf₀, hv⟩ <;>
    simp only [hf, hf₀]
  · exact paired_failed hs ha _
  · have hscripted := hcallee v₀ hf₀
    have htype := hv.typeOf_eq hs
    cases hv with
    | immediate hv =>
      cases v with
      | ref c => exact absurd rfl (hv c)
      | _ => exact paired_failed hs ha _
    | @common c hc =>
      simp only [Option.getD_some, Heap.deref?, hs.object c hc, htype]
      cases ho : s₀.heap.object? c with
      | none => exact paired_failed hs ha _
      | some o =>
        have hbuiltIn := hscripted o ho
        cases o with
        | function code =>
          simp only
          split
          · rw [← ha.frames]
            refine paired_next hs (ha.setFrames fun frame hframe => ?_)
            rcases List.mem_cons.1 hframe with rfl | hframe
            · exact hc
            · exact ha.code frame hframe
          · exact paired_failed hs ha _
        | native | bound => cases hbuiltIn
        | _ => exact paired_failed hs ha _
    | text _ _ ho ho₀ | error _ _ ho ho₀ =>
      simp only [Option.getD_some, Heap.deref?, ho, ho₀, htype]
      exact paired_failed hs ha _

theorem paired_ret (hs : Heap.Shares common s.heap s₀.heap)
    (ha : Alike common s.heap s₀.heap vm vm₀) : Paired common s.heap (vm.ret s) (vm₀.ret s₀) := by
  unfold ret
  rcases ha.top with ⟨htop, htop₀⟩ | ⟨v, v₀, htop, htop₀, hv⟩ <;> simp only [htop, htop₀]
  · exact paired_failed hs ha _
  · rw [← ha.frames]
    cases hframes : vm.frames with
    | nil => exact paired_next hs ha
    | cons frame rest =>
      refine paired_next hs (((ha.dropTop.setFrames fun f hf => ?_).truncate _).push hv)
      exact ha.code f (hframes ▸ List.mem_cons_of_mem _ hf)

theorem paired_exec (hs : Heap.Shares common s.heap s₀.heap)
    (ha : Alike common s.heap s₀.heap vm vm₀) {c : CellId} (hc : common c) {code : Code}
    (hcode : s.heap.object? c = some (.function code)) (base : Nat) {instr : Instr}
    (hplain : instr.plain = true)
    (hcallee : ∀ argc, instr = .call argc → ∀ v, vm₀.below argc = some v → s₀.heap.Scripted v) :
    Paired common s.heap (vm.exec me code base instr s) (vm₀.exec me₀ code base instr s₀) := by
  cases instr with
  | const i =>
    refine paired_pushOr hs ha fun v hv => hs.alike_of_mem_edges hc hcode ?_
    unfold constant at hv
    split at hv
    · cases hv
      exact Array.mem_toList_iff.2 (Array.mem_of_getElem? ‹_›)
    · cases hv
  | arg i =>
    simp only [exec]
    split
    · exact paired_failed hs ha _
    · rcases ha.operand (base + i.toNat) with ⟨hv, hv₀⟩ | ⟨v, v₀, hv, hv₀, hlike⟩ <;>
        simp only [hv, hv₀]
      · exact paired_failed hs ha _
      · exact paired_next hs (ha.push hlike)
  | arith op =>
    simp only [exec]
    rcases ha.top with ⟨hr, hr₀⟩ | ⟨r, r₀, hr, hr₀, hright⟩ <;> simp only [hr, hr₀]
    · exact paired_failed hs ha _
    rcases ha.dropTop.top with ⟨hl, hl₀⟩ | ⟨l, l₀, hl, hl₀, hleft⟩ <;> simp only [hl, hl₀]
    · exact paired_failed hs ha.dropTop _
    · exact paired_arith hs ha.dropTop.dropTop hleft hright op
  | call argc => exact paired_invoke hs ha argc (hcallee argc rfl)
  | pop =>
    simp only [exec]
    rcases ha.top with ⟨hv, hv₀⟩ | ⟨v, v₀, hv, hv₀, -⟩ <;> simp only [hv, hv₀]
    · exact paired_failed hs ha _
    · exact paired_next hs ha.dropTop
  | ret => exact paired_ret hs ha
  | raise =>
    simp only [exec]
    rcases ha.top with ⟨hv, hv₀⟩ | ⟨v, v₀, hv, hv₀, hlike⟩ <;> simp only [hv, hv₀]
    · exact paired_failed hs ha _
    · rw [hlike.raised_eq hs]
      refine paired_same hs ha.dropTop fun callee q => ?_
      unfold raised
      split
      · simp
      · split <;> simp
  | _ => cases hplain

/-- One more instruction takes two machines to the same signal again. -/
theorem Paired.step (hp : Paired common h (vm, s, .next) (vm₀, s₀, .next)) (me me₀ : Caller)
    (hcode : ∀ c code, common c → s.heap.object? c = some (.function code) →
      ∀ instr ∈ code.instrs, instr.plain = true)
    (hcallee : ∀ v, vm₀.callee? s₀.heap = some v → s₀.heap.Scripted v) :
    Paired common s.heap (vm.step me s) (vm₀.step me₀ s₀) := by
  obtain ⟨-, -, -, hs, ha⟩ := hp
  unfold Vm.step
  rw [← ha.frames]
  cases hframes : vm.frames with
  | nil => exact paired_next hs ha
  | cons frame rest =>
    have hc := ha.code frame (hframes ▸ List.mem_cons_self)
    simp only [hs.object _ hc]
    cases ho : s₀.heap.object? frame.code with
    | none => exact paired_failed hs ha _
    | some o =>
      cases o with
      | function code =>
        have hnext : ∀ f ∈ { frame with ip := frame.ip + 1 } :: rest, common f.code := by
          intro f hf
          rcases List.mem_cons.1 hf with rfl | hf
          · exact hc
          · exact ha.code f (hframes ▸ List.mem_cons_of_mem _ hf)
        simp only
        cases hinstr : code.instrs[frame.ip]? with
        | none => exact paired_ret hs ((ha.setFrames hnext).push (.immediate (by simp)))
        | some instr =>
          have ho' := (hs.object _ hc).trans ho
          refine paired_exec hs (ha.setFrames hnext) hc ho' frame.base
            (hcode _ _ hc ho' _ (Array.mem_of_getElem? hinstr)) ?_
          rintro argc rfl v hv
          refine hcallee v ?_
          rw [callee?, ← ha.frames, hframes]
          simp only [ho, hinstr]
          exact hv
      | _ => exact paired_failed hs ha _

/-! ### Whole calls -/

/-- Function and arguments of a call, laid out on a fresh machine. -/
def laidOut (function : Value) (args : Array Value) : Vm := (({} : Vm).push function).pushAll args

/-- The same call on two fresh machines. -/
theorem paired_enter (hs : Heap.Shares common s.heap s₀.heap) {function : Value}
    {args : Array Value} (hvalues : ∀ v ∈ function :: args.toList, ∀ c, v = .ref c → common c)
    (hcallee : ∀ v, (laidOut function args).below (UInt64.ofNat args.size) = some v →
      s₀.heap.Scripted v) :
    Paired common s.heap (Vm.enter me function args {} s) (Vm.enter me₀ function args {} s₀) := by
  have hlaid : Alike common s.heap s₀.heap (laidOut function args) (laidOut function args) := by
    refine ⟨List.forall₂_same.2 fun v hv => ?_, rfl, by simp [laidOut, push, pushAll], rfl, rfl⟩
    have hmem : v ∈ function :: args.toList := by simpa [laidOut, push, pushAll] using hv
    cases v with
    | ref c => exact .common (hvalues _ hmem c rfl)
    | _ => exact .immediate (by simp)
  exact paired_invoke hs hlaid _ hcallee

/-- A call that nobody disturbs, after so many instructions: machine, store and signal. -/
def alone (me : Caller) (start : Vm × Store × Signal) : Nat → Vm × Store × Signal
  | 0 => start
  | n + 1 =>
      match alone me start n with
      | (vm, s, .next) => vm.step me s
      | r => r

/-- A call has ended. -/
def halted : Vm × Store × Signal → Bool
  | (vm, _, .next) => vm.frames.isEmpty
  | _ => true

/-- What a call that has ended comes to: its tag and its payload, and the store that has them. An
error stands for a failure, and for a panic. -/
def verdict (me : Caller) : Vm × Store × Signal → Store × Bool × Value
  | (_, s, .failed e) =>
      let (s, c) := s.make me.storage (.error e.failure)
      (s, true, .ref c)
  | (_, s, .panicked p) =>
      let cause := Cause.isolatePanicked (p.message?.getD "unknown panic")
      let (s, c) := s.make me.storage (.error cause.failure)
      (s, true, .ref c)
  | (vm, s, _) => (s, false, vm.peek?.getD .nil)

theorem keeps_verdict (me : Caller) (r : Vm × Store × Signal) :
    r.2.1.heap.Keeps (verdict me r).1.heap := by
  obtain ⟨vm, s, signal⟩ := r
  cases signal with
  | failed | panicked => exact Heap.keeps_alloc _ _
  | _ => exact .refl _

variable {start : Vm × Store × Signal}

/-- A call that has ended stays as it is. -/
theorem alone_of_halted {n m : Nat} (hn : halted (alone me start n) = true) (hm : n ≤ m) :
    alone me start m = alone me start n := by
  induction hm with
  | refl => rfl
  | @step m _ ih =>
    rw [alone, ih]
    split
    · rename_i vm s hr
      rw [hr] at hn ⊢
      rw [Vm.step, List.isEmpty_iff.1 hn]
    · rfl

/-- A call ends once. -/
theorem alone_eq_of_halted {n m : Nat} (hn : halted (alone me start n) = true)
    (hm : halted (alone me start m) = true) : alone me start n = alone me start m := by
  rcases Nat.le_total n m with hle | hle
  · exact (alone_of_halted hn hle).symm
  · exact alone_of_halted hm hle

end Vm

end ScriptCore
