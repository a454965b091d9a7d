import Mathlib
import ScriptCore.Proofs.World.Calls
import ScriptCore.Proofs.World.Panics

/-!
# Execution is bounded by the calls made

A machine has no measure that its instructions decrease: frames come and go, and a frame goes on
where its callee left it. But every frame has an allowance, the instructions after its own position
and the return at the end, and an instruction spends one of the innermost frame. Only a call of
bytecode adds to what may be spent.

* `Frame.left`: the instructions a frame may still execute;
* `Frame.Next`, `step_next`: what an instruction does to the frames;
* `Vm.calls?`: the code of the frame an instruction adds;
* `Vm.own`: the instructions a frame has executed itself;
* `Vm.Frugal`, `frugal`: every run is bounded by its calls, and one without calls ends.
-/

namespace ScriptCore

/-- An element of a history that has grown is the last one or was there before. -/
theorem snoc_eq_append_cons {α : Type} {init before after : List α} {x e : α}
    (h : init ++ [x] = before ++ e :: after) :
    (init = before ∧ x = e ∧ after = []) ∨
      ∃ after', after = after' ++ [x] ∧ init = before ++ e :: after' := by
  rcases List.eq_nil_or_concat after with rfl | ⟨after', last, rfl⟩
  · obtain ⟨hinit, hlast⟩ := List.append_inj' h rfl
    exact .inl ⟨hinit, List.head_eq_of_cons_eq hlast, rfl⟩
  · rw [List.concat_eq_append, ← List.cons_append, ← List.append_assoc] at h
    obtain ⟨hinit, hlast⟩ := List.append_inj' h rfl
    exact .inr ⟨after', by rw [List.concat_eq_append, hlast], hinit⟩

/-! ### Allowances -/

/-- The number of instructions of the code in a cell. -/
def Heap.codeLength (h : Heap) (c : CellId) : Nat :=
  match h.object? c with
  | some (.function code) => code.instrs.size
  | _ => 0

theorem Heap.codeLength_of_object? {h : Heap} {c : CellId} {code : Code}
    (ho : h.object? c = some (.function code)) : h.codeLength c = code.instrs.size := by
  simp [codeLength, ho]

/-- Code does not grow. -/
theorem Heap.KeepsCode.codeLength_le {h h' : Heap} (hk : h.KeepsCode h') {c : CellId}
    (hc : c < h.size) : h'.codeLength c ≤ h.codeLength c := by
  by_cases hcode : ∃ code, h'.object? c = some (.function code)
  · obtain ⟨code, ho⟩ := hcode
    rw [Heap.codeLength_of_object? ho, Heap.codeLength_of_object? (hk.code c code hc ho)]
  · rw [Heap.codeLength]
    split
    · exact absurd ⟨_, ‹_›⟩ hcode
    · exact Nat.zero_le _

/-- The instructions a frame may still execute, with the return at the end of its code. -/
def Frame.left (h : Heap) (f : Frame) : Nat := h.codeLength f.code - f.ip + 1

theorem Frame.left_le {h : Heap} {f : Frame} : f.left h ≤ h.codeLength f.code + 1 := by
  unfold left
  omega

theorem Heap.KeepsCode.left_le {h h' : Heap} (hk : h.KeepsCode h') {f : Frame}
    (hf : f.code < h.size) : f.left h' ≤ f.left h := by
  have hlen := hk.codeLength_le hf
  unfold Frame.left
  omega

/-! ### What an instruction does to the frames -/

/-- The call is over without a result. -/
def Signal.Aborts : Signal → Prop
  | .failed _ | .panicked _ => True
  | _ => False

/-- The frames after an instruction of `f` above `rest`: the frame has returned, or it has an
instruction at its position, has moved on and may have called. -/
inductive Frame.Next (h : Heap) (f : Frame) (rest : List Frame) : List Frame → Prop
  | popped : Next h f rest rest
  | stayed : f.ip < h.codeLength f.code → Next h f rest ({ f with ip := f.ip + 1 } :: rest)
  | pushed (c : CellId) (base : Nat) : f.ip < h.codeLength f.code → c < h.size →
      Next h f rest (⟨c, 0, base⟩ :: { f with ip := f.ip + 1 } :: rest)

namespace Vm

variable {env : Surroundings} {me : Caller} {vm : Vm} {s : Store} {f : Frame} {rest : List Frame}
  {trace before : List (Vm × Store)} {st : Vm × Store} {start r : Vm × Store × Signal}

/-- A call of the bytecode in a cell lies ready below `argc` arguments. -/
def Laid (vm : Vm) (h : Heap) (argc : UInt64) (c : CellId) : Prop :=
  argc.toNat + 1 ≠ UInt64.size ∧ argc.toNat + 1 ≤ vm.depth ∧
    vm.stack.getD (vm.depth - (argc.toNat + 1)) .nil = .ref c ∧
    ∃ code, h.object? c = some (.function code) ∧ code.arity = argc

/-- A call adds a frame for bytecode and leaves the frames alone otherwise. -/
theorem frames_invoke (me : Caller) (vm : Vm) (s : Store) (argc : UInt64) :
    (∃ c base, vm.Laid s.heap argc c ∧
      (vm.invoke me argc s).1.frames = ⟨c, 0, base⟩ :: vm.frames) ∨
    (∀ c, ¬ vm.Laid s.heap argc c) ∧ (vm.invoke me argc s).1.frames = vm.frames := by
  have hanswer : ∀ {callee : Nat} (p : Store × Reaction),
      (vm.answer callee p).1.frames = vm.frames := by
    rintro callee ⟨s', reaction⟩
    cases reaction <;> rfl
  unfold invoke
  split
  case isTrue hword => exact .inr ⟨fun c hlaid => hlaid.1 hword, rfl⟩
  rename_i hword
  split
  case isTrue hunder => exact .inr ⟨fun c hlaid => absurd hlaid.2.1 (Nat.not_le.2 hunder), rfl⟩
  rename_i hdeep
  simp only
  split
  · rename_i c code hcallee ho
    rw [hcallee] at ho
    split
    · rename_i harity
      exact .inl ⟨c, _, ⟨hword, Nat.not_lt.1 hdeep, hcallee, code, ho, harity⟩, rfl⟩
    · rename_i harity
      refine .inr ⟨?_, rfl⟩
      rintro c' ⟨-, -, hcallee', code', ho', harity'⟩
      cases hcallee.symm.trans hcallee'
      cases (show s.heap.object? c = _ from ho).symm.trans ho'
      exact harity harity'
  · rename_i f ho
    refine .inr ⟨?_, hanswer _⟩
    rintro c' ⟨-, -, hcallee', code', ho', -⟩
    rw [hcallee'] at ho
    cases (show s.heap.object? c' = _ from ho).symm.trans ho'
  · rename_i receiver m ho
    refine .inr ⟨?_, hanswer _⟩
    rintro c' ⟨-, -, hcallee', code', ho', -⟩
    rw [hcallee'] at ho
    cases (show s.heap.object? c' = _ from ho).symm.trans ho'
  · rename_i hfunction
    refine .inr ⟨?_, rfl⟩
    rintro c' ⟨-, -, hcallee', code', ho', -⟩
    exact hfunction c' code' hcallee' (by rw [hcallee']; exact ho')

/-- A return takes the innermost frame away or fails. -/
theorem frames_ret (hframes : vm.frames = f :: rest) :
    (vm.ret s).2.2.Aborts ∧ (vm.ret s).1.frames = f :: rest ∨ (vm.ret s).1.frames = rest := by
  unfold ret
  split
  · exact .inl ⟨trivial, hframes⟩
  · rw [hframes]
    exact .inr rfl

/-- A call instruction calls once its frame has moved on. -/
theorem step_call (me : Caller) {argc : UInt64}
    (hcurrent : vm.current? s.heap = some (.call argc)) :
    ∃ f rest, vm.frames = f :: rest ∧ f.ip < s.heap.codeLength f.code ∧
      vm.step me s =
        Vm.invoke me argc { vm with frames := { f with ip := f.ip + 1 } :: rest } s := by
  obtain ⟨f, rest, code, hframes, ho, hinstr, hstep⟩ := step_of_current? me hcurrent
  refine ⟨f, rest, hframes, ?_, hstep⟩
  rw [Heap.codeLength_of_object? ho]
  exact (Array.getElem?_eq_some_iff.1 hinstr).1

/-- Any other instruction ends the call, leaves it or moves on. -/
theorem step_other (me : Caller) (hframes : vm.frames = f :: rest)
    (hcall : ∀ argc, vm.current? s.heap ≠ some (.call argc)) :
    (vm.step me s).2.2.Aborts ∧ (vm.step me s).1.frames.length ≤ vm.frames.length ∨
      (vm.step me s).1.frames = rest ∨
      f.ip < s.heap.codeLength f.code ∧
        (vm.step me s).1.frames = { f with ip := f.ip + 1 } :: rest := by
  have hret : ∀ vm' : Vm, vm'.frames = { f with ip := f.ip + 1 } :: rest →
      (vm'.ret s).2.2.Aborts ∧ (vm'.ret s).1.frames.length ≤ vm.frames.length ∨
        (vm'.ret s).1.frames = rest := by
    intro vm' hvm'
    refine (frames_ret hvm').imp_left fun hfails => ⟨hfails.1, ?_⟩
    simp [hfails.2, hframes]
  unfold current? at hcall
  rw [hframes] at hcall
  unfold step
  rw [hframes] at hret ⊢
  simp only at hcall ⊢
  split
  case h_2 => exact .inl ⟨trivial, by simp [hframes]⟩
  rename_i code ho
  simp only [ho] at hcall
  split
  case h_2 => exact (hret _ rfl).imp_right .inl
  rename_i instr hinstr
  by_cases hr : instr = .ret
  · subst hr
    exact (hret _ rfl).imp_right .inl
  · refine .inr (.inr ⟨?_, Framed.frames_exec (fun argc heq => ?_) hr⟩)
    · rw [Heap.codeLength_of_object? ho]
      exact (Array.getElem?_eq_some_iff.1 hinstr).1
    · exact hcall argc (hinstr.trans (congrArg some heq))

/-- An instruction ends the call or spends one of the innermost frame. -/
theorem step_next (me : Caller) (s : Store) (hframes : vm.frames = f :: rest) :
    (vm.step me s).2.2.Aborts ∨ f.Next s.heap rest (vm.step me s).1.frames := by
  by_cases hcall : ∃ argc, vm.current? s.heap = some (.call argc)
  · obtain ⟨argc, hcurrent⟩ := hcall
    obtain ⟨f', rest', hframes', hip, hstep⟩ := step_call me hcurrent
    cases hframes.symm.trans hframes'
    rw [hstep]
    rcases frames_invoke me { vm with frames := { f with ip := f.ip + 1 } :: rest } s argc with
      ⟨c, base, ⟨-, -, -, code, ho, -⟩, hadded⟩ | ⟨-, hsame⟩
    · exact .inr (hadded ▸ .pushed c base hip (Heap.lt_size_of_object? ho))
    · exact .inr (hsame ▸ .stayed hip)
  · rcases step_other me hframes fun argc hcurrent => hcall ⟨argc, hcurrent⟩ with
      ⟨haborts, -⟩ | hpopped | ⟨hip, hmoved⟩
    · exact .inl haborts
    · exact .inr (hpopped ▸ .popped)
    · exact .inr (hmoved ▸ .stayed hip)

/-! ### Calls and the instructions of a frame -/

/-- The code of the frame an instruction adds. -/
def calls? (me : Caller) (st : Vm × Store) : Option CellId :=
  let frames := (st.1.step me st.2).1.frames
  if st.1.frames.length < frames.length then frames.head?.map (·.code) else none

/-- What an instruction adds to the allowances of all frames. -/
def grant (me : Caller) (st : Vm × Store) : Nat :=
  match calls? me st with
  | some c => st.2.heap.codeLength c + 1
  | none => 0

/-- The instructions the frame above `n` others has executed itself, until it is gone. -/
def own (n : Nat) (trace : List (Vm × Store)) : Nat :=
  (trace.takeWhile fun st => n < st.1.frames.length).countP fun st => st.1.frames.length = n + 1

/-- What the frames of a machine may still execute. -/
def left (h : Heap) (frames : List Frame) : Nat := (frames.map (·.left h)).sum

/-- The codes of all frames are cells of the heap. -/
def Known (h : Heap) (frames : List Frame) : Prop := ∀ f ∈ frames, f.code < h.size

variable {frames : List Frame} {h h' : Heap}

theorem Known.keepsCode (hknown : Known h frames) (hk : h.KeepsCode h') : Known h' frames :=
  fun f hf => (hknown f hf).trans_le hk.size_le

theorem left_le_of_keepsCode (hk : h.KeepsCode h') (hknown : Known h frames) :
    left h' frames ≤ left h frames :=
  List.sum_le_sum fun f hf => hk.left_le (hknown f hf)

theorem keepsCode_step (me : Caller) (vm : Vm) (s : Store) :
    s.heap.KeepsCode (vm.step me s).2.1.heap :=
  .of_evolves (step_safe me vm s).edited.evolves

theorem calls?_of_pushed {c : CellId} {base : Nat} (hframes : vm.frames = f :: rest)
    (hstep : (vm.step me s).1.frames = ⟨c, 0, base⟩ :: { f with ip := f.ip + 1 } :: rest) :
    calls? me (vm, s) = some c := by
  simp [calls?, hframes, hstep]

/-- Only a call of bytecode that lies ready adds a frame. -/
theorem calls?_eq_some_iff {c : CellId} : calls? me (vm, s) = some c ↔
    ∃ argc, vm.current? s.heap = some (.call argc) ∧ vm.Laid s.heap argc c := by
  have hnone : (vm.step me s).1.frames.length ≤ vm.frames.length →
      calls? me (vm, s) ≠ some c := by
    intro hlen
    simp [calls?, Nat.not_lt.2 hlen]
  by_cases hcall : ∃ argc, vm.current? s.heap = some (.call argc)
  · obtain ⟨argc, hcurrent⟩ := hcall
    obtain ⟨f, rest, hframes, -, hstep⟩ := step_call me hcurrent
    rcases frames_invoke me { vm with frames := { f with ip := f.ip + 1 } :: rest } s argc with
      ⟨d, base, hlaid, hadded⟩ | ⟨hnot, hsame⟩
    · rw [calls?_of_pushed hframes (hstep ▸ hadded)]
      constructor
      · intro hd
        cases hd
        exact ⟨argc, hcurrent, hlaid⟩
      · rintro ⟨argc', hcurrent', -, -, hcallee, -⟩
        cases hcurrent.symm.trans hcurrent'
        cases hlaid.2.2.1.symm.trans hcallee
        rfl
    · refine iff_of_false (hnone ?_) ?_
      · rw [hstep, hsame, hframes]
        exact le_rfl
      · rintro ⟨argc', hcurrent', hlaid⟩
        cases hcurrent.symm.trans hcurrent'
        exact hnot c hlaid
  · refine iff_of_false (hnone ?_) fun hready => hcall (hready.imp fun _ h => h.1)
    rcases hframes : vm.frames with _ | ⟨f, rest⟩
    · simp [step, hframes]
    · rcases step_other me hframes fun argc hcurrent => hcall ⟨argc, hcurrent⟩ with
        ⟨-, hle⟩ | hpopped | ⟨-, hmoved⟩
      · rwa [hframes] at hle
      · simp [hpopped]
      · simp [hmoved]

theorem pushed_of_calls? {c : CellId} (hcalled : calls? me (vm, s) = some c) :
    c < s.heap.size ∧ ∃ f rest base, vm.frames = f :: rest ∧
      (vm.step me s).1.frames = ⟨c, 0, base⟩ :: { f with ip := f.ip + 1 } :: rest := by
  obtain ⟨argc, hcurrent, hlaid⟩ := calls?_eq_some_iff.1 hcalled
  obtain ⟨f, rest, hframes, -, hstep⟩ := step_call me hcurrent
  obtain ⟨-, -, -, code, ho, -⟩ := id hlaid
  refine ⟨Heap.lt_size_of_object? ho, f, rest, ?_⟩
  rcases frames_invoke me { vm with frames := { f with ip := f.ip + 1 } :: rest } s argc with
    ⟨d, base, hlaid', hadded⟩ | ⟨hnot, -⟩
  · cases hlaid.2.2.1.symm.trans hlaid'.2.2.1
    exact ⟨base, hframes, hstep ▸ hadded⟩
  · exact absurd hlaid (hnot c)

/-- An instruction spends one of the allowances, and a call grants one more. -/
theorem left_step (vm : Vm) (s : Store) (hknown : Known s.heap vm.frames) (hframes : vm.frames ≠ [])
    (hgoes : ¬ (vm.step me s).2.2.Aborts) :
    Known (vm.step me s).2.1.heap (vm.step me s).1.frames ∧
      left (vm.step me s).2.1.heap (vm.step me s).1.frames + 1 ≤
        left s.heap vm.frames + grant me (vm, s) := by
  obtain ⟨f, rest, hf⟩ := List.exists_cons_of_ne_nil hframes
  have hk := keepsCode_step me vm s
  rw [hf] at hknown
  have hrest : Known s.heap rest := fun g hg => hknown g (List.mem_cons_of_mem _ hg)
  have hcode : f.code < s.heap.size := hknown f List.mem_cons_self
  have hmoved : Known s.heap ({ f with ip := f.ip + 1 } :: rest) := by
    rintro g (_ | ⟨_, hg⟩)
    · exact hcode
    · exact hrest g hg
  have hspent : f.ip < s.heap.codeLength f.code →
      left s.heap ({ f with ip := f.ip + 1 } :: rest) + 1 = left s.heap (f :: rest) := by
    intro hip
    simp only [left, List.map_cons, List.sum_cons, Frame.left]
    omega
  have hnext := (step_next me s hf).resolve_left hgoes
  generalize hframes' : (vm.step me s).1.frames = frames' at hnext ⊢
  cases hnext with
  | popped =>
    refine ⟨hrest.keepsCode hk, ?_⟩
    have hle := left_le_of_keepsCode hk hrest
    rw [hf]
    simp only [left, List.map_cons, List.sum_cons, Frame.left] at hle ⊢
    omega
  | stayed hip =>
    refine ⟨hmoved.keepsCode hk, ?_⟩
    have hle := left_le_of_keepsCode hk hmoved
    have := hspent hip
    rw [hf]
    omega
  | pushed c base hip hc =>
    have hpushed : Known s.heap (⟨c, 0, base⟩ :: { f with ip := f.ip + 1 } :: rest) := by
      rintro g (_ | ⟨_, hg⟩)
      · exact hc
      · exact hmoved g hg
    refine ⟨hpushed.keepsCode hk, ?_⟩
    have hle := left_le_of_keepsCode hk hpushed
    have hgrant : grant me (vm, s) = s.heap.codeLength c + 1 := by
      simp only [grant, calls?_of_pushed hf hframes']
    have hnew : left s.heap (⟨c, 0, base⟩ :: { f with ip := f.ip + 1 } :: rest) =
        s.heap.codeLength c + 1 + left s.heap ({ f with ip := f.ip + 1 } :: rest) := by
      simp [left, Frame.left]
    have := hspent hip
    rw [hf, hgrant]
    omega

/-! ### Runs -/

/-- A run goes on from each of its instructions. -/
theorem Arrives.split {rest : List (Vm × Store)} (h : Arrives env me start trace r)
    (hsplit : trace = before ++ st :: rest) :
    (∃ s, Arrives env me start before (st.1, s, .next) ∧ env.drifts s st.2) ∧
      st.1.frames ≠ [] ∧ Arrives env me (st.1.step me st.2) rest r := by
  induction h generalizing rest with
  | start => simp at hsplit
  | step hbefore hframes hdrift ih =>
    rcases snoc_eq_append_cons hsplit with ⟨rfl, rfl, rfl⟩ | ⟨rest', rfl, hinit⟩
    · exact ⟨⟨_, hbefore, hdrift⟩, hframes, .start⟩
    · obtain ⟨hbegin, hst, hrest⟩ := ih hinit
      exact ⟨hbegin, hst, hrest.step hframes hdrift⟩
  | granted _ hgrant ih =>
    obtain ⟨hbegin, hst, hrest⟩ := ih hsplit
    exact ⟨hbegin, hst, hrest.granted hgrant⟩

theorem Arrives.keepsCode (h : Arrives env me start trace r) :
    start.2.1.heap.KeepsCode r.2.1.heap := by
  induction h with
  | start => exact .refl _
  | step _ _ hdrift ih =>
    exact (ih.trans (env.drifts_code _ _ hdrift)).trans (keepsCode_step _ _ _)
  | granted _ hgrant ih =>
    exact (ih.trans (env.grants_code _ _ _ _ hgrant)).trans
      (.of_evolves (evolves_receive _ _ _ _ _))

/-- What has been executed and what may still be executed was allowed at the start or granted by a
call. -/
theorem Arrives.spent (h : Arrives env me start trace r)
    (hknown : Known start.2.1.heap start.1.frames) :
    trace.length ≤ left start.2.1.heap start.1.frames + (trace.map (grant me)).sum ∧
      (¬ r.2.2.Aborts → Known r.2.1.heap r.1.frames ∧
        trace.length + left r.2.1.heap r.1.frames ≤
          left start.2.1.heap start.1.frames + (trace.map (grant me)).sum) := by
  induction h with
  | start => exact ⟨by simp, fun _ => ⟨hknown, by simp⟩⟩
  | @step trace vm s s₀ _ hframes hdrift ih =>
    obtain ⟨hnow, hleft⟩ := ih.2 id
    have hk := env.drifts_code _ _ hdrift
    have hdrifted : left s₀.heap vm.frames ≤ left s.heap vm.frames :=
      left_le_of_keepsCode hk hnow
    have hpos : 0 < left s₀.heap vm.frames := by
      obtain ⟨f, rest, hf⟩ := List.exists_cons_of_ne_nil hframes
      simp [hf, left, Frame.left]
    simp only [List.length_append, List.map_append, List.sum_append, List.length_singleton,
      List.map_singleton, List.sum_singleton] at hleft ⊢
    refine ⟨by omega, fun hgoes => ?_⟩
    obtain ⟨hknown', hstep⟩ := left_step vm s₀ (hnow.keepsCode hk) hframes hgoes
    exact ⟨hknown', by omega⟩
  | @granted trace vm s s₁ callee q o _ hgrant ih =>
    obtain ⟨hnow, hleft⟩ := ih.2 id
    refine ⟨ih.1, fun _ => ?_⟩
    have hk := (env.grants_code _ _ _ _ hgrant).trans
      (.of_evolves (evolves_receive me callee vm s₁ o))
    rw [frames_receive]
    have hle := left_le_of_keepsCode hk hnow
    exact ⟨hnow.keepsCode hk, by dsimp only at hleft hle ⊢; omega⟩

/-! ### One frame -/

theorem own_append_of_pending {n : Nat} (hpending : ∀ st ∈ trace, n < st.1.frames.length) :
    own n (trace ++ [st]) = own n trace + if st.1.frames.length = n + 1 then 1 else 0 := by
  have hall : trace.takeWhile (fun st => decide (n < st.1.frames.length)) = trace :=
    List.takeWhile_eq_self_iff.2 (by simpa using hpending)
  rw [own, own, List.takeWhile_append_of_pos (by simpa using hpending), List.countP_append, hall]
  congr 1
  by_cases hst : n < st.1.frames.length
  · simp [hst]
  · have : st.1.frames.length ≠ n + 1 := by omega
    simp [hst, this]

theorem own_append_of_gone {n : Nat} (hgone : ∃ st ∈ trace, st.1.frames.length ≤ n)
    (rest : List (Vm × Store)) : own n (trace ++ rest) = own n trace := by
  rw [own, own, List.takeWhile_append, if_neg]
  intro hlen
  obtain ⟨st, hst, hle⟩ := hgone
  have hall := List.takeWhile_eq_self_iff.1
    ((List.takeWhile_prefix _).eq_of_length hlen) st hst
  simp only [decide_eq_true_eq] at hall
  omega

/-- A frame above `below`, moved on from `f` after `n` instructions of its own, or gone. -/
def Spends (h : Heap) (f : Frame) (below : List Frame) (n : Nat) (frames : List Frame) : Prop :=
  frames = below ∨ ∃ above ip, frames = above ++ { f with ip } :: below ∧
    n + ({ f with ip } : Frame).left h ≤ f.left h

/-- An instruction of the frame spends one of its allowance, an instruction of a call above it
none. -/
theorem Spends.step {below : List Frame} {n : Nat} (hspends : Spends h f below n vm.frames)
    (hk : h.KeepsCode s.heap) (hf : f.code < h.size) (hpending : below.length < vm.frames.length)
    (hgoes : ¬ (vm.step me s).2.2.Aborts) :
    Spends h f below (n + if vm.frames.length = below.length + 1 then 1 else 0)
      (vm.step me s).1.frames := by
  rcases hspends with hgone | ⟨above, ip, hframes, hleft⟩
  · exact absurd hpending (by simp [hgone])
  have hlen := hk.codeLength_le hf
  cases above with
  | nil =>
    have hnext := (step_next me s hframes).resolve_left hgoes
    have hmine : vm.frames.length = below.length + 1 := by simp [hframes]
    rw [if_pos hmine]
    generalize (vm.step me s).1.frames = frames' at hnext ⊢
    cases hnext with
    | popped => exact .inl rfl
    | stayed hip =>
      refine .inr ⟨[], ip + 1, rfl, ?_⟩
      simp only [Frame.left] at hleft hip ⊢
      omega
    | pushed c base hip _ =>
      refine .inr ⟨[⟨c, 0, base⟩], ip + 1, rfl, ?_⟩
      simp only [Frame.left] at hleft hip ⊢
      omega
  | cons g above =>
    have hnext := (step_next me s hframes).resolve_left hgoes
    have hother : vm.frames.length ≠ below.length + 1 := by
      simp only [hframes, List.cons_append, List.length_cons, List.length_append]
      omega
    rw [if_neg hother]
    generalize (vm.step me s).1.frames = frames' at hnext ⊢
    cases hnext with
    | popped => exact .inr ⟨above, ip, rfl, hleft⟩
    | stayed => exact .inr ⟨_ :: above, ip, rfl, hleft⟩
    | pushed c base => exact .inr ⟨_ :: _ :: above, ip, rfl, hleft⟩

/-- A frame executes no more instructions of its own than it has left. -/
theorem Arrives.own_le {above below : List Frame} (h : Arrives env me start trace r)
    (hf : f.code < start.2.1.heap.size) (hframes : start.1.frames = above ++ f :: below) :
    own below.length trace ≤ f.left start.2.1.heap ∧
      ((∀ st ∈ trace, below.length < st.1.frames.length) → ¬ r.2.2.Aborts →
        Spends start.2.1.heap f below (own below.length trace) r.1.frames) := by
  induction h with
  | start => exact ⟨by simp [own], fun _ _ => .inr ⟨above, f.ip, hframes, by simp [own]⟩⟩
  | @step trace vm s s₀ hbefore _ hdrift ih =>
    obtain ⟨hle, hspends⟩ := ih
    by_cases hpending : ∀ st ∈ trace, below.length < st.1.frames.length
    · rw [own_append_of_pending hpending]
      by_cases hhere : below.length < vm.frames.length
      · have hnow := hspends hpending id
        have hk := hbefore.keepsCode.trans (env.drifts_code _ _ hdrift)
        refine ⟨?_, fun _ hgoes => hnow.step hk hf hhere hgoes⟩
        rcases hnow with hgone | ⟨_, ip, _, hleft⟩
        · exact absurd (congrArg List.length hgone) hhere.ne'
        · simp only [Frame.left] at hleft ⊢
          split <;> omega
      · have hother : vm.frames.length ≠ below.length + 1 := by omega
        rw [if_neg hother]
        exact ⟨hle, fun hall => absurd (hall (vm, s₀) (by simp)) hhere⟩
    · have hgone : ∃ st ∈ trace, st.1.frames.length ≤ below.length := by
        simpa using hpending
      rw [own_append_of_gone hgone]
      exact ⟨hle, fun hall => absurd (fun st hst => hall st (List.mem_append_left _ hst)) hpending⟩
  | granted _ _ ih =>
    obtain ⟨hle, hspends⟩ := ih
    rw [frames_receive]
    exact ⟨hle, fun hpending _ => hspends hpending id⟩

/-! ### Runs without end -/

/-- A run that goes on for ever, through these instructions. -/
def Endless (env : Surroundings) (me : Caller) (start : Vm × Store × Signal)
    (f : Nat → Vm × Store) : Prop :=
  ∀ n, ∃ r, Arrives env me start ((List.range n).map f) r

/-- The call has returned, failed or panicked. -/
def Over : Vm × Store × Signal → Prop
  | (vm, _, .next) => vm.frames = []
  | (_, _, signal) => signal.Aborts

/-- Whatever happens around it, the call comes to an end. -/
inductive Terminates (env : Surroundings) (me : Caller) : Vm × Store × Signal → Prop
  | ended {r : Vm × Store × Signal} : Over r → Terminates env me r
  | step {vm : Vm} {s : Store} : vm.frames ≠ [] →
      (∀ s₀, env.drifts s s₀ → Terminates env me (vm.step me s₀)) →
      Terminates env me (vm, s, .next)
  | granted {vm : Vm} {s : Store} {callee : Nat} {q : Request} :
      (∀ o s₁, env.grants q s o s₁ → Terminates env me (vm.receive me callee s₁ o)) →
      Terminates env me (vm, s, .suspended callee q)

end Vm

/-- Every safepoint is left and every request is granted. -/
structure Surroundings.Responsive (env : Surroundings) : Prop where
  drifts : ∀ s, ∃ s₀, env.drifts s s₀
  grants : ∀ q s, ∃ o s₁, env.grants q s o s₁

namespace Vm

variable {env : Surroundings} {me : Caller} {trace : List (Vm × Store)}
  {start r : Vm × Store × Signal}

/-- A call that comes to an end does so unless it waits for ever. -/
theorem Terminates.exists_over (henv : env.Responsive) (h : Terminates env me r)
    (harrives : Arrives env me start trace r) :
    ∃ trace' r', Arrives env me start trace' r' ∧ Over r' := by
  induction h generalizing trace with
  | ended hover => exact ⟨trace, _, harrives, hover⟩
  | step hframes _ ih =>
    obtain ⟨s₀, hdrift⟩ := henv.drifts _
    exact ih s₀ hdrift (harrives.step hframes hdrift)
  | granted _ ih =>
    obtain ⟨o, s₁, hgrant⟩ := henv.grants _ _
    exact ih o s₁ hgrant (harrives.granted hgrant)

/-- Runs of bounded length end. -/
theorem terminates_of_bounded {n : Nat}
    (hbound : ∀ trace r, Arrives env me start trace r → trace.length ≤ n)
    (h : Arrives env me start trace r) : Terminates env me r := by
  induction hk : n - trace.length using Nat.strong_induction_on generalizing trace r with
  | _ k ih =>
    have hnext : ∀ {r : Vm × Store × Signal}, Arrives env me start trace r →
        (∀ callee q, r.2.2 ≠ .suspended callee q) → Terminates env me r := by
      rintro ⟨vm, s, signal⟩ h hsignal
      cases signal with
      | next =>
        by_cases hframes : vm.frames = []
        · exact .ended hframes
        refine .step hframes fun s₀ hdrift => ?_
        have hstep := h.step hframes hdrift
        have hlen := hbound _ _ hstep
        refine ih _ ?_ hstep rfl
        simp only [List.length_append, List.length_singleton] at hlen ⊢
        omega
      | failed => exact .ended trivial
      | panicked => exact .ended trivial
      | suspended callee q => exact absurd rfl (hsignal callee q)
    -- a wait is not an instruction, but what it hands over never waits again
    obtain ⟨vm, s, signal⟩ := r
    cases signal with
    | suspended callee q =>
      exact .granted fun o s₁ hgrant =>
        hnext (h.granted hgrant) (receive_not_suspended vm s₁ callee o)
    | _ => exact hnext h (by simp)

/-- Only a run that calls for ever goes on for ever. -/
theorem Endless.infinite_calls {f : Nat → Vm × Store} (h : Endless env me start f)
    (hknown : Known start.2.1.heap start.1.frames) :
    {n | (calls? me (f n)).isSome}.Infinite := by
  intro hfinite
  set calls := hfinite.toFinset
  -- instructions that do not call grant nothing
  have hgranted : ∀ n, ((List.range n).map fun i => grant me (f i)).sum ≤
      ∑ i ∈ calls, grant me (f i) := by
    intro n
    refine Finset.sum_le_sum_of_ne_zero (s := Finset.range n) fun i _ hi => ?_
    refine hfinite.mem_toFinset.2 ?_
    cases hcalled : calls? me (f i) with
    | none => exact absurd (by simp [grant, hcalled]) hi
    | some c => simp [hcalled]
  obtain ⟨r, harrives⟩ := h (left start.2.1.heap start.1.frames +
    (∑ i ∈ calls, grant me (f i)) + 1)
  have hle := (harrives.spent hknown).1
  have := hgranted (left start.2.1.heap start.1.frames + (∑ i ∈ calls, grant me (f i)) + 1)
  simp only [List.length_map, List.length_range, List.map_map, Function.comp_def] at hle
  omega

/-- The frame that a call adds executes no more instructions than its code has, and the return. -/
theorem Arrives.own_called {before rest : List (Vm × Store)} {st : Vm × Store} {c : CellId}
    (h : Arrives env me start (before ++ st :: rest) r) (hcalled : calls? me st = some c) :
    own st.1.frames.length rest ≤ st.2.heap.codeLength c + 1 := by
  obtain ⟨vm, s⟩ := st
  obtain ⟨hc, f, below, base, hframes, hpushed⟩ := pushed_of_calls? hcalled
  have hk := keepsCode_step me vm s
  have hown := (h.split rfl).2.2.own_le (hc.trans_le hk.size_le)
    (show (vm.step me s).1.frames = [] ++ ⟨c, 0, base⟩ :: { f with ip := f.ip + 1 } :: below
      from hpushed)
  have hlen : vm.frames.length = ({ f with ip := f.ip + 1 } :: below).length := by simp [hframes]
  rw [hlen]
  calc own ({ f with ip := f.ip + 1 } :: below).length rest
      ≤ Frame.left (vm.step me s).2.1.heap ⟨c, 0, base⟩ := hown.1
    _ ≤ (vm.step me s).2.1.heap.codeLength c + 1 := Frame.left_le
    _ ≤ s.heap.codeLength c + 1 := Nat.succ_le_succ (hk.codeLength_le hc)

/-- The runs from `start` are bounded by the calls they make. -/
structure Frugal (env : Surroundings) (me : Caller) (start : Vm × Store × Signal) : Prop where
  /-- A frame pending at the start executes no more instructions than its code has, and the return,
  before it is gone. -/
  pending : ∀ trace r above f below, Arrives env me start trace r →
    start.1.frames = above ++ f :: below →
    own below.length trace ≤ start.2.1.heap.codeLength f.code + 1
  /-- So does a frame that is pushed on the way. -/
  since : ∀ before st rest r c, Arrives env me start (before ++ st :: rest) r →
    calls? me st = some c → own st.1.frames.length rest ≤ st.2.heap.codeLength c + 1
  /-- All instructions are among those of the frames pending at the start and pushed since. -/
  total : ∀ trace r, Arrives env me start trace r →
    trace.length ≤ (start.1.frames.map fun f => start.2.1.heap.codeLength f.code + 1).sum +
      (trace.map (grant me)).sum
  /-- A run without end makes calls without end. -/
  diverges : ∀ f, Endless env me start f → {n | (calls? me (f n)).isSome}.Infinite
  /-- Runs in which bytecode calls no bytecode end, whatever happens around them. -/
  terminates : (∀ trace r, Arrives env me start trace r → ∀ st ∈ trace, calls? me st = none) →
    Terminates env me start
  /-- They return, fail or panic if every wait ends. -/
  ends : (∀ trace r, Arrives env me start trace r → ∀ st ∈ trace, calls? me st = none) →
    env.Responsive → ∃ trace r, Arrives env me start trace r ∧ Over r

/-- Execution is bounded by the calls made, from every machine whose frames have their code. -/
theorem frugal_of_known (env : Surroundings) (me : Caller) (start : Vm × Store × Signal)
    (hknown : Known start.2.1.heap start.1.frames) : Frugal env me start := by
  have hstart : left start.2.1.heap start.1.frames ≤
      (start.1.frames.map fun f => start.2.1.heap.codeLength f.code + 1).sum :=
    List.sum_le_sum fun f _ => Frame.left_le
  have hends : (∀ trace r, Arrives env me start trace r → ∀ st ∈ trace, calls? me st = none) →
      Terminates env me start := by
    intro hnone
    refine terminates_of_bounded (n := left start.2.1.heap start.1.frames)
      (fun trace r harrives => ?_) .start
    have hgrant : (trace.map (grant me)).sum = 0 :=
      List.sum_eq_zero (by
        simp only [List.mem_map, forall_exists_index, and_imp, forall_apply_eq_imp_iff₂]
        exact fun st hst => by rw [grant, hnone trace r harrives st hst])
    have hle := (harrives.spent hknown).1
    omega
  exact {
    pending := fun trace r above f below harrives hframes =>
      (harrives.own_le (hknown f (by simp [hframes])) hframes).1.trans Frame.left_le
    since := fun _ _ _ _ _ harrives hcalled => harrives.own_called hcalled
    total := fun _ _ harrives =>
      (harrives.spent hknown).1.trans (Nat.add_le_add_right hstart _)
    diverges := fun _ hendless => hendless.infinite_calls hknown
    terminates := hends
    ends := fun hnone henv => (hends hnone).exists_over henv .start }

/-- A function that calls another one is pending with its argument. -/
theorem frugal_doubling :
    Known Store.doubling.heap [⟨1, 0, 1⟩] ∧
      Frugal .still ⟨0, 0, "main"⟩
        ({ stack := #[.ref 1, .int 21], frames := [⟨1, 0, 1⟩] }, .doubling, .next) := by
  have hknown : Known Store.doubling.heap [⟨1, 0, 1⟩] := by
    intro f hf
    rw [List.mem_singleton.1 hf]
    decide
  exact ⟨hknown, frugal_of_known _ _ _ hknown⟩

end Vm

end ScriptCore
