import ScriptCore.Demo
import ScriptCore.Proofs.Collector.Accounts
import ScriptCore.Proofs.Double.Exact
import ScriptCore.Proofs.Isolate.Report
import ScriptCore.Proofs.World.Keeping
import ScriptCore.Proofs.World.Twins

/-!
# One isolate of the demonstration

An isolate of the demonstration runs four instructions, on its own stack and on its own allocation
list. Whatever all others do meanwhile, it makes its steps in this order: what it has allocated, and
what it will answer, can be read off how far it has come.

* `machine`: its machine before each of its instructions;
* `Answers`: what it answers;
* `Stage`: how far it has come;
* `Thread.cells`, `Thread.togo`: what it has allocated, and how many steps it is from its end;
* `Owns`: the cells that it has allocated;
* `Turn`, `Stage.turn`: what one step of it does.
-/

namespace ScriptCore

open World

/-! ### What does not touch what is allocated -/

/-- Objects stay as they are, unless this cell is a future without a value. -/
def Heap.Spares (g : CellId) (h h' : Heap) : Prop :=
  ∀ c o, (c = g → o ≠ .future none) → h.object? c = some o → h'.object? c = some o

/-- Objects, counts of cells and settings are as they were. -/
structure Store.Still (s s' : Store) : Prop where
  object : ∀ c, s'.heap.object? c = s.heap.object? c
  mortal : ∀ c, s'.heap.Mortal c → s.heap.Mortal c
  count : s'.collector.allocCount = s.collector.allocCount
  freed : s'.collector.freed = s.collector.freed
  isolates : s'.isolates = s.isolates
  shortage : s'.shortage = s.shortage
  creating : s'.creating = s.creating
  locks : s'.locks = s.locks
  now : s'.now = s.now

namespace Store.Still

variable {s s' s'' : Store}

theorem refl (s : Store) : s.Still s :=
  ⟨fun _ => rfl, fun _ => id, rfl, rfl, rfl, rfl, rfl, rfl, rfl⟩

theorem trans (h : s.Still s') (h' : s'.Still s'') : s.Still s'' where
  object c := (h'.object c).trans (h.object c)
  mortal c hc := h.mortal c (h'.mortal c hc)
  count := h'.count.trans h.count
  freed := h'.freed.trans h.freed
  isolates := h'.isolates.trans h.isolates
  shortage := h'.shortage.trans h.shortage
  creating := h'.creating.trans h.creating
  locks := h'.locks.trans h.locks
  now := h'.now.trans h.now

theorem resolved? (h : s.Still s') (c : CellId) : s'.heap.resolved? c = s.heap.resolved? c := by
  rw [Heap.resolved?, Heap.resolved?, h.object]

/-- The heap is the same. -/
theorem of_heap (hheap : s'.heap = s.heap)
    (hcount : s'.collector.allocCount = s.collector.allocCount := by rfl)
    (hfreed : s'.collector.freed = s.collector.freed := by rfl)
    (hisolates : s'.isolates = s.isolates := by rfl)
    (hshortage : s'.shortage = s.shortage := by rfl)
    (hcreating : s'.creating = s.creating := by rfl) (hlocks : s'.locks = s.locks := by rfl)
    (hnow : s'.now = s.now := by rfl) : s.Still s' :=
  ⟨fun _ => by rw [hheap], fun _ hc => by rwa [hheap] at hc, hcount, hfreed, hisolates, hshortage,
    hcreating, hlocks, hnow⟩

end Store.Still

namespace World

theorem still_park (w : World) (t : ThreadId) : w.store.Still (w.park t).store := by
  unfold park
  split
  · exact .of_heap rfl
  · exact .refl _

theorem still_unpark (w : World) (t : ThreadId) : w.store.Still (w.unpark t).store := by
  unfold unpark
  split
  · exact .of_heap rfl
  · exact .refl _

theorem still_dropRoot (w : World) (id : RootId) : w.store.Still (w.dropRoot id).store := by
  unfold dropRoot Collector.removeRoot
  split
  · rename_i g hg
    split at hg <;> cases hg
    exact .of_heap rfl
  · exact .refl _

theorem still_leave (w : World) (t : ThreadId) : w.store.Still (w.leave t).store := by
  rcases w.leave_eq t with ⟨-, heq⟩ | ⟨id, g, -, hg, heq⟩ | ⟨id, p, -, -, heq⟩ <;> rw [heq]
  · exact .refl _
  · obtain ⟨st, -, -, rfl⟩ := Collector.Tidy.retire_cases hg
    exact .of_heap rfl
  · exact .refl _

theorem still_unroot (w : World) (t : ThreadId) : w.store.Still (w.unroot t).store := by
  have huproot : w.store.Still (w.uproot t).store := by
    unfold uproot
    split
    · exact still_dropRoot w _
    · exact .refl _
  rw [unroot_eq]
  exact huproot.trans (.of_heap rfl)

/-- A collection frees nothing if the roots reach everything. -/
theorem Sound.still_collect {own : Ledger} {away : Option ThreadId} {w : World}
    (h : w.Sound own away) (hrooted : ∀ c, w.store.heap.Mortal c → w.Rooted c) :
    w.store.Still w.collect.store := by
  let g := w.store.collector
  have hlisted := h.tidy.listed
  have hsurvives : ∀ c, g.heap.Mortal c → g.Survives w.rootValues c := fun c hc =>
    .inr ((hrooted c hc).clearPath h.tidy.unmarked hc.live)
  have hdead : g.dead w.rootValues = 0 := by
    refine List.countP_eq_zero.2 fun c hc => ?_
    have hmortal := (hlisted.mem_mortals c).1 hc
    have hmarked := (Collector.isMarked_trace_iff_survives hlisted hmortal).2 (hsurvives c hmortal)
    simpa using hmarked
  refine ⟨fun c => ?_, fun c hc => ?_, ?_, ?_, rfl, rfl, rfl, rfl, rfl⟩
  · by_cases hc : g.heap.Mortal c
    · exact h.tidy.object?_collect_of_reaches h.closed h.holds_rootValues (hrooted c hc)
    · show (g.collect w.rootValues).heap.object? c = g.heap.object? c
      rw [Heap.object?, Collector.get?_collect_of_not_mortal hlisted hc, Heap.object?]
  · exact ((Collector.Tidy.mortal_collect_iff hlisted w.rootValues c).1 hc).1
  · show (g.collect w.rootValues).allocCount = g.allocCount
    rw [Collector.allocCount_collect, hdead, Nat.sub_zero]
  · show (g.collect w.rootValues).freed = g.freed
    rw [Collector.freed_collect, hdead, Nat.add_zero]

end World

namespace Demo

/-! ### Its machine -/

/-- The code that an isolate runs. -/
def code (k j : Nat) : Code := if fails k j then broken else double

/-- What an isolate answers: that it has divided by zero, or twice its number. -/
def Answers (k j : Nat) (h : Heap) (isError : Bool) (v : Value) : Prop :=
  if fails k j then
    isError = true ∧ ∃ c, v = .ref c ∧ h.object? c = some (.error Cause.divisionByZero.failure)
  else isError = false ∧ v = .int (Int64.ofNat (2 * j))

/-- The operands before an instruction. -/
def operands (k j : Nat) : Nat → Array Value
  | 0 => #[.int (Int64.ofNat j)]
  | 1 => #[.int (Int64.ofNat j), .int (Int64.ofNat j)]
  | 2 => #[.int (Int64.ofNat j), .int (Int64.ofNat j), .int (if fails k j then 0 else 2)]
  | _ => #[.int (Int64.ofNat j), .int (Int64.ofNat (2 * j))]

/-- The machine before an instruction. The function lies below its argument. -/
def machine (k j : Nat) (f : CellId) (n : Nat) : Vm where
  stack := #[.ref f] ++ operands k j n
  frames := [⟨f, n, 1⟩]

section machine

variable {k j : Nat} {f : CellId} {s : Store}

theorem Answers.error {h : Heap} {e : Bool} {v : Value} (ha : Answers k j h e v) :
    e = fails k j := by
  unfold Answers at ha
  split at ha
  · rename_i hfails
    rw [ha.1, hfails]
  · rename_i hfails
    rw [ha.1, Bool.eq_false_iff.2 hfails]

theorem Answers.mono {h h' : Heap} {e : Bool} {v : Value} (ha : Answers k j h e v) {g : CellId}
    (hspares : h.Spares g h') : Answers k j h' e v := by
  unfold Answers at ha ⊢
  split
  · rename_i hfails
    rw [if_pos hfails] at ha
    obtain ⟨he, c, hv, ho⟩ := ha
    exact ⟨he, c, hv, hspares c _ (fun _ => nofun) ho⟩
  · rename_i hfails
    rw [if_neg hfails] at ha
    exact ha

theorem intArith_double (hj : 2 * j < 2 ^ 63) :
    Vm.intArith .mul (Int64.ofNat j) 2 = .ok (Int64.ofNat (2 * j)) := by
  have hleft : (Int64.ofNat j).toInt = j := Int64.toInt_ofNat_of_lt (by omega)
  have hboth : (Int64.ofNat j).toInt * Int64.toInt 2 = (Int64.ofNat (2 * j)).toInt := by
    rw [hleft, Int64.toInt_ofNat_of_lt hj, show Int64.toInt 2 = 2 from rfl]
    push_cast
    ring
  simp only [Vm.intArith, hboth, Double.checked?_toInt]

variable (hf : s.heap.object? f = some (.function (code k j))) (me : Caller)

include hf

theorem enter_machine :
    Vm.enter me (.ref f) #[.int (Int64.ofNat j)] {} s = (machine k j f 0, s, .next) := by
  have harity : (code k j).arity = 1 := by
    unfold code
    split <;> rfl
  have hword : ¬ 2 = UInt64.size := by decide
  simp [Vm.enter, Vm.invoke, Vm.push, Vm.pushAll, Vm.depth, Heap.deref?, hf, harity, machine,
    operands, hword]

theorem step_machine {n : Nat} (hn : n < 2) :
    (machine k j f n).step me s = (machine k j f (n + 1), s, .next) := by
  unfold code at hf
  obtain rfl | rfl : n = 0 ∨ n = 1 := by omega
  · cases hfails : fails k j <;>
      simp [Vm.step, machine, operands, hf, hfails, double, broken, Vm.exec, Vm.push]
  · cases hfails : fails k j <;>
      simp [Vm.step, machine, operands, hf, hfails, double, broken, Vm.exec, Vm.push, Vm.pushOr,
        Vm.constant]

theorem step_machine_mul (hfails : fails k j = false) (hj : 2 * j < 2 ^ 63) :
    (machine k j f 2).step me s = (machine k j f 3, s, .next) := by
  have hmul := intArith_double hj
  simp only [code, hfails] at hf
  simp only [Vm.step, machine, operands, hf, hfails]
  simp [double, Vm.exec, Vm.push, Vm.pushOr, Vm.peek?, Vm.dropTop, Vm.arith, hmul, Except.map]

theorem step_machine_ret (hfails : fails k j = false) :
    (machine k j f 3).step me s = ({ stack := #[.int (Int64.ofNat (2 * j))] }, s, .next) := by
  simp only [code, hfails] at hf
  simp [Vm.step, machine, operands, hf, double, Vm.exec, Vm.push, Vm.ret, Vm.peek?, Vm.dropTop,
    Vm.truncate]

theorem step_machine_div (hfails : fails k j = true) : ∃ vm,
    (machine k j f 2).step me s = (vm, s, .failed .divisionByZero) ∧ vm.entry = 0 := by
  simp only [code, hfails] at hf
  simp [Vm.step, machine, operands, hf, hfails, broken, Vm.exec, Vm.pushOr, Vm.peek?, Vm.dropTop,
    Vm.arith, Vm.intArith, Except.map]

end machine

end Demo

/-! ### How far it has come -/

/-- The cells that an isolate of the demonstration has allocated, its future among them. -/
def Thread.cells (th : Thread) : Nat :=
  match th.role with
  | .host => 0
  | .isolate _ => 1 + th.vm.error.toNat + th.control.reported.toNat

/-- How many steps an isolate of the demonstration makes at most until it is gone. -/
def Thread.togo (th : Thread) : Nat :=
  match th.left?, th.control with
  | some n, _ => n
  | none, .enrolling => 37
  | none, .equipping => 36
  | none, .entering => 35
  | none, c => 10 + 5 * (4 - (th.vm.frames.head?.map (·.ip)).getD 0) + c.distance

/-- What an isolate is at that asks for nothing and does not panic. -/
def Control.plain : Control → Bool
  | .enrolling | .equipping | .entering | .pausing .returned | .lingering (.pause (some .returned))
  | .publishing .returned | .resuming | .releasing | .retiring | .lingering .retire | .unrooting
  | .gone => true
  | c => c.interprets

namespace Demo

/-- The result of an isolate is in its future. -/
def Reported (k j : Nat) (h : Heap) (future : CellId) : Prop :=
  ∃ r e v, h.object? future = some (.future (some (.ref r))) ∧ h.object? r = some (.result e v) ∧
    Answers k j h e v

/-- How far the isolate with number `j` has come. -/
inductive Stage (k j : Nat) (f : CellId) (h : Heap) (i : Isolate) (th : Thread) : Prop
  | early : th.control = .enrolling ∨ th.control = .equipping ∨ th.control = .entering →
      th.vm = {} → h.object? i.future = some (.future none) → Stage k j f h i th
  | calling {n : Nat} : n < 4 → (n = 3 → fails k j = false) → th.control.interprets = true →
      th.vm = machine k j f n → h.object? i.future = some (.future none) → Stage k j f h i th
  | ended {e : Bool} {v : Value} : th.control = .running ∨ th.control.ending? = some .returned →
      th.vm = { stack := #[v], error := e } → Answers k j h e v →
      h.object? i.future = some (.future none) → Stage k j f h i th
  | reported : th.control.Closing th → th.vm = { error := fails k j } →
      Reported k j h i.future → Stage k j f h i th

/-- A cell that an isolate has allocated: its future, its error, its result. -/
def Owns (h : Heap) (i : Isolate) (th : Thread) (c : CellId) : Prop :=
  c = i.future ∨ (th.vm.error = true ∧ .ref c ∈ th.vm.stack) ∨
    ∃ r e v, h.object? i.future = some (.future (some (.ref r))) ∧
      h.object? r = some (.result e v) ∧ (c = r ∨ v = .ref c)

/-- What a step of an isolate does. -/
structure Turn (own : Ledger) (t : ThreadId) (i : Isolate) (w w' : World) (th : Thread) : Prop where
  becomes : Becomes t th w w'
  role : th.role = (w.thread t).role
  objects : w.store.heap.Spares i.future w'.store.heap
  /-- What is new is its own. -/
  mortal : ∀ c, w'.store.heap.Mortal c → w.store.heap.Mortal c ∨ Owns w'.store.heap i th c
  owns : ∀ c, Owns w.store.heap i (w.thread t) c → Owns w'.store.heap i th c
  count : w'.store.collector.allocCount + (w.thread t).cells =
    w.store.collector.allocCount + th.cells
  freed : w'.store.collector.freed = w.store.collector.freed
  isolates : w'.store.isolates = w.store.isolates
  shortage : w'.store.shortage = w.store.shortage
  creating : w'.store.creating = w.store.creating
  locks : w'.store.locks = w.store.locks
  now : w'.store.now = w.store.now
  /-- The roots of a join stay. -/
  roots : ∀ r ∈ w.store.collector.roots, own r.1 = .join 0 → r ∈ w'.store.collector.roots
  togo : th.togo < (w.thread t).togo

end Demo

/-! ### What its steps do -/

namespace World

variable {own : Ledger} {w w' : World} {t : ThreadId} {i : Isolate}

theorem Becomes.withStore {th : Thread} (h : Becomes t th w w') (s : Store) :
    Becomes t th w { w' with store := s } :=
  ⟨h.mine, h.others, h.size⟩

/-- An instruction that ends well. -/
theorem execute_next (ht : t < w.threads.size) {vm : Vm} {s : Store}
    (hstep : (w.thread t).vm.step ((w.thread t).caller t) w.store = (vm, s, .next)) :
    Becomes t { w.thread t with vm, control := .running } w (w.execute t) ∧
      (w.execute t).store = s := by
  have hexecute : w.execute t =
      ({ w.setVm t {} with store := s }.setVm t vm).setControl t .running := by
    have hstep' : (w.thread t).vm.step ((w.thread t).caller t) (w.setVm t {}).store =
        (vm, s, .next) := hstep
    simp only [execute, takeVm, hstep', afterSignal, proceed]
    rfl
  rw [hexecute]
  have htaken : Becomes t { w.thread t with vm := {} } w (w.setVm t {}) :=
    becomes_modifyThread rfl ht fun th => { th with vm := {} }
  exact ⟨((htaken.withStore s).modifyThread ht fun th => { th with vm }).setControl ht .running,
    rfl⟩

/-- An instruction of an isolate that fails in the outermost call. -/
theorem execute_failed (ht : t < w.threads.size) (hrole : (w.thread t).role = .isolate i) {vm : Vm}
    {s : Store} {e : Cause}
    (hstep : (w.thread t).vm.step ((w.thread t).caller t) w.store = (vm, s, .failed e)) :
    let r := vm.fail ((w.thread t).caller t) e s
    Becomes t { w.thread t with vm := r.1, control := .pausing .returned } w (w.execute t) ∧
      (w.execute t).store = r.2 := by
  intro r
  let w₁ : World := { w.setVm t {} with store := s }
  have htaken : Becomes t { w.thread t with vm := {} } w w₁ :=
    (becomes_modifyThread rfl ht fun th => { th with vm := {} }).withStore s
  have hcaller : (w₁.thread t).caller t = (w.thread t).caller t := by rw [htaken.mine]; rfl
  have hfailed : Becomes t { w.thread t with vm := r.1 } w ({ w₁ with store := r.2 }.setVm t r.1) :=
    (htaken.withStore r.2).modifyThread ht fun th => { th with vm := r.1 }
  have hexecute : w.execute t =
      ({ w₁ with store := r.2 }.setVm t r.1).setControl t (.pausing .returned) := by
    have hended := endRun_eq ({ w₁ with store := r.2 }.setVm t r.1) t
    rw [hfailed.mine, show ({ w.thread t with vm := r.1 } : Thread).role = .isolate i from hrole]
      at hended
    rw [show Control.pausing .returned = (Role.isolate i).ended from rfl, ← hended]
    have hstep' : (w.thread t).vm.step ((w.thread t).caller t) (w.setVm t {}).store =
        (vm, s, .failed e) := hstep
    simp only [execute, takeVm, hstep', afterSignal, proceed]
    rw [show (w₁.thread t).caller t = _ from hcaller]
    rfl
  rw [hexecute]
  exact ⟨hfailed.setControl ht _, rfl⟩

/-- An isolate enters its call. -/
theorem enter_next (ht : t < w.threads.size) (hrole : (w.thread t).role = .isolate i) {vm : Vm}
    {s : Store} (henter : (w.thread t).vm.enter ((w.thread t).caller t) i.function i.args w.store =
      (vm, s, .next)) :
    Becomes t { w.thread t with vm, control := .running } w (w.enter t i.function i.args) ∧
      (w.enter t i.function i.args).store = s := by
  have htaken : Becomes t { w.thread t with vm := {} } w { w.setVm t {} with store := s } :=
    (becomes_modifyThread rfl ht fun th => { th with vm := {} }).withStore s
  have hset : Becomes t { w.thread t with vm } w ({ w.setVm t {} with store := s }.setVm t vm) :=
    htaken.modifyThread ht fun th => { th with vm }
  have henters : w.enter t i.function i.args =
      ({ w.setVm t {} with store := s }.setVm t vm).setControl t .running := by
    have hentered := endEnter_eq ({ w.setVm t {} with store := s }.setVm t vm) t
    rw [hset.mine, show ({ w.thread t with vm } : Thread).role = .isolate i from hrole] at hentered
    rw [show Control.running = (Role.isolate i).entered from rfl, ← hentered]
    have henter' : (w.thread t).vm.enter ((w.thread t).caller t) i.function i.args
        (w.setVm t {}).store = (vm, s, .next) := henter
    simp only [enter, takeVm, henter', afterSignal, proceed]
    rfl
  rw [henters]
  exact ⟨hset.setControl ht _, rfl⟩

/-- A step between two instructions that has to do with a collection changes nothing that is
allocated, if the roots reach everything. -/
theorem Sound.still_silent (h : w.Sound own none) (ht : t < w.threads.size)
    (hc : (w.control t).interprets = true) (hsilent : w.silent t = true)
    (hrooted : ∀ k, w.control t = .sweeping k → ∀ c, w.store.heap.Mortal c → w.Rooted c) :
    ∃ c, Becomes t { w.thread t with control := c } w (w.step t) ∧ c.interprets = true ∧
      c.distance < (w.control t).distance ∧ w.store.Still (w.step t).store ∧
      (w.step t).store.collector.roots = w.store.collector.roots := by
  have hinstruction : ∀ k : After, (w.control t = .rendezvous false k ∨
      w.control t = .rendezvous true k ∨ w.control t = .lingering k ∨ w.control t = .gathering k ∨
      w.control t = .sweeping k) → k = .instruction := by
    rintro k (hk | hk | hk | hk | hk) <;> rw [hk] at hc <;> cases k <;> first | rfl | cases hc
  have hset : ∀ w₁ : World, w₁.threads = w.threads → ∀ c,
      Becomes t { w.thread t with control := c } w (w₁.setControl t c) := fun w₁ hthreads =>
    becomes_setControl hthreads ht
  cases hcontrol : w.control t with
  | running =>
    simp only [World.silent, hcontrol, Bool.and_eq_true, Bool.not_eq_true'] at hsilent
    have hstep : w.step t = w.setControl t (.rendezvous false .instruction) := by
      simp [World.step, show (w.thread t).control = _ from hcontrol, hsilent.1, hsilent.2]
    rw [hstep]
    exact ⟨_, hset w rfl _, rfl, by decide, .refl _, rfl⟩
  | rendezvous force k =>
    obtain rfl := hinstruction k (by cases force <;> simp [hcontrol])
    have hlt : ∀ n < 3, n < (Control.rendezvous force .instruction).distance := fun _ hn => hn
    simp only [World.step, show (w.thread t).control = _ from hcontrol]
    split
    · exact ⟨_, hset _ (threads_park w t) _, rfl, hlt 2 (by decide), still_park w t,
        (park_same w t).2.2⟩
    · split
      · exact ⟨.stepping, hset (w.modifyStore (·.clearRequest)) rfl _, rfl, hlt 0 (by decide),
          .of_heap rfl, rfl⟩
      · exact ⟨_, hset ((w.modifyStore (·.clearRequest)).modifySync (·.convene)) rfl _, rfl,
          hlt 2 (by decide), .of_heap rfl, rfl⟩
  | lingering k =>
    obtain rfl := hinstruction k (by simp [hcontrol])
    simp only [World.step, show (w.thread t).control = _ from hcontrol]
    exact ⟨.stepping, hset _ (threads_unpark w t) _, rfl, by decide, still_unpark w t,
      (unpark_same w t).2.2⟩
  | gathering k =>
    obtain rfl := hinstruction k (by simp [hcontrol])
    simp only [World.step, show (w.thread t).control = _ from hcontrol]
    exact ⟨_, hset w rfl _, rfl, by decide, .refl _, rfl⟩
  | sweeping k =>
    obtain rfl := hinstruction k (by simp [hcontrol])
    simp only [World.step, show (w.thread t).control = _ from hcontrol]
    refine ⟨.stepping, hset (w.collect.modifySync (·.dismiss)) rfl _, rfl, by decide, ?_, rfl⟩
    exact (h.still_collect (hrooted _ hcontrol)).trans (.of_heap rfl)
  | _ =>
    rw [World.silent, hcontrol] at hsilent
    cases hsilent

/-- Steps of an isolate outside of its call change nothing that is allocated, unless it publishes,
and drop no root of a join. -/
theorem Sound.still_onward (h : w.Sound own none) (hrole : (w.thread t).role = .isolate i)
    {c : Control} (hc : w.control t = c) {th : Thread} (hth : w.onward t c = some th)
    (hpublishing : ∀ e, c ≠ .publishing e) :
    w.store.Still (w.step t).store ∧
      ∀ r ∈ w.store.collector.roots, own r.1 = .join 0 → r ∈ (w.step t).store.collector.roots := by
  have hhost : (w.thread t).role ≠ .host := by simp [hrole]
  have hdrop : ∀ id, own id ≠ .join 0 → ∀ r ∈ w.store.collector.roots, own r.1 = .join 0 →
      r ∈ (w.dropRoot id).store.collector.roots := by
    intro id hid r hr hown
    refine (mem_roots_dropRoot w).2 ⟨hr, fun heq => hid ?_⟩
    rwa [heq] at hown
  unfold World.step
  simp only [show (w.thread t).control = c from hc]
  cases c with
  | running =>
    simp only [onward, Option.ite_none_right_eq_some, Option.some.injEq] at hth
    simp only [hth.1, if_true, endRun_eq]
    exact ⟨.refl _, fun r hr _ => hr⟩
  | enrolling => exact ⟨.of_heap rfl, fun r hr _ => hr⟩
  | equipping => exact ⟨.of_heap rfl, fun r hr _ => List.mem_cons_of_mem _ hr⟩
  | pausing e =>
    simp only
    split
    · exact ⟨still_park w t, fun r hr _ => (park_same w t).2.2.symm ▸ hr⟩
    · exact ⟨.of_heap rfl, fun r hr _ => hr⟩
  | lingering k =>
    have hunpark : ∀ r ∈ w.store.collector.roots, r ∈ (w.unpark t).store.collector.roots :=
      fun r hr => (unpark_same w t).2.2.symm ▸ hr
    cases k with
    | pause ending =>
      refine ⟨(still_unpark w t).trans (.of_heap rfl), fun r hr _ => ?_⟩
      exact hunpark r hr
    | retire =>
      refine ⟨(still_unpark w t).trans (still_leave _ t), fun r hr _ => ?_⟩
      show r ∈ ((w.unpark t).leave t).store.collector.roots
      rw [(leave_same _ t).1]
      exact hunpark r hr
    | _ => cases hth
  | publishing e => exact absurd rfl (hpublishing e)
  | resuming => exact ⟨.of_heap rfl, fun r hr _ => hr⟩
  | releasing =>
    simp only [hrole]
    refine ⟨still_dropRoot w _, hdrop _ ?_⟩
    rw [h.transfer t i hrole]
    simp
  | retiring =>
    simp only
    split
    · exact ⟨still_park w t, fun r hr _ => (park_same w t).2.2.symm ▸ hr⟩
    · exact ⟨still_leave w t, fun r hr _ => (leave_same w t).1.symm ▸ hr⟩
  | unrooting =>
    refine ⟨still_unroot w t, fun r hr hown => ?_⟩
    rw [unroot_eq]
    show r ∈ (World.uproot w t).store.collector.roots
    unfold World.uproot
    split
    · rename_i id hid
      refine hdrop id ?_ r hr hown
      rw [(h.root t id hid).2]
      simp
    · exact hr
  | _ => cases hth

end World

namespace Demo

variable {own : Ledger} {w w' : World} {t : ThreadId} {i : Isolate} {k j : Nat} {f : CellId}

theorem Reported.mono {h h' : Heap} {c g : CellId} (hr : Reported k j h c)
    (hspares : h.Spares g h') : Reported k j h' c := by
  obtain ⟨r, e, v, hc, hr, ha⟩ := hr
  exact ⟨r, e, v, hspares c _ (fun _ => by simp) hc, hspares r _ (fun _ => nofun) hr,
    ha.mono hspares⟩

/-- What others do leaves an isolate where it is. -/
theorem Stage.mono {h h' : Heap} {th : Thread} (hs : Stage k j f h i th) {g : CellId}
    (hspares : h.Spares g h') (hne : i.future ≠ g) : Stage k j f h' i th := by
  have hfuture : h.object? i.future = some (.future none) →
      h'.object? i.future = some (.future none) :=
    hspares _ _ fun heq => absurd heq hne
  cases hs with
  | early hc hvm hf => exact .early hc hvm (hfuture hf)
  | calling hn hthree hc hvm hf => exact .calling hn hthree hc hvm (hfuture hf)
  | ended hc hvm ha hf => exact .ended hc hvm (ha.mono hspares) (hfuture hf)
  | reported hc hvm hr => exact .reported hc hvm (hr.mono hspares)

theorem Stage.plain {h : Heap} {th : Thread} (hs : Stage k j f h i th) :
    th.control.plain = true := by
  cases hs with
  | early hc => rcases hc with hc | hc | hc <;> rw [hc] <;> rfl
  | calling _ _ hc =>
    revert hc
    cases th.control with
    | lingering after => cases after <;> simp [Control.interprets, Control.plain]
    | _ => simp [Control.interprets, Control.plain]
  | ended hc =>
    rcases hc with hc | hc
    · rw [hc]
      rfl
    · revert hc
      cases th.control with
      | lingering after =>
        cases after with
        | pause ending => cases ending <;> simp +contextual [Control.ending?, Control.plain]
        | _ => simp [Control.ending?]
      | _ => simp +contextual [Control.ending?, Control.plain]
  | reported hc =>
    revert hc
    cases th.control with
    | lingering after => cases after <;> simp [Control.Closing, Control.plain]
    | _ => simp [Control.Closing, Control.plain]

/-- The future of an isolate is one. -/
theorem Stage.exists_future {h : Heap} {th : Thread} (hs : Stage k j f h i th) :
    ∃ slot, h.object? i.future = some (.future slot) := by
  cases hs with
  | early _ _ hf | calling _ _ _ _ hf | ended _ _ _ hf => exact ⟨_, hf⟩
  | reported _ _ hr =>
    obtain ⟨r, e, v, hf, -⟩ := hr
    exact ⟨_, hf⟩

/-- An error lies on a stack that is a root. -/
theorem Stage.rooted_of_error {h : Heap} {g : Collector} {th : Thread} (hs : Stage k j f h i th)
    (hstands : th.control.Stands own g t th) (herror : th.vm.error = true) {c : CellId}
    (hc : .ref c ∈ th.vm.stack) : th.root.isSome := by
  cases hs with
  | early _ hvm | calling _ _ _ hvm =>
    rw [hvm] at herror
    cases herror
  | ended hcontrol _ _ _ =>
    rcases hcontrol with hcontrol | hcontrol
    · rw [hcontrol] at hstands
      exact hstands.2
    · cases hcases : th.control <;> rw [hcases] at hcontrol hstands <;>
        simp only [Control.ending?, Option.some.injEq, reduceCtorEq] at hcontrol
      case pausing | publishing => exact hstands.2
      case lingering after =>
        cases after with
        | pause ending =>
          cases ending with
          | none => cases hcontrol
          | some e => exact (hstands rfl).2
        | _ => cases hcontrol
  | reported _ hvm =>
    rw [hvm] at hc
    simp at hc

theorem Stage.respent {h : Heap} {th : Thread} (hs : Stage k j f h i th) (n : Nat) :
    Stage k j f h i { th with spent := n } := by
  cases hs with
  | early hc hvm hf => exact .early hc hvm hf
  | calling hn hthree hc hvm hf => exact .calling hn hthree hc hvm hf
  | ended hc hvm ha hf => exact .ended hc hvm ha hf
  | reported hc hvm hr =>
    refine .reported ?_ hvm hr
    revert hc
    show _ → th.control.Closing { th with spent := n }
    cases th.control with
    | lingering after => cases after <;> exact id
    | _ => exact id

theorem Owns.mono {h h' : Heap} {th : Thread} {c g : CellId} (ho : Owns h i th c)
    (hspares : h.Spares g h') : Owns h' i th c := by
  rcases ho with rfl | hstack | ⟨r, e, v, hf, hr, hc⟩
  · exact .inl rfl
  · exact .inr (.inl hstack)
  · exact .inr (.inr ⟨r, e, v, hspares _ _ (fun _ => by simp) hf, hspares _ _ (fun _ => nofun) hr,
      hc⟩)

/-- A step that allocates nothing. -/
theorem Turn.of_still {th : Thread} (hbecomes : Becomes t th w w')
    (hrole : th.role = (w.thread t).role)
    (hvm : th.vm = (w.thread t).vm ∨ th.vm.error = false ∧ (w.thread t).vm.error = false)
    (hreported : th.control.reported = (w.thread t).control.reported)
    (hstill : w.store.Still w'.store)
    (hroots : ∀ r ∈ w.store.collector.roots, own r.1 = .join 0 → r ∈ w'.store.collector.roots)
    (htogo : th.togo < (w.thread t).togo) : Turn own t i w w' th := by
  have hspares : w.store.heap.Spares i.future w'.store.heap := fun c o _ ho =>
    (hstill.object c).trans ho
  refine ⟨hbecomes, hrole, hspares, fun c hc => .inl (hstill.mortal c hc), fun c hc => ?_, ?_,
    hstill.freed, hstill.isolates, hstill.shortage, hstill.creating, hstill.locks, hstill.now,
    hroots, htogo⟩
  · rcases hc with rfl | ⟨herror, hstack⟩ | hc
    · exact .inl rfl
    · rcases hvm with hvm | ⟨-, hnone⟩
      · exact .inr (.inl ⟨hvm ▸ herror, hvm ▸ hstack⟩)
      · rw [herror] at hnone
        cases hnone
    · exact (Owns.mono (.inr (.inr hc) : Owns w.store.heap i th c) hspares)
  · have herror : th.vm.error = (w.thread t).vm.error := by
      rcases hvm with hvm | ⟨hnew, hold⟩
      · rw [hvm]
      · rw [hnew, hold]
    rw [hstill.count, Thread.cells, Thread.cells, hrole, herror, hreported]

/-- A thread between two instructions. -/
theorem togo_calling {th : Thread} {n : Nat} (hc : th.control.interprets = true)
    (hvm : th.vm = machine k j f n) : th.togo = 10 + 5 * (4 - n) + th.control.distance := by
  have hframes : th.vm.frames.isEmpty = false := by rw [hvm]; rfl
  have hip : (th.vm.frames.head?.map (·.ip)).getD 0 = n := by rw [hvm]; rfl
  cases hcontrol : th.control with
  | rendezvous force after => simp [Thread.togo, Thread.left?, hcontrol, hip]
  | lingering after =>
    cases after with
    | instruction => simp [Thread.togo, Thread.left?, hcontrol, hip]
    | _ => simp [hcontrol, Control.interprets] at hc
  | running => simp [Thread.togo, Thread.left?, hcontrol, hframes, hip]
  | stepping | gathering | sweeping => simp [Thread.togo, Thread.left?, hcontrol, hip]
  | _ => simp [hcontrol, Control.interprets] at hc

theorem reported_of_interprets {c : Control} (hc : c.interprets = true) : c.reported = false := by
  cases c with
  | lingering after => cases after <;> first | rfl | cases hc
  | _ => first | rfl | cases hc

/-- An instruction that ends well. -/
theorem Turn.of_execute (hrole : (w.thread t).role = .isolate i) {n : Nat}
    (hc : (w.control t).interprets = true) (hvm : (w.thread t).vm = machine k j f n) {vm : Vm}
    (hstep : (machine k j f n).step ((w.thread t).caller t) w.store = (vm, w.store, .next))
    (herror : vm.error = false)
    (htogo : { w.thread t with vm, control := .running }.togo < 10 + 5 * (4 - n)) :
    Turn own t i w (w.execute t) { w.thread t with vm, control := .running } ∧
      (w.execute t).store = w.store := by
  obtain ⟨hbecomes, hstore⟩ := execute_next (lt_size_of_role hrole) (hvm ▸ hstep)
  refine ⟨.of_still hbecomes rfl (.inr ⟨herror, by rw [hvm]; rfl⟩) ?_ (hstore ▸ .refl _)
    (fun r hr _ => hstore ▸ hr) ?_, hstore⟩
  · exact (reported_of_interprets hc).symm
  · rw [togo_calling hc hvm]
    omega

/-- A division by zero leaves an error on the stack. -/
theorem Stage.turn_failed (hrole : (w.thread t).role = .isolate i)
    (hf : w.store.heap.object? f = some (.function (code k j))) (hfails : fails k j = true)
    (hc : (w.control t).interprets = true) (hvm : (w.thread t).vm = machine k j f 2)
    (hfuture : w.store.heap.object? i.future = some (.future none)) :
    ∃ th, Turn own t i w (w.execute t) th ∧ Stage k j f (w.execute t).store.heap i th := by
  obtain ⟨vm, hstep, hentry⟩ := step_machine_div hf ((w.thread t).caller t) hfails
  obtain ⟨hbecomes, hstore⟩ := execute_failed (lt_size_of_role hrole) hrole (hvm ▸ hstep)
  let e := w.store.heap.size
  have hfailed : (vm.fail ((w.thread t).caller t) .divisionByZero w.store).1 =
      { stack := #[.ref e], error := true } := by
    simp [Vm.fail, hentry, Vm.truncate, Vm.push, Store.make, Collector.make, e, Store.heap]
  have hheap : (w.execute t).store.heap =
      (w.store.heap.alloc { object := .error Cause.divisionByZero.failure }).1 := by
    rw [hstore]
    rfl
  rw [hfailed] at hbecomes
  have hspares : w.store.heap.Spares i.future (w.execute t).store.heap := by
    intro c o _ ho
    rw [hheap, Heap.object?_alloc, if_neg (Heap.lt_size_of_object? ho).ne, ho]
  have hanswers : Answers k j (w.execute t).store.heap true (.ref e) := by
    rw [Answers, if_pos hfails]
    refine ⟨rfl, e, rfl, ?_⟩
    rw [hheap, Heap.object?_alloc, if_pos rfl]
  refine ⟨_, ⟨hbecomes, rfl, hspares, fun c hc => ?_, fun c hc => ?_, ?_, ?_, ?_, ?_, ?_, ?_,
    ?_, fun r hr _ => ?_, ?_⟩, .ended (.inr rfl) rfl hanswers ?_⟩
  · rw [hheap, Heap.mortal_alloc rfl] at hc
    rcases hc with rfl | hc
    · exact .inr (.inr (.inl ⟨rfl, by simp [e]⟩))
    · exact .inl hc
  · rcases hc with rfl | ⟨herror, -⟩ | ⟨r, e, v, hr, -⟩
    · exact .inl rfl
    · rw [hvm] at herror
      cases herror
    · rw [hfuture] at hr
      cases hr
  · have hreported : (w.thread t).control.reported = false := reported_of_interprets hc
    simp only [Thread.cells, hrole, hreported, hvm, hstore]
    simp [machine, Vm.fail, Store.make, Collector.make, Control.reported]
  all_goals try rw [hstore]; rfl
  · rw [hstore]
    exact hr
  · rw [togo_calling hc hvm]
    simp [Thread.togo, Thread.left?]
    omega
  · rw [hheap, Heap.object?_alloc, if_neg (Heap.lt_size_of_object? hfuture).ne, hfuture]

/-- An isolate enters its call. -/
theorem Stage.turn_entering (hrole : (w.thread t).role = .isolate i)
    (hf : w.store.heap.object? f = some (.function (code k j))) (hfunction : i.function = .ref f)
    (hargs : i.args = #[.int (Int64.ofNat j)]) (hc : w.control t = .entering)
    (hvm : (w.thread t).vm = {})
    (hfuture : w.store.heap.object? i.future = some (.future none)) :
    ∃ th, Turn own t i w (w.step t) th ∧ Stage k j f (w.step t).store.heap i th := by
  have ht : t < w.threads.size := lt_size_of_role hrole
  have hcontrol : (w.thread t).control = .entering := hc
  have hstep : w.step t = w.enter t i.function i.args := by
    simp only [World.step, hcontrol, hrole]
  have henter : (w.thread t).vm.enter ((w.thread t).caller t) i.function i.args w.store =
      (machine k j f 0, w.store, .next) := by
    rw [hvm, hfunction, hargs]
    exact enter_machine hf _
  obtain ⟨hbecomes, hstore⟩ := enter_next ht hrole henter
  rw [hstep]
  refine ⟨_, .of_still hbecomes rfl (.inr ⟨rfl, by rw [hvm]⟩) ?_ (hstore ▸ .refl _)
    (fun r hr _ => hstore ▸ hr) ?_, ?_⟩
  · rw [hcontrol]
    rfl
  · rw [togo_calling (n := 0) rfl rfl]
    simp [Thread.togo, Thread.left?, hcontrol, Control.distance]
  · rw [hstore]
    exact .calling (by decide) (fun h => absurd h (by decide)) rfl rfl hfuture

/-- An instruction takes an isolate further in its call, or ends it. -/
theorem Stage.turn_execute (hrole : (w.thread t).role = .isolate i)
    (hf : w.store.heap.object? f = some (.function (code k j))) (hj : 2 * j < 2 ^ 63) {n : Nat}
    (hn : n < 4) (hthree : n = 3 → fails k j = false) (hc : (w.control t).interprets = true)
    (hvm : (w.thread t).vm = machine k j f n)
    (hfuture : w.store.heap.object? i.future = some (.future none)) :
    ∃ th, Turn own t i w (w.execute t) th ∧ Stage k j f (w.execute t).store.heap i th := by
  have hnext : ∀ m, m < 4 → n < m → (m = 3 → fails k j = false) →
      (machine k j f n).step ((w.thread t).caller t) w.store = (machine k j f m, w.store, .next) →
      ∃ th, Turn own t i w (w.execute t) th ∧ Stage k j f (w.execute t).store.heap i th := by
    intro m hm hlt hthree' hstep
    have htogo : { w.thread t with vm := machine k j f m, control := .running }.togo <
        10 + 5 * (4 - n) := by
      rw [togo_calling (n := m) rfl rfl]
      simp only [Control.distance]
      omega
    obtain ⟨hturn, hstore⟩ := Turn.of_execute hrole hc hvm hstep rfl htogo
    exact ⟨_, hturn, .calling hm hthree' rfl rfl (hstore ▸ hfuture)⟩
  by_cases htwo : n < 2
  · exact hnext (n + 1) (by omega) (by omega) (by omega) (step_machine hf _ htwo)
  obtain rfl | rfl : n = 2 ∨ n = 3 := by omega
  · cases hfails : fails k j with
    | false =>
      exact hnext 3 (by decide) (by decide) (fun _ => hfails) (step_machine_mul hf _ hfails hj)
    | true => exact turn_failed hrole hf hfails hc hvm hfuture
  · have hfails := hthree rfl
    obtain ⟨hturn, hstore⟩ := Turn.of_execute hrole hc hvm (step_machine_ret hf _ hfails) rfl
      (by simp [Thread.togo, Thread.left?])
    refine ⟨_, hturn, .ended (.inl rfl) rfl ?_ (hstore ▸ hfuture)⟩
    simp [Answers, hfails]

/-- An isolate publishes what it answers. -/
theorem Stage.turn_publishing (hrole : (w.thread t).role = .isolate i)
    (hc : w.control t = .publishing .returned) {e : Bool} {v : Value}
    (hvm : (w.thread t).vm = { stack := #[v], error := e })
    (hanswers : Answers k j w.store.heap e v)
    (hfuture : w.store.heap.object? i.future = some (.future none)) :
    ∃ th, Turn own t i w (w.step t) th ∧ Stage k j f (w.step t).store.heap i th := by
  have hcontrol : (w.thread t).control = .publishing .returned := hc
  let r := w.store.heap.size
  have hverdict : w.verdict t .returned = (w.store, { error := e }, e, v) := by
    simp [verdict, hvm, Vm.dropTop, Vm.peek?]
  have hstep : w.step t = w.publish t i .returned := by
    simp only [World.step, hcontrol, hrole]
  have hbecomes := becomes_publish (lt_size_of_role hrole) i .returned
  rw [hverdict, ← hstep] at hbecomes
  have hstore : (w.step t).store =
      (w.store.make ((w.thread t).caller t).storage (.result e v)).1.withHeap
        ((w.store.heap.alloc { object := .result e v }).1.setObject i.future
          (.future (some (.ref r)))) := by
    have htagged : (w.store.heap.alloc { object := .result e v }).1.object? i.future =
        some (.future none) := by
      rw [Heap.object?_alloc, if_neg (Heap.lt_size_of_object? hfuture).ne, hfuture]
    rw [hstep, publish_eq]
    show w.published t i .returned = _
    have hmade : (w.store.make ((w.thread t).caller t).storage (.result e v)).1.heap =
        (w.store.heap.alloc { object := .result e v }).1 := rfl
    simp only [published, tagged, hverdict, hmade, Heap.resolve, htagged]
    rfl
  have hheap : (w.step t).store.heap = (w.store.heap.alloc { object := .result e v }).1.setObject
      i.future (.future (some (.ref r))) := by
    rw [hstore]
    rfl
  have hne : i.future ≠ r := (Heap.lt_size_of_object? hfuture).ne
  have hspares : w.store.heap.Spares i.future (w.step t).store.heap := by
    intro c o ho hco
    have hcf : ¬ i.future = c := by
      rintro rfl
      exact ho rfl (Option.some.inj (hco.symm.trans hfuture))
    rw [hheap, Heap.object?_setObject, if_neg hcf, Heap.object?_alloc,
      if_neg (Heap.lt_size_of_object? hco).ne, hco]
  have hresolved : (w.step t).store.heap.object? i.future = some (.future (some (.ref r))) := by
    rw [hheap, Heap.object?_setObject, if_pos rfl, Heap.object?_alloc, if_neg hne, hfuture]
    rfl
  have hresult : (w.step t).store.heap.object? r = some (.result e v) := by
    rw [hheap, Heap.object?_setObject, if_neg hne, Heap.object?_alloc, if_pos rfl]
  have hresult' : ∀ c, c = r ∨ v = .ref c →
      Owns (w.step t).store.heap i
        { w.thread t with vm := { error := e }, control := .resuming } c :=
    fun c hc => .inr (.inr ⟨r, e, v, hresolved, hresult, hc⟩)
  refine ⟨_, ⟨hbecomes, rfl, hspares, fun c hc => ?_, fun c hc => ?_, ?_, ?_, ?_, ?_, ?_, ?_,
    ?_, fun r hr _ => ?_, ?_⟩, .reported trivial ?_ ⟨r, e, v, hresolved, hresult,
      hanswers.mono hspares⟩⟩
  · rw [hheap, Heap.mortal_setObject, Heap.mortal_alloc rfl] at hc
    rcases hc with rfl | hc
    · exact .inr (hresult' _ (.inl rfl))
    · exact .inl hc
  · rcases hc with rfl | ⟨-, hstack⟩ | ⟨r, e, v, hr, -⟩
    · exact .inl rfl
    · have hv : Value.ref c = v := by simpa [hvm] using hstack
      exact hresult' c (.inr hv.symm)
    · rw [hfuture] at hr
      cases hr
  · simp only [Thread.cells, hrole, hcontrol, hvm, hstore]
    simp [Store.make, Collector.make, Store.withHeap, Collector.withHeap, Control.reported]
    omega
  all_goals try rw [hstore]; rfl
  · rw [hstore]
    exact hr
  · simp [Thread.togo, Thread.left?, hcontrol]
  · rw [hanswers.error]

section turn

variable (hsound : w.Sound own none) (hrole : (w.thread t).role = .isolate i)

include hsound hrole

/-- A step outside of the call. -/
theorem Turn.of_onward {c : Control} (hc : w.control t = c) (hpublishing : ∀ e, c ≠ .publishing e)
    {th : Thread} (hth : w.onward t c = some th) (hsame : th.role = (w.thread t).role)
    (hvm : th.vm = (w.thread t).vm ∨ th.vm.error = false ∧ (w.thread t).vm.error = false)
    (hreported : th.control.reported = c.reported) (htogo : th.togo < (w.thread t).togo) :
    Turn own t i w (w.step t) th := by
  obtain ⟨hstill, hroots⟩ := hsound.still_onward hrole hc hth hpublishing
  have hreported' : th.control.reported = (w.thread t).control.reported :=
    hreported.trans (congrArg _ hc.symm)
  exact .of_still (becomes_onward hsound hrole hc hth) hsame hvm hreported' hstill hroots htogo

/-- An isolate begins. -/
theorem Stage.turn_early (hc : w.control t = .enrolling ∨ w.control t = .equipping)
    (hvm : (w.thread t).vm = {})
    (hfuture : w.store.heap.object? i.future = some (.future none)) :
    ∃ th, Turn own t i w (w.step t) th ∧ Stage k j f (w.step t).store.heap i th := by
  rcases hc with hc | hc
  all_goals
    have hstill := hsound.still_onward hrole hc rfl (by simp)
    have hcontrol : (w.thread t).control = _ := hc
    refine ⟨_, .of_onward hsound hrole hc (by simp) rfl rfl ?_ rfl ?_, ?_⟩
  · exact .inl rfl
  · simp [Thread.togo, Thread.left?, hcontrol]
  · exact .early (.inr (.inl rfl)) hvm ((hstill.1.object _).trans hfuture)
  · exact .inr ⟨rfl, by rw [hvm]⟩
  · simp [Thread.togo, Thread.left?, hcontrol]
  · exact .early (.inr (.inr rfl)) rfl ((hstill.1.object _).trans hfuture)

/-- An isolate whose call has ended goes on to publish. -/
theorem Stage.turn_ended {e : Bool} {v : Value}
    (hc : w.control t = .running ∨ (w.control t).ending? = some .returned)
    (hvm : (w.thread t).vm = { stack := #[v], error := e })
    (hanswers : Answers k j w.store.heap e v)
    (hfuture : w.store.heap.object? i.future = some (.future none)) :
    ∃ th, Turn own t i w (w.step t) th ∧ Stage k j f (w.step t).store.heap i th := by
  have honward : ∀ {c th}, w.control t = c → w.onward t c = some th → (∀ e, c ≠ .publishing e) →
      th.role = (w.thread t).role → th.vm = (w.thread t).vm →
      th.control.reported = c.reported → th.control.ending? = some .returned →
      th.togo < (w.thread t).togo →
      ∃ th, Turn own t i w (w.step t) th ∧ Stage k j f (w.step t).store.heap i th := by
    intro c th hc hth hpub hsame hvm' hreported hending htogo
    have hstill := (hsound.still_onward hrole hc hth hpub).1
    have hspares : w.store.heap.Spares i.future (w.step t).store.heap := fun c o _ ho =>
      (hstill.object c).trans ho
    exact ⟨th, .of_onward hsound hrole hc hpub hth hsame (.inl hvm') hreported htogo,
      .ended (.inr hending) (hvm'.trans hvm) (hanswers.mono hspares)
        ((hstill.object _).trans hfuture)⟩
  have hcontrol : (w.thread t).control = w.control t := rfl
  rcases hc with hc | hc
  · rw [hc] at hcontrol
    have hframes : (w.thread t).vm.frames.isEmpty = true := by rw [hvm]; rfl
    have hth : w.onward t .running = some { w.thread t with control := .pausing .returned } := by
      rw [onward, hframes, if_pos rfl]
    exact honward hc hth (by simp) rfl rfl rfl rfl
      (by simp [Thread.togo, Thread.left?, hcontrol, hframes])
  · cases hcases : w.control t <;> rw [hcases] at hc hcontrol <;>
      simp only [Control.ending?, Option.some.injEq, reduceCtorEq] at hc
    case pausing e' =>
      subst hc
      refine honward hcases rfl (by simp) rfl rfl ?_ ?_ ?_
      all_goals cases w.collecting <;> simp [Control.reported, Control.ending?, Thread.togo,
        Thread.left?, hcontrol]
    case lingering k =>
      cases k with
      | pause ending =>
        cases ending with
        | none => cases hc
        | some e' =>
          cases hc
          exact honward hcases rfl (by simp) rfl rfl rfl rfl
            (by simp [Thread.togo, Thread.left?, hcontrol])
      | _ => cases hc
    case publishing e' =>
      subst hc
      exact turn_publishing hrole hcases hvm hanswers hfuture

/-- An isolate that has published leaves. -/
theorem Stage.turn_reported (hready : w.ready t = true)
    (hc : (w.thread t).control.Closing (w.thread t))
    (hvm : (w.thread t).vm = { error := fails k j })
    (hreported : Reported k j w.store.heap i.future) :
    ∃ th, Turn own t i w (w.step t) th ∧ Stage k j f (w.step t).store.heap i th := by
  have honward : ∀ {c th}, w.control t = c → w.onward t c = some th → (∀ e, c ≠ .publishing e) →
      th.role = (w.thread t).role → th.vm = (w.thread t).vm →
      th.control.reported = c.reported → th.control.Closing th →
      th.togo < (w.thread t).togo →
      ∃ th, Turn own t i w (w.step t) th ∧ Stage k j f (w.step t).store.heap i th := by
    intro c th hc hth hpub hsame hvm' hrep hclosing htogo
    have hstill := (hsound.still_onward hrole hc hth hpub).1
    have hspares : w.store.heap.Spares i.future (w.step t).store.heap := fun c o _ ho =>
      (hstill.object c).trans ho
    exact ⟨th, .of_onward hsound hrole hc hpub hth hsame (.inl hvm') hrep htogo,
      .reported hclosing (hvm'.trans hvm) (hreported.mono hspares)⟩
  have hcontrol : (w.thread t).control = w.control t := rfl
  cases hcases : w.control t <;> rw [hcontrol, hcases] at hc <;> rw [hcases] at hcontrol <;>
    simp only [Control.Closing] at hc
  case resuming | releasing =>
    exact honward hcases rfl (by simp) rfl rfl rfl trivial
      (by simp [Thread.togo, Thread.left?, hcontrol])
  case retiring =>
    refine honward hcases rfl (by simp) ?_ ?_ ?_ ?_ ?_
    all_goals cases w.collecting <;> simp [Control.reported, Control.Closing, Thread.togo,
      Thread.left?, hcontrol]
  case lingering k =>
    cases k with
    | retire =>
      exact honward hcases rfl (by simp) rfl rfl rfl rfl
        (by simp [Thread.togo, Thread.left?, hcontrol])
    | _ => cases hc
  case unrooting =>
    exact honward hcases rfl (by simp) rfl rfl rfl ⟨hc, rfl⟩
      (by simp [Thread.togo, Thread.left?, hcontrol])
  case gone =>
    rw [ready, hcases] at hready
    cases hready

/-- **A step of an isolate** takes it further, whatever all others have done, and a collection of
its own frees nothing as long as the roots reach everything. -/
theorem Stage.turn (hf : w.store.heap.object? f = some (.function (code k j)))
    (hfunction : i.function = .ref f) (hargs : i.args = #[.int (Int64.ofNat j)])
    (hj : 2 * j < 2 ^ 63) (hready : w.ready t = true)
    (hrooted : ∀ k, w.control t = .sweeping k → ∀ c, w.store.heap.Mortal c → w.Rooted c)
    (hs : Stage k j f w.store.heap i (w.thread t)) :
    ∃ th, Turn own t i w (w.step t) th ∧ Stage k j f (w.step t).store.heap i th := by
  cases hs with
  | early hc hvm hfuture =>
    rcases hc with hc | hc | hc
    · exact turn_early hsound hrole (.inl hc) hvm hfuture
    · exact turn_early hsound hrole (.inr hc) hvm hfuture
    · exact turn_entering hrole hf hfunction hargs hc hvm hfuture
  | @calling n hn hthree hc hvm hfuture =>
    have hframes : (w.thread t).vm.frames ≠ [] := by rw [hvm]; exact List.cons_ne_nil _ _
    cases hsilent : w.silent t with
    | true =>
      obtain ⟨c, hbecomes, hinterprets, hdistance, hstill, hroots⟩ :=
        hsound.still_silent (lt_size_of_role hrole) hc hsilent hrooted
      refine ⟨_, .of_still hbecomes rfl (.inl rfl) ?_ hstill (fun r hr _ => hroots ▸ hr) ?_,
        .calling hn hthree hinterprets hvm ((hstill.object _).trans hfuture)⟩
      · exact (reported_of_interprets hinterprets).trans (reported_of_interprets hc).symm
      · have htogo : { w.thread t with control := c }.togo = 10 + 5 * (4 - n) + c.distance :=
          togo_calling hinterprets hvm
        rw [htogo, togo_calling hc hvm]
        exact Nat.add_lt_add_left hdistance _
    | false =>
      obtain ⟨-, hstep, -⟩ := InStep.executes_of_interprets hframes hc hsilent
      rw [hstep]
      exact turn_execute hrole hf hj hn hthree hc hvm hfuture
  | ended hc hvm hanswers hfuture => exact turn_ended hsound hrole hc hvm hanswers hfuture
  | reported hc hvm hreported => exact turn_reported hsound hrole hready hc hvm hreported

end turn

end Demo

end ScriptCore
