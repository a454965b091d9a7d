import ScriptCore.Proofs.Rendezvous.StopTheWorld
import ScriptCore.Proofs.World.Keeping
import ScriptCore.Proofs.World.Twins

/-!
# Collections are transparent

A program runs on one thread, twice, with different settings of the collector. Collections come at
different safepoints and free different cells, but the program does not notice: it executes the same
instructions, and wherever one of the runs comes to rest so does the other, with the same machine,
the same global names and the same reachable objects.

* `Act.Solo`: what happens on a machine with one thread, whose code takes no operand below its own
  arguments and calls no function that asks for collections;
* `visible`, `script`, `executed`: what happens apart from collections and time, the part of it that
  the host does, and the instructions;
* `Onward.inStep`: runs in which the same happens are in step;
* `Onward.comparable`: the same happens in runs of the same script, as far as both of them go;
* `Onward.completes`: a run whose twin has come to rest can come to rest;
* `collections_are_transparent`.
-/

namespace ScriptCore

/-! ### One thread -/

/-- No thread but the first, which is one of the host. -/
structure World.Alone (w : World) : Prop where
  size : w.threads.size ≤ 1
  host : (w.thread 0).role = .host

/-- What the only thread can be told to do. -/
def Task.Secluded (w : World) : Task → Prop
  | .enroll | .equip | .run => True
  | .call function args => ∀ v f, (w.thread 0).vm.called? function args = some v →
      w.store.heap.deref? v = some (.native f) → f.oblivious = true
  | _ => False

/-- Nobody but the first thread acts. It calls no function that asks for collections, and the host
does nothing while it is at work. -/
def Act.Secluded (w : World) : Act → Prop
  | .step t => t = 0 ∧ (w.executes 0 = true → ∀ v f,
      (w.thread 0).vm.callee? w.store.heap = some v →
      w.store.heap.deref? v = some (.native f) → f.oblivious = true)
  | .elapse _ => True
  | .spawn => w.threads.size = 0
  | .assign t task => t = 0 ∧ task.Secluded w
  | .make t _ | .push t _ | .pop t => t = 0 ∧ w.atRest 0 = true
  | .makeImmortal _ | .pushItem _ _ | .resolve _ _ | .setAttr _ _ _ | .root _ | .pin _ _
  | .unroot _ | .setGlobal _ _ | .library _ | .supply _ => w.atRest 0 = true
  | .helper _ | .wait _ _ _ | .dismiss _ | .setLimit _ | .resume => False

/-- What happens on a machine with one thread, whose instructions find their operands above the
arguments of their frame. -/
structure Act.Solo (c : Chronicle) (a : Act) : Prop where
  proper : a.Proper c
  alone : c.world.Alone
  within : a.Within 0 c.world
  secluded : a.Secluded c.world

/-! ### What can be seen of a run -/

/-- Time passes, or the step of a thread has to do with a collection. -/
def Act.silent (h : Hosted) : Act → Bool
  | .elapse _ => true
  | .step t => h.world.silent t
  | _ => false

/-- What happens apart from collections and time, newest first. -/
def visible : List (Hosted × Act) → List Act
  | [] => []
  | (h, a) :: past => if a.silent h then visible past else a :: visible past

theorem visible_silent {h : Hosted} {a : Act} (hsilent : a.silent h = true)
    (past : List (Hosted × Act)) : visible ((h, a) :: past) = visible past :=
  if_pos hsilent

theorem visible_seen {h : Hosted} {a : Act} (hsilent : a.silent h = false)
    (past : List (Hosted × Act)) : visible ((h, a) :: past) = a :: visible past :=
  if_neg (by simp [hsilent])

/-- The host does something. -/
def Act.byHost : Act → Bool
  | .step _ | .elapse _ => false
  | _ => true

/-- What the host does, newest first. -/
def script (past : List (Hosted × Act)) : List Act := (past.map Prod.snd).filter Act.byHost

theorem visible_append (later past : List (Hosted × Act)) :
    visible (later ++ past) = visible later ++ visible past := by
  induction later with
  | nil => rfl
  | cons p later ih =>
    obtain ⟨hosted, a⟩ := p
    cases hsilent : a.silent hosted with
    | true => rw [List.cons_append, visible_silent hsilent, visible_silent hsilent, ih]
    | false =>
      rw [List.cons_append, visible_seen hsilent, visible_seen hsilent, ih, List.cons_append]

theorem script_append (later past : List (Hosted × Act)) :
    script (later ++ past) = script later ++ script past := by
  rw [script, List.map_append, List.filter_append, script, script]

theorem script_suffix {q past : List (Hosted × Act)} (h : q <:+ past) : script q <:+ script past :=
  (h.map _).filter _

theorem script_host {a : Act} (hhost : a.byHost = true) (h : Hosted) (past : List (Hosted × Act)) :
    script ((h, a) :: past) = a :: script past :=
  List.filter_cons_of_pos hhost

/-- What the host does can be seen. -/
theorem script_eq (past : List (Hosted × Act)) :
    script past = (visible past).filter Act.byHost := by
  induction past with
  | nil => rfl
  | cons p past ih =>
    obtain ⟨h, a⟩ := p
    cases hsilent : a.silent h with
    | true =>
      have hhost : a.byHost = false := by
        cases a with
        | step | elapse => rfl
        | _ => cases hsilent
      rw [visible_silent hsilent, ← ih]
      exact List.filter_cons_of_neg (by simp [hhost])
    | false =>
      rw [visible_seen hsilent, List.filter_cons, ← ih]
      exact List.filter_cons

/-- What ends a list and is not all of it has something before it. -/
theorem exists_cons_suffix {α : Type} {l l' : List α} (h : l <:+ l') :
    l = l' ∨ ∃ a, a :: l <:+ l' := by
  obtain ⟨m, rfl⟩ := h
  rcases List.eq_nil_or_concat m with rfl | ⟨m, a, rfl⟩
  · exact .inl rfl
  · exact .inr ⟨a, m, by simp⟩

/-- The next instruction of a machine. -/
def Vm.instr? (vm : Vm) (h : Heap) : Option Instr :=
  match vm.frames with
  | [] => none
  | frame :: _ =>
      match h.object? frame.code with
      | some (.function code) => code.instrs[frame.ip]?
      | _ => none

/-- The instruction that an act executes, with the machine that it meets. -/
def Act.executes? (h : Hosted) : Act → Option (Vm × Option Instr)
  | .step t =>
      let vm := (h.world.thread t).vm
      if h.world.executes t && !vm.frames.isEmpty then some (vm, vm.instr? h.world.store.heap)
      else none
  | _ => none

/-- The instructions that have been executed, newest first, each with the machine that it met. -/
def executed (past : List (Hosted × Act)) : List (Vm × Option Instr) :=
  past.filterMap fun p => p.2.executes? p.1

/-- Worlds whose first threads have the same machine and have come to the same end, with the same
global names and the same reachable objects, which look the same. -/
structure World.Indistinct (w w' : World) : Prop where
  control : w.control 0 = w'.control 0
  stack : (w.thread 0).vm.stack = (w'.thread 0).vm.stack
  error : (w.thread 0).vm.error = (w'.thread 0).vm.error
  frames : (w.thread 0).vm.frames = (w'.thread 0).vm.frames
  globals : w.store.globals = w'.store.globals
  rooted : ∀ d, w.Rooted d ↔ w'.Rooted d
  objects : ∀ d, w.Rooted d → w.store.heap.object? d = w'.store.heap.object? d ∧
    w.store.heap.text? (.ref d) = w'.store.heap.text? (.ref d)

/-! ### What the same host does to both -/

namespace World.InStep

variable {w w' : World} {t : ThreadId} {own own' : Ledger}

/-- Both threads rest in the same way. -/
theorem rests (h : InStep t w w') (hrest : w.atRest t = true) :
    w.control t = w'.control t ∧ (w.control t = .idle ∨ ∃ o, w.control t = .finished o) := by
  have hcontrol := h.control
  unfold atRest at hrest
  generalize w.control t = c, w'.control t = c' at hcontrol hrest ⊢
  cases hcontrol with
  | idle => exact ⟨rfl, .inl rfl⟩
  | finished o => exact ⟨rfl, .inr ⟨o, rfl⟩⟩
  | interpreting _ hc _ =>
    cases c with
    | idle | finished | gone => cases hc
    | _ => cases hrest
  | _ => cases hrest

theorem atRest_eq (h : InStep t w w') : w.atRest t = w'.atRest t := by
  by_cases hrest : w.atRest t = true
  · rw [hrest, atRest, ← (h.rests hrest).1]
    exact hrest.symm
  · by_cases hrest' : w'.atRest t = true
    · rw [hrest', atRest, ← (h.symm.rests hrest').1]
      exact hrest'
    · rw [Bool.not_eq_true] at hrest hrest'
      rw [hrest, hrest']

/-- The threads rest, whatever else has changed. -/
theorem of_rest (h : InStep t w w') (hrest : w.atRest t = true) {w₁ w₁' : World}
    (htwins : w₁.Twins w₁') (hc : w₁.control t = w.control t) (hc' : w₁'.control t = w'.control t) :
    InStep t w₁ w₁' := by
  refine ⟨htwins, ?_⟩
  obtain ⟨hsame, hcontrol⟩ := h.rests hrest
  rw [hc, hc', ← hsame]
  rcases hcontrol with hcontrol | ⟨o, hcontrol⟩ <;> rw [hcontrol]
  · exact .idle
  · exact .finished o

/-- Time passes in one of them. -/
theorem elapse (h : InStep t w w') (now : Nat) : InStep t (w.beginRound now) w' := by
  have hthread := thread_beginRound w now
  refine ⟨⟨?_, ?_, fun u => ?_⟩, ?_⟩
  · exact h.twins.store.left rfl rfl rfl rfl rfl rfl rfl
  · exact (Array.size_map ..).trans h.twins.size
  · rw [hthread]
    exact { h.twins.thread u with }
  · rw [World.control, hthread]
    exact h.control

/-- A value that is resolved by the host. -/
theorem resolve (h : w.Twins w') {f : CellId} (hf : w.store.heap.Live f)
    (hf' : w'.store.heap.Live f) (v : Value) :
    (∃ heap heap', w.store.heap.resolve f v = .ok heap ∧ w'.store.heap.resolve f v = .ok heap' ∧
      heap.Twins heap') ∨
    ∃ e, w.store.heap.resolve f v = .error e ∧ w'.store.heap.resolve f v = .error e := by
  have hobject := h.store.heap.object?_eq hf hf'
  unfold Heap.resolve
  rw [← hobject]
  split
  · exact .inl ⟨_, _, rfl, rfl, h.store.heap.setObject _ _⟩
  · exact .inr ⟨_, rfl, rfl⟩
  · exact .inl ⟨_, _, rfl, rfl, h.store.heap⟩

end World.InStep

namespace Act.Solo

variable {c c' : Chronicle} {a : Act} {own own' : Ledger}

/-- The host does nothing while its thread is at work. -/
theorem atRest (ha : a.Solo c) (hhost : a.byHost = true) : c.world.atRest 0 = true := by
  have hsecluded := ha.secluded
  cases a with
  | step | elapse => cases hhost
  | spawn =>
    have hnone : c.world.thread 0 = {} := World.thread_of_size_le hsecluded.le
    rw [World.atRest, World.control, hnone]
  | assign t task =>
    obtain ⟨rfl, -⟩ := hsecluded
    exact ha.proper.1.1.rests
  | make t o | push t v | pop t => exact hsecluded.2
  | helper | wait | dismiss | setLimit | resume => exact hsecluded.elim
  | _ => exact hsecluded

/-- What the host does on both sides keeps the worlds in step. -/
theorem inStep (ha : a.Solo c) (ha' : a.Solo c') (hhost : a.byHost = true)
    (h : c.world.InStep 0 c'.world) (hsound : c.world.Sound own none)
    (hsound' : c'.world.Sound own' none) :
    (a.record c).world.InStep 0 (a.record c').world := by
  have hrest := ha.atRest hhost
  have htwins := h.twins
  have hgiven := ha.proper.2
  have hgiven' := ha'.proper.2
  have hstore : ∀ {s s' : Store}, s.Twins s' →
      (c.toHosted.withStore s).world.InStep 0 (c'.toHosted.withStore s').world := fun hs =>
    h.of_rest hrest (htwins.withStore hs) rfl rfl
  have hagree : ∀ {v}, c.world.store.heap.Holds v → c'.world.store.heap.Holds v →
      c.world.store.heap.Agree c'.world.store.heap v :=
    htwins.store.heap.agree hsound.closed hsound'.closed
  have hcontrol : ∀ (w : World) (vm : Vm), (w.setVm 0 vm).control 0 = w.control 0 := by
    intro w vm
    rcases World.thread_setVm (w := w) (t := 0) vm 0 with hsame | hsame <;>
      rw [World.control, hsame, World.control]
  show (a.apply c.toHosted).world.InStep 0 (a.apply c'.toHosted).world
  cases a with
  | step | elapse => cases hhost
  | helper | wait | dismiss | setLimit | resume => exact ha.secluded.elim
  | spawn =>
    have hsize : c.world.threads.size = 0 := ha.secluded
    have hsize' : c'.world.threads.size = 0 := ha'.secluded
    have hadd : ∀ {w : World} (u : ThreadId), w.threads.size = 0 →
        w.addHost.1.thread u = {} := fun {w} u hw => by
      rw [World.addHost, World.thread_add]
      split
      · rfl
      · exact World.thread_of_size_le (hw ▸ Nat.zero_le u)
    refine ⟨⟨htwins.store, ?_, fun u => ?_⟩, ?_⟩
    · have hsizes := congrArg (· + 1) htwins.size
      exact (Array.size_push _).trans (hsizes.trans (Array.size_push _).symm)
    · show (c.world.addHost.1.thread u).Twins (c'.world.addHost.1.thread u)
      rw [hadd u hsize, hadd u hsize']
      exact ⟨rfl, rfl, rfl, rfl, rfl⟩
    · show Control.Twins _ _ (c.world.addHost.1.thread 0).control
        (c'.world.addHost.1.thread 0).control
      rw [hadd 0 hsize, hadd 0 hsize']
      exact .idle
  | assign t task =>
    obtain ⟨rfl, htask⟩ := ha.secluded
    have hours : c.world.Ours 0 := ⟨ha.proper.1.1.known, ha.alone.host⟩
    cases task with
    | enroll =>
      simp only [apply, World.assign, ← (htwins.thread 0).storage]
      split
      · exact htwins.inStep hours.known (.finished _)
      · exact htwins.inStep hours.known .enrolling
    | equip => exact htwins.inStep hours.known .equipping
    | run => exact htwins.inStep hours.known .running
    | call function args =>
      refine htwins.enter hours hsound hsound' hgiven.2.1 ?_ htask
      rintro v (rfl | hv)
      · exact ⟨hgiven.2.2.1, hgiven'.2.2.1⟩
      · exact ⟨hgiven.2.2.2 v hv, hgiven'.2.2.2 v hv⟩
    | _ => exact htask.elim
  | make t o => exact hstore (htwins.store.make _ _ o)
  | makeImmortal o => exact hstore (htwins.store.makeImmortal o)
  | pushItem d v => exact hstore (htwins.store.pushItem d v)
  | resolve f v =>
    simp only [apply]
    rcases World.InStep.resolve htwins hgiven.1 hgiven'.1 v with
      ⟨heap, heap', hr, hr', hheap⟩ | ⟨e, hr, hr'⟩ <;> rw [hr, hr']
    · exact hstore (htwins.store.withHeap hheap)
    · exact h
  | setAttr receiver name v =>
    simp only [apply, ← (hagree hgiven.1 hgiven'.1).attributeChange]
    split
    · exact hstore (htwins.store.setObject _ _)
    · exact h
  | root vs => exact hstore (htwins.store.addRoot (.pinned vs))
  | pin id v =>
    simp only [apply, Collector.pin, ← htwins.store.pinned]
    exact hstore (htwins.store.setPinned id _)
  | unroot id =>
    exact h.of_rest hrest (htwins.dropRoot id) (congrArg Thread.control (World.thread_dropRoot id))
      (congrArg Thread.control (World.thread_dropRoot id))
  | setGlobal name v => exact hstore (htwins.store.setGlobal name v)
  | supply shortage => exact hstore { htwins.store with }
  | library l =>
    simp only [apply]
    rcases htwins.store.addLibrary l with ⟨s, s', hs, hs', hlibrary⟩ | ⟨e, e', hs, hs'⟩ <;>
      rw [hs, hs']
    · exact hstore hlibrary
    · exact h
  | push t v =>
    obtain ⟨rfl, -⟩ := ha.secluded
    simp only [apply, ← (htwins.thread 0).vm]
    exact h.of_rest hrest (htwins.setVm 0 _) (hcontrol _ _) (hcontrol _ _)
  | pop t =>
    obtain ⟨rfl, -⟩ := ha.secluded
    simp only [apply, ← (htwins.thread 0).vm]
    exact h.of_rest hrest (htwins.setVm 0 _) (hcontrol _ _) (hcontrol _ _)

end Act.Solo

/-! ### One more act -/

namespace World

variable {w w' : World} {t : ThreadId} {own own' : Ledger} {away away' : Option ThreadId}

/-- The code of a frame has its seat on the stack, so it is the same in both worlds. -/
theorem Twins.object?_code (h : w.Twins w') (hsound : w.Sound own away)
    (hsound' : w'.Sound own' away') (hroot : (w.thread t).root.isSome)
    (hseated : (w.thread t).vm.Seated) {frame : Frame} (hframe : frame ∈ (w.thread t).vm.frames) :
    w.store.heap.object? frame.code = w'.store.heap.object? frame.code := by
  have hmem := Array.mem_of_getElem? (hseated.seat frame hframe).2
  exact ((h.shares_stack hsound hsound' hroot).agree h (Array.mem_toList_iff.2 hmem)).object?

/-- The next instruction is the same in both worlds: it takes as many operands and calls the
same. -/
theorem Twins.next (h : w.Twins w') (hsound : w.Sound own away) (hsound' : w'.Sound own' away')
    (hroot : (w.thread t).root.isSome) (hseated : (w.thread t).vm.Seated) :
    (w.thread t).vm.instr? w.store.heap = (w.thread t).vm.instr? w'.store.heap ∧
    (w.thread t).vm.demand w.store.heap = (w.thread t).vm.demand w'.store.heap ∧
    (w.thread t).vm.callee? w.store.heap = (w.thread t).vm.callee? w'.store.heap := by
  unfold Vm.instr? Vm.demand Vm.callee?
  cases hframes : (w.thread t).vm.frames with
  | nil => exact ⟨rfl, rfl, rfl⟩
  | cons frame rest =>
    have hobject := h.object?_code hsound hsound' hroot hseated
      (hframes ▸ List.mem_cons_self : frame ∈ (w.thread t).vm.frames)
    simp only [← hobject]
    refine ⟨trivial, ?_, trivial⟩
    split
    · rename_i code ho
      have hname : ∀ i, Vm.nameConstant w.store.heap code i =
          Vm.nameConstant w'.store.heap code i := by
        intro i
        unfold Vm.nameConstant Vm.constant
        cases hv : code.constants[i.toNat]? with
        | none => rfl
        | some v =>
          have hedge : v ∈ (Object.function code).edges := by
            simpa [Object.edges] using Array.mem_of_getElem? hv
          have hagree := h.store.heap.agree hsound.closed hsound'.closed
            (hsound.closed _ _ ho v hedge) (hsound'.closed _ _ (hobject ▸ ho) v hedge)
          simp only [hagree.str?]
      have htakes : ∀ instr : Instr, instr.takes w.store.heap code =
          instr.takes w'.store.heap code := by
        intro instr
        cases instr <;> simp only [Instr.takes, hname]
      simp only [htakes]
    · rfl

theorem InStep.interprets_eq (h : InStep t w w') :
    (w.control t).interprets = (w'.control t).interprets := by
  have hcontrol := h.control
  generalize w.control t = c, w'.control t = c' at hcontrol ⊢
  cases hcontrol with
  | interpreting _ hc hc' => rw [hc, hc']
  | _ => rfl

/-- A step that has nothing to do with a collection executes an instruction if one comes next. -/
theorem executes_eq_interprets (hframes : (w.thread t).vm.frames ≠ [])
    (hsilent : w.silent t = false) : w.executes t = (w.control t).interprets := by
  cases hc : (w.control t).interprets with
  | true => exact (InStep.executes_of_interprets hframes hc hsilent).1
  | false =>
    unfold executes
    generalize w.control t = c at hc ⊢
    cases c with
    | running | stepping => cases hc
    | _ => rfl

/-- A step that has to do with a collection executes nothing. -/
theorem executes_of_silent (hsilent : w.silent t = true) : w.executes t = false := by
  unfold silent at hsilent
  unfold executes
  generalize w.control t = c at hsilent ⊢
  cases c with
  | running => simp_all
  | stepping => cases hsilent
  | _ => rfl

theorem root_of_executes (hsound : w.Sound own none) (hexecutes : w.executes t = true) :
    (w.thread t).root.isSome := by
  have hstands := hsound.stands t nofun
  unfold executes control at hexecutes
  generalize (w.thread t).control = c at hstands hexecutes
  cases c with
  | running | stepping => exact hstands.2
  | _ => cases hexecutes

end World

namespace Act.Solo

variable {c c' : Chronicle} {a : Act} {own own' : Ledger}

theorem known {t : ThreadId} (ha : (Act.step t).Solo c) : t < c.world.threads.size :=
  Act.lt_size_of_actor ha.proper.1 rfl

/-- What can be seen and is not the host's doing is a step of the thread. -/
theorem eq_step (ha : a.Solo c) (hsilent : a.silent c.toHosted = false) (hhost : a.byHost = false) :
    a = .step 0 := by
  cases a with
  | elapse => cases hsilent
  | step t => rw [ha.secluded.1]
  | _ => cases hhost

/-- While the thread rests nobody but the host does anything that can be seen. -/
theorem byHost_of_atRest (ha : a.Solo c) (hsilent : a.silent c.toHosted = false)
    (hrest : c.world.atRest 0 = true) : a.byHost = true := by
  by_contra hhost
  obtain rfl := ha.eq_step hsilent (by simpa using hhost)
  have hready : c.world.ready 0 = true := ha.proper.1
  unfold World.ready at hready
  unfold World.atRest at hrest
  generalize c.world.control 0 = control at hready hrest
  cases control with
  | idle | finished | gone => cases hready
  | _ => cases hrest

/-- A step that has to do with a collection, or time that passes. -/
theorem inStep_silent (ha : a.Solo c) (hsilent : a.silent c.toHosted = true)
    (h : c.world.InStep 0 c'.world) (hsound : c.world.Sound own none) :
    (a.record c).world.InStep 0 c'.world ∧ a.executes? c.toHosted = none := by
  cases a with
  | elapse now => exact ⟨h.elapse now, rfl⟩
  | step t =>
    obtain ⟨rfl, -⟩ := ha.secluded
    refine ⟨(h.silent ha.known hsound.tidy hsilent).1, ?_⟩
    simp [executes?, World.executes_of_silent hsilent]
  | _ => cases hsilent

/-- Anything else, if it happens in both worlds. -/
theorem inStep_visible (ha : a.Solo c) (ha' : a.Solo c') (hsilent : a.silent c.toHosted = false)
    (hsilent' : a.silent c'.toHosted = false) (h : c.world.InStep 0 c'.world)
    (hsound : c.world.Sound own none) (hsound' : c'.world.Sound own' none)
    (hseated : (c.world.thread 0).vm.Seated) :
    (a.record c).world.InStep 0 (a.record c').world ∧
      a.executes? c.toHosted = a.executes? c'.toHosted := by
  cases hhost : a.byHost with
  | true =>
    refine ⟨ha.inStep ha' hhost h hsound hsound', ?_⟩
    cases a with
    | step => cases hhost
    | _ => rfl
  | false =>
    cases a with
    | elapse now => cases hsilent
    | step t =>
      obtain ⟨rfl, hcallee⟩ := ha.secluded
      refine ⟨h.step ⟨ha.known, ha.alone.host⟩ hsound hsound' hseated ha.proper.1 hsilent hsilent'
        hcallee, ?_⟩
      have hvm := (h.twins.thread 0).vm
      simp only [executes?, ← hvm]
      by_cases hframes : (c.world.thread 0).vm.frames = []
      · simp [hframes]
      · have hexecutes := World.executes_eq_interprets hframes hsilent
        have hexecutes' := World.executes_eq_interprets (hvm ▸ hframes) hsilent'
        rw [hexecutes, hexecutes', ← h.interprets_eq, ← hexecutes]
        split
        · rename_i hboth
          have hroot := World.root_of_executes hsound (Bool.and_eq_true_iff.1 hboth).1
          rw [(h.twins.next hsound hsound' hroot hseated).1]
        · rfl
    | _ => cases hhost

end Act.Solo

/-! ### A thread that is alone need not wait for a collection -/

namespace World

variable {w w' : World} {n n' : Nat} {own own' : Ledger}

/-- Nobody but the thread itself collects. -/
theorem Alone.not_collecting (h : w.Alone) (hbalanced : w.Balanced n)
    (hc : (w.control 0).coordinates = false) : w.collecting = false := by
  by_contra hcollecting
  have hcount := hbalanced.coordinators
  rw [show w.sync.collecting = true from Bool.eq_true_of_not_eq_false hcollecting] at hcount
  obtain ⟨t, ht⟩ := Finset.card_pos.1 (hcount.symm ▸ Nat.one_pos : 0 < w.count Thread.coordinates)
  obtain ⟨hsize, hcoordinates⟩ := Finset.mem_filter.1 ht
  obtain rfl : t = 0 := Nat.lt_one_iff.1 ((Finset.mem_range.1 hsize).trans_le h.size)
  have hcontrol : (w.control 0).coordinates = true := hcoordinates
  rw [hc] at hcontrol
  cases hcontrol

/-- Nobody has to come to its collection. -/
theorem Alone.gathered (h : w.Alone) (hbalanced : w.Balanced n) {k : After}
    (hc : w.control 0 = .gathering k) : w.store.collector.sync.gathered = true := by
  have hthread : (w.thread 0).control = .gathering k := hc
  have hsize : 0 < w.threads.size := lt_size_of_control (by simp [hc])
  have hregistered : (w.thread 0).storage.isSome = true := by
    have horder := hbalanced.inOrder 0
    rw [Thread.InOrder, hthread] at horder
    exact horder.1
  have hparked : (w.thread 0).parked = true := by
    simp [Thread.parked, hregistered, hthread, Control.parked]
  have hmutators : w.sync.mutators ≤ 1 := by
    rw [hbalanced.mutators]
    exact (Finset.card_filter_le _ _).trans ((Finset.card_range _).trans_le h.size)
  have hone : 1 ≤ w.sync.parked := by
    rw [hbalanced.parked]
    exact one_le_count hsize hparked
  exact decide_eq_true (hmutators.trans hone)

/-- A step that has to do with a collection waits for nobody. -/
theorem Alone.ready_of_silent (h : w.Alone) (hbalanced : w.Balanced n)
    (hsilent : w.silent 0 = true) : w.ready 0 = true := by
  unfold ready
  cases hc : w.control 0 with
  | running | rendezvous | sweeping => rfl
  | lingering k => simp [h.not_collecting hbalanced (by rw [hc]; rfl)]
  | gathering k => exact h.gathered hbalanced hc
  | _ => simp [silent, hc] at hsilent

/-- In time the thread is ready in both worlds. -/
theorem InStep.exists_ready (h : InStep 0 w w') (hsound : w.Sound own none)
    (hsound' : w'.Sound own' none) (halone : w'.Alone) (hbalanced : w'.Balanced n)
    (hready : w.ready 0 = true) (hsilent : w'.silent 0 = false) :
    ∃ now, (w'.beginRound now).ready 0 = true := by
  have hstands := hsound.stands 0 nofun
  have hcollecting := halone.not_collecting hbalanced
  have hlock : ∀ l, w'.store.lock l = w.store.lock l := fun l => (h.twins.store.lock l).symm
  have hsame : ∀ now, (w'.beginRound now).control 0 = w'.control 0 := fun now => by
    rw [World.control, thread_beginRound, World.control]
  have hcontrol := h.control
  simp only [ready, hsame] at hready ⊢
  generalize hc : w.control 0 = c, hc' : w'.control 0 = c' at hcontrol hready hcollecting
  rw [show (w.thread 0).control = c from hc] at hstands
  cases hcontrol with
  | idle | finished => cases hready
  | equipping | running => exact ⟨0, rfl⟩
  | enrolling =>
    exact ⟨0, by simpa [collecting, beginRound] using hcollecting rfl⟩
  | interpreting hframes hi hi' =>
    obtain ⟨-, -, hrunning | hstepping⟩ := executes_of_interprets
      ((h.twins.thread 0).vm ▸ hframes) (hc' ▸ hi') hsilent
    · obtain rfl := hc'.symm.trans hrunning
      exact ⟨0, rfl⟩
    · obtain rfl := hc'.symm.trans hstepping
      exact ⟨0, rfl⟩
  | sleeping d d' => exact ⟨d', by simp [passable, beginRound]⟩
  | awaiting f callee outermost =>
    obtain ⟨hfits, hb⟩ := hstands
    have hresolved := (shares_boundAt h.twins hsound hsound' hfits.2 hb).resolved?
    refine ⟨0, ?_⟩
    show (w'.store.heap.resolved? f).isSome = true
    rwa [← hresolved]
  | locking l phase =>
    refine ⟨0, ?_⟩
    show (w'.store.lock l).canAdvance phase = true
    rwa [hlock]
  | joining d d' => exact ⟨d', by simp [passable, beginRound]⟩
  | leaving | passing =>
    exact ⟨0, by simpa [collecting, beginRound] using Or.inl (hcollecting rfl)⟩

end World

theorem World.Twins.alone {w w' : World} (h : w.Twins w') (halone : w.Alone) : w'.Alone :=
  ⟨h.size ▸ halone.size, (h.thread 0).role ▸ halone.host⟩

/-- What a machine calls lies on its stack. -/
theorem Vm.mem_of_callee? {vm : Vm} {h : Heap} {v : Value} (hv : vm.callee? h = some v) :
    v ∈ vm.stack := by
  unfold callee? at hv
  split at hv
  · cases hv
  · split at hv
    · split at hv
      · exact Array.mem_of_getElem? hv
      · cases hv
    · cases hv

namespace Act.Solo

variable {c c' : Chronicle} {n : Nat} {own own' : Ledger}

/-- A step that has to do with a collection can be made. -/
theorem of_silent (halone : c.world.Alone) (hbalanced : c.world.Balanced n)
    (hsilent : c.world.silent 0 = true) : (Act.step 0).Solo c := by
  have hexecutes := World.executes_of_silent hsilent
  have htakes : (c.world.control 0).takes = false := by
    unfold World.silent at hsilent
    generalize c.world.control 0 = control at hsilent
    cases control with
    | running | rendezvous | lingering | gathering | sweeping => rfl
    | _ => cases hsilent
  refine ⟨Act.proper_step (halone.ready_of_silent hbalanced hsilent) htakes, halone, ?_, rfl, ?_⟩
  · intro _ h
    rw [hexecutes] at h
    cases h
  · intro h
    rw [hexecutes] at h
    cases h

/-- A step that can be made in one world can be made in the other when it is ready there. -/
theorem of_inStep (ha : (Act.step 0).Solo c) (hsilent : c.world.silent 0 = false)
    (h : c.world.InStep 0 c'.world) (hsound : c.world.Sound own none)
    (hsound' : c'.world.Sound own' none) (hseated : (c.world.thread 0).vm.Seated)
    (hready : c'.world.ready 0 = true) (hsilent' : c'.world.silent 0 = false) :
    (Act.step 0).Solo c' := by
  have hvm := (h.twins.thread 0).vm
  have htakes : (c'.world.control 0).takes = false := by
    have hcontrol := h.control
    generalize c.world.control 0 = control, c'.world.control 0 = control' at hcontrol
    cases hcontrol with
    | interpreting _ _ hi =>
      cases control' with
      | waiting | leaving | resolving => cases hi
      | _ => rfl
    | _ => rfl
  -- a machine without frames has no operands to find and nothing to call
  by_cases hframes : (c.world.thread 0).vm.frames = []
  · refine ⟨Act.proper_step hready htakes, h.twins.alone ha.alone, fun _ _ => ?_, rfl,
      fun _ v f hv => ?_⟩
    · simp [← hvm, Vm.innermost, Vm.demand, hframes]
    · simp [← hvm, Vm.callee?, hframes] at hv
  · have hexecutes : c'.world.executes 0 = c.world.executes 0 := by
      rw [World.executes_eq_interprets hframes hsilent,
        World.executes_eq_interprets (hvm ▸ hframes) hsilent', h.interprets_eq]
    refine ⟨Act.proper_step hready htakes, h.twins.alone ha.alone, fun _ hexec => ?_, rfl,
      fun hexec v f hv hf => ?_⟩
    all_goals
      rw [hexecutes] at hexec
      have hroot := World.root_of_executes hsound hexec
      obtain ⟨-, hdemand, hcallee⟩ := h.twins.next hsound hsound' hroot hseated
    · rw [← hvm, ← hdemand]
      exact ha.within rfl hexec
    · rw [← hvm, ← hcallee] at hv
      have hshares := h.twins.shares_stack hsound hsound' hroot
      have hagree := hshares.agree h.twins (Array.mem_toList_iff.2 (Vm.mem_of_callee? hv))
      exact ha.secluded.2 hexec v f hv (hagree.deref?.trans hf)

end Act.Solo

/-! ### Runs -/

/-- A new machine. -/
def Chronicle.fresh (s : Store) : Chronicle := { world := { store := s } }

/-- The settings of the collector are nothing that a thread could notice. -/
theorem Store.twins_new {collector collector' : CollectorSettings} {isolates : IsolateSettings}
    {s s' : Store} (hs : Store.new collector isolates = .ok s)
    (hs' : Store.new collector' isolates = .ok s') : s.Twins s' := by
  have hlibrary := Store.addLibrary_of_new hs
  have hlibrary' := Store.addLibrary_of_new hs'
  have hempty : Store.Twins
      { collector := ((Collector.new collector).addRoot .globals).1, isolates }
      { collector := ((Collector.new collector').addRoot .globals).1, isolates } :=
    ⟨.refl _, rfl, rfl, rfl, rfl, rfl, rfl⟩
  rcases hempty.addLibrary .sync with ⟨r, r', hr, hr', htwins⟩ | ⟨e, e', he, -⟩
  · obtain rfl : r = s := Except.ok.inj (hr.symm.trans hlibrary)
    obtain rfl : r' = s' := Except.ok.inj (hr'.symm.trans hlibrary')
    exact htwins
  · rw [he] at hlibrary
    cases hlibrary

namespace Chronicle.Onward

/-- A run has been where it had seen less, and saw more next. -/
theorem exists_next {ok : Chronicle → Act → Prop} {c₀ c : Chronicle} {past : List (Hosted × Act)}
    (hc : Onward ok c₀ past c) {a : Act} {seen : List Act} (hseen : a :: seen <:+ visible past) :
    ∃ q c₁, Onward ok c₀ q c₁ ∧ visible q = seen ∧ ok c₁ a ∧ a.silent c₁.toHosted = false ∧
      (c₁.toHosted, a) :: q <:+ past := by
  induction hc with
  | here => cases List.suffix_nil.1 hseen
  | @act q c₁ b hc₁ hb ih =>
    have hearlier : a :: seen <:+ visible q → ∃ q' c₂, Onward ok c₀ q' c₂ ∧ visible q' = seen ∧
        ok c₂ a ∧ a.silent c₂.toHosted = false ∧
        (c₂.toHosted, a) :: q' <:+ (c₁.toHosted, b) :: q := by
      intro hseen
      obtain ⟨q', c₂, hc₂, hq', ha, hsilent, hsuffix⟩ := ih hseen
      exact ⟨q', c₂, hc₂, hq', ha, hsilent, hsuffix.trans (List.suffix_cons _ _)⟩
    cases hsilent : b.silent c₁.toHosted with
    | true =>
      rw [visible_silent hsilent] at hseen
      exact hearlier hseen
    | false =>
      rw [visible_seen hsilent] at hseen
      rcases List.suffix_cons_iff.1 hseen with heq | hseen
      · obtain ⟨rfl, rfl⟩ := List.cons.inj heq
        exact ⟨q, c₁, hc₁, rfl, hb, hsilent, List.suffix_rfl⟩
      · exact hearlier hseen

/-- A run has been where it had seen less. -/
theorem exists_earlier {ok : Chronicle → Act → Prop} {c₀ c : Chronicle}
    {past : List (Hosted × Act)} (hc : Onward ok c₀ past c) {seen : List Act}
    (hseen : seen <:+ visible past) :
    ∃ q c₁, Onward ok c₀ q c₁ ∧ visible q = seen ∧ q <:+ past := by
  rcases exists_cons_suffix hseen with rfl | ⟨a, hmore⟩
  · exact ⟨past, c, hc, rfl, List.suffix_rfl⟩
  · obtain ⟨q, c₁, hc₁, hq, -, -, hsuffix⟩ := hc.exists_next hmore
    exact ⟨q, c₁, hc₁, hq, (List.suffix_cons _ _).trans hsuffix⟩

section

variable {collector : CollectorSettings} {isolates : IsolateSettings} {s : Store}
  {past : List (Hosted × Act)} {c : Chronicle}

theorem solo_run (hs : Store.new collector isolates = .ok s)
    (hc : Onward Act.Solo (.fresh s) past c) : Run Act.Proper c :=
  (hc.run (.new hs)).mono fun _ _ ha => ha.proper

theorem solo_sound (hs : Store.new collector isolates = .ok s)
    (hc : Onward Act.Solo (.fresh s) past c) : ∃ own, c.world.Sound own none := by
  obtain ⟨own, hsound, -⟩ := (hc.solo_run hs).hosted
  exact ⟨own, hsound⟩

theorem solo_seated (hc : Onward Act.Solo (.fresh s) past c) : (c.world.thread 0).Seated := by
  induction hc with
  | here =>
    rw [Chronicle.fresh, World.thread_of_size_le (Nat.zero_le 0)]
    exact ⟨.of_frames_nil rfl, trivial⟩
  | act _ ha ih => exact Act.seated ha.proper.1 ha.within ih

end

section

variable {collector collector' : CollectorSettings} {isolates : IsolateSettings} {s s' : Store}
  {past past' : List (Hosted × Act)} {c c' : Chronicle}
  (hs : Store.new collector isolates = .ok s) (hs' : Store.new collector' isolates = .ok s')

include hs hs'

/-- Runs in which the same happens apart from collections and time are in step. -/
theorem inStep (hc : Onward Act.Solo (.fresh s) past c) (hc' : Onward Act.Solo (.fresh s') past' c')
    (hvisible : visible past = visible past') :
    c.world.InStep 0 c'.world ∧ executed past = executed past' := by
  -- what is silent is taken off on either side; what is left came about on both sides
  induction hn : past.length + past'.length using Nat.strong_induction_on
    generalizing past past' c c' with
  | _ n ih =>
    have hleft : ∀ {past₁ : List (Hosted × Act)} {c₁ : Chronicle} {a : Act},
        Onward Act.Solo (.fresh s) past₁ c₁ → a.Solo c₁ → a.silent c₁.toHosted = true →
        past = (c₁.toHosted, a) :: past₁ → c = a.record c₁ →
        c.world.InStep 0 c'.world ∧ executed past = executed past' := by
      rintro past₁ c₁ a hc₁ ha hsilent rfl rfl
      rw [visible_silent hsilent] at hvisible
      obtain ⟨h, hexecuted⟩ := ih _ (by subst hn; simp) hc₁ hc' hvisible rfl
      obtain ⟨own, hsound⟩ := hc₁.solo_sound hs
      obtain ⟨hnext, hnone⟩ := ha.inStep_silent hsilent h hsound
      exact ⟨hnext, by rw [← hexecuted]; simp [executed, hnone]⟩
    have hright : ∀ {past₁ : List (Hosted × Act)} {c₁ : Chronicle} {a : Act},
        Onward Act.Solo (.fresh s') past₁ c₁ → a.Solo c₁ → a.silent c₁.toHosted = true →
        past' = (c₁.toHosted, a) :: past₁ → c' = a.record c₁ →
        c.world.InStep 0 c'.world ∧ executed past = executed past' := by
      rintro past₁ c₁ a hc₁ ha hsilent rfl rfl
      rw [visible_silent hsilent] at hvisible
      obtain ⟨h, hexecuted⟩ := ih _ (by subst hn; simp) hc hc₁ hvisible rfl
      obtain ⟨own, hsound⟩ := hc₁.solo_sound hs'
      obtain ⟨hnext, hnone⟩ := ha.inStep_silent hsilent h.symm hsound
      exact ⟨hnext.symm, by rw [hexecuted]; simp [executed, hnone]⟩
    cases hc with
    | here =>
      cases hc' with
      | here =>
        refine ⟨⟨⟨Store.twins_new hs hs', rfl, fun t => ?_⟩, .idle⟩, rfl⟩
        exact ⟨rfl, rfl, rfl, rfl, rfl⟩
      | @act past₁' c₁' a hc₁' ha' =>
        refine hright hc₁' ha' ?_ rfl rfl
        by_contra hsilent
        rw [visible_seen (by simpa using hsilent)] at hvisible
        cases hvisible
    | @act past₁ c₁ a hc₁ ha =>
      cases hsilent : a.silent c₁.toHosted with
      | true => exact hleft hc₁ ha hsilent rfl rfl
      | false =>
      rw [visible_seen hsilent] at hvisible
      cases hc' with
      | here => cases hvisible
      | @act past₁' c₁' a' hc₁' ha' =>
        cases hsilent' : a'.silent c₁'.toHosted with
        | true => exact hright hc₁' ha' hsilent' rfl rfl
        | false =>
        rw [visible_seen hsilent'] at hvisible
        obtain ⟨rfl, hrest⟩ := List.cons.inj hvisible
        obtain ⟨h, hexecuted⟩ := ih _ (by subst hn; simp; omega) hc₁ hc₁' hrest rfl
        obtain ⟨own, hsound⟩ := hc₁.solo_sound hs
        obtain ⟨own', hsound'⟩ := hc₁'.solo_sound hs'
        obtain ⟨hnext, hsame⟩ := ha.inStep_visible ha' hsilent hsilent' h hsound hsound'
          hc₁.solo_seated.vm
        refine ⟨hnext, ?_⟩
        simp only [executed, List.filterMap_cons, hsame] at hexecuted ⊢
        rw [hexecuted]

/-- What a run sees next once it has seen what its twin has: if both follow one program of the host,
it is the same. -/
theorem next_eq (hc : Onward Act.Solo (.fresh s) past c)
    (hc' : Onward Act.Solo (.fresh s') past' c')
    (hvisible : visible past = visible past') {a a' : Act} (ha : a.Solo c) (ha' : a'.Solo c')
    (hsilent : a.silent c.toHosted = false) (hsilent' : a'.silent c'.toHosted = false)
    {program : List Act} (hprogram : script ((c.toHosted, a) :: past) <:+ program)
    (hprogram' : script ((c'.toHosted, a') :: past') <:+ program) : a = a' := by
  obtain ⟨h, -⟩ := hc.inStep hs hs' hc' hvisible
  have hrest := h.atRest_eq
  cases hhost : a.byHost with
  | true =>
    have hhost' := ha'.byHost_of_atRest hsilent' (hrest ▸ ha.atRest hhost)
    have hscript : script past = script past' := by rw [script_eq, script_eq, hvisible]
    rw [script_host hhost] at hprogram
    rw [script_host hhost', ← hscript] at hprogram'
    have hsame := (List.suffix_of_suffix_length_le hprogram hprogram' le_rfl).eq_of_length rfl
    exact (List.cons.inj hsame).1
  | false =>
    have hhost' : a'.byHost = false := by
      by_contra hhost'
      have hboth := ha.byHost_of_atRest hsilent (hrest ▸ ha'.atRest (by simpa using hhost'))
      rw [hhost] at hboth
      cases hboth
    rw [ha.eq_step hsilent hhost, ha'.eq_step hsilent' hhost']

/-- The same can be seen of both runs, as far as both of them go. -/
theorem comparable (hc : Onward Act.Solo (.fresh s) past c)
    (hc' : Onward Act.Solo (.fresh s') past' c') {program : List Act}
    (hprogram : script past <:+ program) (hprogram' : script past' <:+ program) :
    visible past <:+ visible past' ∨ visible past' <:+ visible past := by
  induction hc with
  | here => exact .inl List.nil_suffix
  | @act past₁ c₁ a hc₁ ha ih =>
    have hcomparable := ih ((script_suffix (List.suffix_cons _ _)).trans hprogram)
    cases hsilent : a.silent c₁.toHosted with
    | true =>
      rw [visible_silent hsilent]
      exact hcomparable
    | false =>
      rw [visible_seen hsilent]
      rcases hcomparable with hle | hle
      · -- the other run may have seen no more than this one before
        rcases exists_cons_suffix hle with heq | ⟨a', hmore⟩
        · exact .inr (heq ▸ List.suffix_cons _ _)
        · obtain ⟨q, c₁', hc₁', hq, ha', hsilent', hsuffix⟩ := hc'.exists_next hmore
          have hsame := hc₁.next_eq hs hs' hc₁' hq.symm ha ha' hsilent hsilent' hprogram
            ((script_suffix hsuffix).trans hprogram')
          exact .inl (hsame ▸ hmore)
      · exact .inr (hle.trans (List.suffix_cons _ _))

/-- A run that rests has seen all that its twin with the same script has. -/
theorem stops (hc : Onward Act.Solo (.fresh s) past c) (hc' : Onward Act.Solo (.fresh s') past' c')
    (hscript : script past = script past') (hrest : c.world.atRest 0 = true) :
    visible past' <:+ visible past := by
  rcases hc.comparable hs hs' hc' (hscript ▸ List.suffix_rfl) List.suffix_rfl with hle | hle
  · rcases exists_cons_suffix hle with heq | ⟨a, hmore⟩
    · exact heq ▸ List.suffix_rfl
    · obtain ⟨q, c₁, hc₁, hq, ha, hsilent, hsuffix⟩ := hc'.exists_next hmore
      obtain ⟨h, -⟩ := hc.inStep hs hs' hc₁ hq.symm
      have hhost := ha.byHost_of_atRest hsilent (h.atRest_eq ▸ hrest)
      have hlength := (script_suffix hsuffix).length_le
      rw [script_host hhost, script_eq q, hq, ← script_eq, ← hscript] at hlength
      exact absurd hlength (Nat.not_succ_le_self _)
  · exact hle

/-- A thread that takes part in a collection gets through with it. -/
theorem exists_quiet (hc : Onward Act.Solo (.fresh s) past c)
    (hc' : Onward Act.Solo (.fresh s') past' c') (hvisible : visible past = visible past')
    (halone : c.world.Alone) :
    ∃ later c₁, Onward Act.Solo c' later c₁ ∧ visible later = [] ∧ c₁.world.silent 0 = false := by
  induction hn : (c'.world.control 0).distance using Nat.strong_induction_on
    generalizing past' c' with
  | _ n ih =>
    cases hsilent : c'.world.silent 0 with
    | false => exact ⟨[], c', .here, rfl, hsilent⟩
    | true =>
      obtain ⟨h, -⟩ := hc.inStep hs hs' hc' hvisible
      obtain ⟨own', hsound'⟩ := hc'.solo_sound hs'
      have hbalanced := ((hc'.solo_run hs').mono fun _ _ ha => ha.1).balanced
      have hstep := Act.Solo.of_silent (h.twins.alone halone) hbalanced hsilent
      have hseen : (Act.step 0).silent c'.toHosted = true := hsilent
      have hlt := (h.symm.silent hstep.known hsound'.tidy hsilent).2
      obtain ⟨later, c₁, hlater, hnone, hquiet⟩ := ih _ (hn ▸ hlt) (hc'.act hstep)
        (by rw [visible_silent hseen]; exact hvisible) rfl
      refine ⟨later ++ [(c'.toHosted, .step 0)], c₁, (Onward.act .here hstep).trans hlater, ?_,
        hquiet⟩
      rw [visible_append, hnone, visible_silent hseen]
      rfl

/-- A step that can be seen of one run can be made in the other, after collections and in time. -/
theorem advance (hc : Onward Act.Solo (.fresh s) past c)
    (hc' : Onward Act.Solo (.fresh s') past' c') (hvisible : visible past = visible past')
    (ha : (Act.step 0).Solo c) (hsilent : c.world.silent 0 = false) :
    ∃ later c₁, Onward Act.Solo c' later c₁ ∧ visible later = [.step 0] := by
  obtain ⟨later, c₁, hlater, hnone, hquiet⟩ := hc.exists_quiet hs hs' hc' hvisible ha.alone
  have hc₁ := hc'.trans hlater
  have hvisible₁ : visible past = visible (later ++ past') := by
    rw [visible_append, hnone, hvisible, List.nil_append]
  obtain ⟨h, -⟩ := hc.inStep hs hs' hc₁ hvisible₁
  obtain ⟨own, hsound⟩ := hc.solo_sound hs
  obtain ⟨own₁, hsound₁⟩ := hc₁.solo_sound hs'
  have hbalanced := ((hc₁.solo_run hs').mono fun _ _ ha => ha.1).balanced
  have halone := h.twins.alone ha.alone
  obtain ⟨now, hready⟩ := h.exists_ready hsound hsound₁ halone hbalanced ha.proper.1 hquiet
  -- time passes until the thread is ready, and then it makes its step
  have helapse : (Act.elapse now).Solo c₁ := ⟨⟨trivial, trivial⟩, halone, trivial, trivial⟩
  have hthread := World.thread_beginRound c₁.world now 0
  have hquiet₂ : ((Act.elapse now).record c₁).world.silent 0 = false := by
    rw [← hquiet]
    show (c₁.world.beginRound now).silent 0 = _
    simp only [World.silent, World.control, hthread]
    rfl
  have hstep : (Act.step 0).Solo ((Act.elapse now).record c₁) := by
    obtain ⟨h₂, -⟩ := hc.inStep hs hs' (hc₁.act helapse) (by rw [visible_silent rfl, hvisible₁])
    obtain ⟨own₂, hsound₂⟩ := (hc₁.act helapse).solo_sound hs'
    exact ha.of_inStep hsilent h₂ hsound hsound₂ hc.solo_seated.vm hready hquiet₂
  have hseen : (Act.step 0).silent ((Act.elapse now).record c₁).toHosted = false := hquiet₂
  refine ⟨_, _, (hlater.act helapse).act hstep, ?_⟩
  rw [visible_seen hseen, visible_silent rfl, hnone]

/-- A run whose twin with the same script rests can come to rest by itself. -/
theorem completes (hc : Onward Act.Solo (.fresh s) past c)
    (hc' : Onward Act.Solo (.fresh s') past' c') (hscript : script past = script past')
    (hrest : c.world.atRest 0 = true) :
    ∃ later c₁, Onward Act.Solo c' later c₁ ∧ script later = [] ∧ c₁.world.atRest 0 = true := by
  induction hn : (visible past).length - (visible past').length generalizing past' c' with
  | zero =>
    have hle := hc.stops hs hs' hc' hscript hrest
    have hsame := hle.eq_of_length (le_antisymm hle.length_le (Nat.sub_eq_zero_iff_le.1 hn))
    obtain ⟨h, -⟩ := hc.inStep hs hs' hc' hsame.symm
    exact ⟨[], c', .here, rfl, h.atRest_eq ▸ hrest⟩
  | succ n ih =>
    have hle := hc.stops hs hs' hc' hscript hrest
    rcases exists_cons_suffix hle with heq | ⟨a, hmore⟩
    · rw [heq] at hn
      omega
    obtain ⟨q, c₁, hc₁, hq, ha, hsilent, hsuffix⟩ := hc.exists_next hmore
    -- the host has done no more there, so it is the thread that goes on
    have hhost : a.byHost = false := by
      by_contra hhost
      have hlength := (script_suffix hsuffix).length_le
      rw [script_host (by simpa using hhost), script_eq q, hq, ← script_eq, hscript] at hlength
      exact absurd hlength (Nat.not_succ_le_self _)
    obtain rfl := ha.eq_step hsilent hhost
    obtain ⟨later, c₂, hlater, hone⟩ := hc₁.advance hs hs' hc' hq ha hsilent
    have hnothing : script later = [] := by rw [script_eq, hone]; rfl
    have hscript₂ : script past = script (later ++ past') := by
      rw [hscript, script_append, hnothing, List.nil_append]
    obtain ⟨rest, c₃, hrest', hnone, hend⟩ := ih (hc'.trans hlater) hscript₂ (by
      rw [visible_append, hone, List.length_append, List.length_singleton]
      omega)
    refine ⟨rest ++ later, c₃, hlater.trans hrest', ?_, hend⟩
    rw [script_append, hnone, hnothing, List.append_nil]

end

end Chronicle.Onward

/-! ### Worlds at rest -/

namespace World

variable {w w' : World} {own own' : Ledger} {away away' : Option ThreadId}

theorem Twins.rootValues (h : w.Twins w') : w.rootValues = w'.rootValues := by
  have hheld : ∀ holder, w.heldBy holder = w'.heldBy holder := by
    intro holder
    cases holder with
    | globals => rw [heldBy, heldBy, h.store.globals]
    | stack t => rw [heldBy, heldBy, (h.thread t).vm]
    | pinned vs => rfl
  rw [World.rootValues, World.rootValues, h.store.roots]
  simp only [hheld]

/-- Immortal cells live in both worlds, so they hold the same. -/
theorem Twins.starts (h : w.Twins w') (hsound : w.Sound own away) (hsound' : w'.Sound own' away') :
    w.store.collector.starts w.rootValues = w'.store.collector.starts w'.rootValues := by
  rw [Collector.starts, Collector.starts, h.rootValues]
  congr 1
  rw [Collector.immortalEdges, Collector.immortalEdges, ← h.store.immortals]
  refine List.flatMap_congr fun d hd => ?_
  have hlive := ((hsound.tidy.listed.mem_immortals d).1 hd).live
  have hlive' := ((hsound'.tidy.listed.mem_immortals d).1 (h.store.immortals ▸ hd)).live
  exact congrArg (fun o => (o.map Object.edges).getD []) (h.store.heap.object?_eq hlive hlive')

/-- What is reached in one world is reached in the other. -/
theorem Twins.rooted (h : w.Twins w') (hsound : w.Sound own away) (hsound' : w'.Sound own' away')
    {d : CellId} (hd : w.Rooted d) : w'.Rooted d := by
  have hstarts := h.starts hsound hsound'
  unfold Rooted at hd
  induction hd with
  | start hd => exact .start (hstarts ▸ hd)
  | @step d e hd hpoints ih =>
    obtain ⟨o, ho, hedge⟩ := hpoints
    refine .step ih ⟨o, ?_, hedge⟩
    have hsame := h.store.heap.object?_eq (hsound.live_of_rooted hd) (hsound'.live_of_rooted ih)
    exact hsame.symm.trans ho

theorem InStep.indistinct (h : InStep 0 w w') (hsound : w.Sound own none)
    (hsound' : w'.Sound own' none) (hrest : w.atRest 0 = true) : w.Indistinct w' where
  control := (h.rests hrest).1
  stack := congrArg Vm.stack (h.twins.thread 0).vm
  error := congrArg Vm.error (h.twins.thread 0).vm
  frames := congrArg Vm.frames (h.twins.thread 0).vm
  globals := h.twins.store.globals
  rooted _ := ⟨h.twins.rooted hsound hsound', h.twins.symm.rooted hsound' hsound⟩
  objects d hd := by
    have hagree : w.store.heap.Agree w'.store.heap (.ref d) :=
      h.twins.store.heap.agree hsound.closed hsound'.closed
        (Heap.holds_ref.2 (hsound.live_of_rooted hd))
        (Heap.holds_ref.2 (hsound'.live_of_rooted (h.twins.rooted hsound hsound' hd)))
    exact ⟨hagree.object?, hagree.text?⟩

end World

theorem executed_suffix {q past : List (Hosted × Act)} (h : q <:+ past) :
    executed q <:+ executed past :=
  h.filterMap _

open Chronicle in
/-- A program runs on one thread, with different settings of the collector. As far as both runs go,
they execute the same instructions on the same operands. When one of them has come to rest, so can
the other that has got the same script, and then nobody can tell them apart. -/
theorem collections_are_transparent {collector collector' : CollectorSettings}
    {isolates : IsolateSettings} {s s' : Store} (hs : Store.new collector isolates = .ok s)
    (hs' : Store.new collector' isolates = .ok s') {past past' : List (Hosted × Act)}
    {c c' : Chronicle} (hc : Onward Act.Solo (.fresh s) past c)
    (hc' : Onward Act.Solo (.fresh s') past' c') {program : List Act}
    (hprogram : script past <:+ program) (hprogram' : script past' <:+ program) :
    (executed past <:+ executed past' ∨ executed past' <:+ executed past) ∧
    (script past = script past' → c.world.atRest 0 = true →
      (c'.world.atRest 0 = true → executed past = executed past' ∧ c.world.Indistinct c'.world) ∧
      ∃ later c₁, Onward Act.Solo c' later c₁ ∧ script later = [] ∧ c₁.world.atRest 0 = true) := by
  refine ⟨?_, fun hscript hrest => ⟨fun hrest' => ?_, hc.completes hs hs' hc' hscript hrest⟩⟩
  · rcases hc.comparable hs hs' hc' hprogram hprogram' with hle | hle
    · obtain ⟨q, c₁, hc₁, hq, hsuffix⟩ := hc'.exists_earlier hle
      rw [(hc.inStep hs hs' hc₁ hq.symm).2]
      exact .inl (executed_suffix hsuffix)
    · obtain ⟨q, c₁, hc₁, hq, hsuffix⟩ := hc.exists_earlier hle
      rw [← (hc₁.inStep hs hs' hc' hq).2]
      exact .inr (executed_suffix hsuffix)
  · have hle := hc.stops hs hs' hc' hscript hrest
    have hge := hc'.stops hs' hs hc hscript.symm hrest'
    obtain ⟨h, hexecuted⟩ := hc.inStep hs hs' hc' (hge.eq_of_length_le hle.length_le)
    obtain ⟨own, hsound⟩ := hc.solo_sound hs
    obtain ⟨own', hsound'⟩ := hc'.solo_sound hs'
    exact ⟨hexecuted, h.indistinct hsound hsound' hrest⟩

/-! ### A function that fails, with and without a collection -/

/-- The store of a machine that collects as soon as there is anything. -/
def Store.thrifty : Store :=
  (Store.new { allocLimit := 1 } {}).toOption.getD { collector := Collector.new {}, isolates := {} }

/-- A function that divides by zero. -/
def Code.mishap : Code :=
  ⟨"mishap", 0, #[.int 1, .int 0], #[.const 0, .const 1, .arith .div, .ret]⟩

/-- A thread makes a text and forgets it, and then it calls the function. -/
def Act.mishap : List Act :=
  [.spawn, .assign 0 .enroll, .step 0, .assign 0 .equip, .step 0, .make 0 (.str "garbage"),
    .make 0 (.function .mishap), .assign 0 (.call (.ref 12) #[]), .assign 0 .run]

/-- Then it makes so many steps. -/
def Chronicle.mishap (s : Store) (steps : Nat) : Chronicle :=
  (List.replicate steps (Act.step 0)).foldl Act.record (Act.mishap.foldl Act.record (.fresh s))

/-- A step that calls nothing. -/
theorem Act.solo_step {c : Chronicle} (h : c.world.ready 0 = true ∧
    (c.world.control 0).takes = false ∧
    c.world.threads.size ≤ 1 ∧ (c.world.thread 0).role = .host ∧
    (c.world.thread 0).vm.innermost + (c.world.thread 0).vm.demand c.world.store.heap ≤
      (c.world.thread 0).vm.depth ∧
    (c.world.thread 0).vm.callee? c.world.store.heap = none) : (Act.step 0).Solo c := by
  obtain ⟨hready, htakes, hsize, hrole, hdemand, hcallee⟩ := h
  refine ⟨Act.proper_step hready htakes, ⟨hsize, hrole⟩, fun _ _ => hdemand, rfl,
    fun _ v f hv => ?_⟩
  rw [hcallee] at hv
  cases hv

theorem Act.solo_mishap {s : Store} (hs : s = .standard ∨ s = .thrifty) :
    Act.All Act.Solo (.fresh s) Act.mishap := by
  have hnobody : ∀ {w : World}, w.threads.size = 0 → Act.Secluded w .spawn := id
  have hequip : ∀ {th : Thread}, th.root = none → Task.Orderly th .equip := id
  have hrun : ∀ {th : Thread}, th.storage.isSome → Task.Orderly th .run := id
  have hcall : ∀ {th : Thread} {function args}, th.storage.isSome →
      Task.Orderly th (.call function args) := id
  have hcallee : ∀ {w : World}, (w.thread 0).vm.called? (.ref 12) #[] = some (.ref 12) →
      w.store.heap.object? 12 = some (.function .mishap) →
      Task.Secluded w (.call (.ref 12) #[]) := by
    intro w hcalled ho v f hv hf
    obtain rfl := Option.some.inj (hcalled.symm.trans hv)
    cases ho.symm.trans hf
  refine ⟨⟨⟨trivial, trivial⟩, ⟨?_, ?_⟩, trivial, hnobody ?_⟩,
    ⟨⟨⟨⟨?_, ?_, ?_⟩, trivial⟩, ?_, trivial⟩, ⟨?_, ?_⟩, trivial, rfl, trivial⟩, Act.solo_step ?_,
    ⟨⟨⟨⟨?_, ?_, ?_⟩, hequip ?_⟩, ?_, trivial⟩, ⟨?_, ?_⟩, trivial, rfl, trivial⟩, Act.solo_step ?_,
    ⟨⟨trivial, ?_, by simp [Object.edges]⟩, ⟨?_, ?_⟩, trivial, rfl, ?_⟩,
    ⟨⟨trivial, ?_, by simp [Object.edges, Code.mishap]⟩, ⟨?_, ?_⟩, trivial, rfl, ?_⟩,
    ⟨⟨⟨⟨?_, ?_, ?_⟩, hcall ?_⟩, ?_, ⟨?_, ?_⟩, Heap.holds_ref.2 ?_, by simp⟩, ⟨?_, ?_⟩, trivial, rfl,
      hcallee ?_ ?_⟩,
    ⟨⟨⟨⟨?_, ?_, ?_⟩, hrun ?_⟩, ?_, ⟨?_, ?_⟩⟩, ⟨?_, ?_⟩, trivial, rfl, trivial⟩, trivial⟩
  all_goals rcases hs with rfl | rfl <;> decide +kernel

/-- Nothing had happened before. -/
theorem Chronicle.Onward.whole {ok : Chronicle → Act → Prop} {s : Store} {c : Chronicle}
    {since : List (Hosted × Act)} (h : Onward ok (.fresh s) since c) :
    Onward ok (.fresh s) c.past c := by
  rw [h.past_eq, show (Chronicle.fresh s).past = [] from rfl, List.append_nil]
  exact h

/-- What happens is what the past tells. -/
theorem Act.map_past_record (acts : List Act) (c : Chronicle) :
    (acts.foldl Act.record c).past.map Prod.snd = acts.reverse ++ c.past.map Prod.snd := by
  induction acts generalizing c with
  | nil => rfl
  | cons a acts ih => simp [ih, Act.record]

theorem onward_mishap {s : Store} (hs : s = .standard ∨ s = .thrifty) {n : Nat}
    (hsteps : Act.All Act.Solo (Act.mishap.foldl Act.record (.fresh s))
      (List.replicate n (Act.step 0))) :
    Chronicle.Onward Act.Solo (.fresh s) (Chronicle.mishap s n).past (.mishap s n) := by
  have hhost := Chronicle.Onward.acts (Act.solo_mishap hs) .here
  exact (hhost.acts hsteps).whole

theorem script_mishap (s : Store) (n : Nat) :
    script (Chronicle.mishap s n).past = Act.mishap.reverse.filter Act.byHost := by
  rw [script, Chronicle.mishap, Act.map_past_record, Act.map_past_record, List.filter_append,
    List.filter_append]
  simp [Chronicle.fresh, Act.byHost]

theorem onward_mishap_standard : Chronicle.Onward Act.Solo (.fresh .standard)
    (Chronicle.mishap .standard 3).past (.mishap .standard 3) := by
  refine onward_mishap (.inl rfl) ⟨Act.solo_step ?_, Act.solo_step ?_, Act.solo_step ?_, trivial⟩
  all_goals decide +kernel

/-- The same with a collection before the first instruction. -/
theorem onward_mishap_thrifty : Chronicle.Onward Act.Solo (.fresh .thrifty)
    (Chronicle.mishap .thrifty 7).past (.mishap .thrifty 7) := by
  refine onward_mishap (.inr rfl) ⟨Act.solo_step ?_, Act.solo_step ?_, Act.solo_step ?_,
    Act.solo_step ?_, Act.solo_step ?_, Act.solo_step ?_, Act.solo_step ?_, trivial⟩
  all_goals decide +kernel

/-- One of the machines has freed the text. Both have executed the same instructions and have the
same error. -/
theorem collections_are_transparent_mishap :
    (Store.new {} {} = .ok .standard ∧ Store.new { allocLimit := 1 } {} = .ok .thrifty) ∧
    (Chronicle.mishap .standard 3).world.store.heap.Live 11 ∧
    ¬ (Chronicle.mishap .thrifty 7).world.store.heap.Live 11 ∧
    (executed (Chronicle.mishap .standard 3).past).length = 3 ∧
    ((Chronicle.mishap .standard 3).world.thread 0).vm.error = true ∧
    executed (Chronicle.mishap .standard 3).past = executed (Chronicle.mishap .thrifty 7).past ∧
    (Chronicle.mishap .standard 3).world.Indistinct (Chronicle.mishap .thrifty 7).world := by
  have hs : Store.new {} {} = .ok .standard := rfl
  have hs' : Store.new { allocLimit := 1 } {} = .ok .thrifty := rfl
  have hscript : script (Chronicle.mishap .standard 3).past =
      script (Chronicle.mishap .thrifty 7).past := by rw [script_mishap, script_mishap]
  have hrest : (Chronicle.mishap .standard 3).world.atRest 0 = true := by decide +kernel
  have hrest' : (Chronicle.mishap .thrifty 7).world.atRest 0 = true := by decide +kernel
  obtain ⟨-, hends⟩ := collections_are_transparent hs hs' onward_mishap_standard
    onward_mishap_thrifty List.suffix_rfl (by rw [hscript])
  refine ⟨⟨hs, hs'⟩, ?_, ?_, ?_, ?_, (hends hscript hrest).1 hrest'⟩
  all_goals decide +kernel

end ScriptCore
