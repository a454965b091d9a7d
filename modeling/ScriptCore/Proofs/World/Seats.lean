import ScriptCore.Proofs.Machine.Caller
import ScriptCore.Proofs.World.Chronicle

/-!
# Running code keeps its seat

A frame refers to its code, but frames are no roots. What keeps the code of a call alive is its
callee, which lies on the stack right below the arguments of the frame, and stays there as long as
no instruction takes it for an operand.

* `Vm.Seated`: the callee of every frame is its code, and frames lie above each other;
* `Vm.Seated.trims`: an instruction that takes no operand below its arguments keeps that;
* `Thread.Seated`: also the waits of a thread lie above its frames;
* `Act.Within`: the thread takes no operand below its arguments;
* `running_code_is_rooted`: in every state of such a run the stack holds the code of every frame.
-/

namespace ScriptCore

namespace Vm

/-- Where the arguments of the innermost call begin. -/
def innermost (vm : Vm) : Nat := (vm.frames.head?.map (·.base)).getD 0

/-- Right below the arguments of each frame lies its code, and inner frames lie above outer ones. -/
structure Seated (vm : Vm) : Prop where
  seat : ∀ frame ∈ vm.frames, 0 < frame.base ∧ vm.stack[frame.base - 1]? = some (.ref frame.code)
  nested : vm.frames.Pairwise fun inner outer => outer.base < inner.base

namespace Seated

variable {vm vm' : Vm} {s : Store} {me : Caller} {takes : Nat} {r : Vm × Store × Signal}

theorem of_frames_nil (h : vm.frames = []) : vm.Seated := by
  constructor <;> simp [h]

theorem base_le (h : vm.Seated) {frame : Frame} (hframe : frame ∈ vm.frames) :
    frame.base ≤ vm.innermost := by
  have hnested := h.nested
  unfold innermost
  cases hframes : vm.frames with
  | nil => simp [hframes] at hframe
  | cons inner rest =>
    rw [hframes] at hframe hnested
    rcases List.mem_cons.1 hframe with rfl | hframe
    · exact le_rfl
    · exact (List.rel_of_pairwise_cons hnested hframe).le

theorem innermost_le (h : vm.Seated) : vm.innermost ≤ vm.depth := by
  cases hframes : vm.frames with
  | nil => simp [innermost, hframes]
  | cons frame rest =>
    obtain ⟨hpos, hseat⟩ := h.seat frame (hframes ▸ List.mem_cons_self)
    have hlt := (Array.getElem?_eq_some_iff.1 hseat).1
    simp only [innermost, hframes, depth, List.head?_cons, Option.map_some, Option.getD_some]
    omega

/-- Whatever happens above the innermost call. -/
theorem of_stack (h : vm.Seated) (hframes : vm'.frames = vm.frames)
    (hstack : ∀ n v, n < vm.innermost → vm.stack[n]? = some v → vm'.stack[n]? = some v) :
    vm'.Seated := by
  refine ⟨fun frame hframe => ?_, by rw [hframes]; exact h.nested⟩
  rw [hframes] at hframe
  obtain ⟨hpos, hseat⟩ := h.seat frame hframe
  have hle := h.base_le hframe
  exact ⟨hpos, hstack _ _ (by omega) hseat⟩

theorem getElem?_shrink_append {stack more : Array Value} {n m : Nat} {v : Value} (hn : n < m)
    (hv : stack[n]? = some v) : (stack.shrink m ++ more)[n]? = some v := by
  have hlt := (Array.getElem?_eq_some_iff.1 hv).1
  have hsize : n < (stack.shrink m).size := by
    rw [Array.size_shrink]
    omega
  rw [Array.getElem?_append_left hsize, ← Array.getElem?_toList, Array.toList_shrink,
    List.getElem?_take_of_lt hn, Array.getElem?_toList, hv]

/-- An instruction that takes its operands from above the innermost call keeps the seats, and a
call that waits lies above it. -/
theorem trims (h : vm.Seated) (htakes : vm.innermost + takes ≤ vm.depth) (ht : vm.Trims takes r) :
    r.1.Seated ∧ ∀ callee q, r.2.2 = .suspended callee q → r.1.innermost ≤ callee := by
  obtain ⟨m, more, hm, hstack⟩ := ht.stack
  have hkept : ∀ n v, n < vm.innermost → vm.stack[n]? = some v → r.1.stack[n]? = some v := by
    intro n v hn hv
    rw [hstack]
    exact getElem?_shrink_append (by omega) hv
  rcases ht.frames with hframes | ⟨c, hframes, hseat, hnext⟩
  · refine ⟨h.of_stack hframes hkept, fun callee q hsignal => ?_⟩
    rw [ht.callee callee q hsignal, innermost, hframes]
    show vm.innermost ≤ _
    omega
  · have hrest : Seated { r.1 with frames := vm.frames } := h.of_stack rfl hkept
    refine ⟨⟨?_, ?_⟩, fun callee q hsignal => ?_⟩
    · rw [hframes]
      rintro frame (_ | ⟨_, hframe⟩)
      · exact ⟨Nat.succ_pos _, hseat⟩
      · exact hrest.seat frame hframe
    · rw [hframes]
      refine List.pairwise_cons.2 ⟨fun frame hframe => ?_, h.nested⟩
      have hle := h.base_le hframe
      show frame.base < vm.depth - takes + 1
      omega
    · rw [hnext] at hsignal
      cases hsignal

/-- An instruction that leaves the callee of its frame where it is keeps the seats. -/
theorem step (h : vm.Seated) (me : Caller) (htakes : vm.innermost + vm.demand s.heap ≤ vm.depth) :
    (vm.step me s).1.Seated ∧
      ∀ callee q, (vm.step me s).2.2 = .suspended callee q →
        (vm.step me s).1.innermost ≤ callee := by
  cases hframes : vm.frames with
  | nil =>
    have hstep : vm.step me s = (vm, s, .next) := by rw [Vm.step, hframes]
    rw [hstep]
    exact ⟨h, by simp⟩
  | cons frame rest =>
    have hinnermost : vm.innermost = frame.base := by rw [innermost, hframes]; rfl
    have hnested := h.nested
    rw [hframes] at hnested
    rcases step_cases me s hframes with ⟨ip, ht⟩ | ⟨v, hv⟩
    · have hnow : Seated { vm with frames := { frame with ip } :: rest } := by
        refine ⟨?_, ?_⟩
        · rintro frame' (_ | ⟨_, hframe'⟩)
          · exact h.seat frame (hframes ▸ List.mem_cons_self)
          · exact h.seat frame' (hframes ▸ List.mem_cons_of_mem _ hframe')
        · exact List.pairwise_cons.2 (List.pairwise_cons.1 hnested)
      exact hnow.trims (hinnermost ▸ htakes) ht
    -- a return cuts the stack at its own callee, above which no other frame begins
    · rw [hv]
      refine ⟨⟨fun frame' hframe' => ?_, hnested.of_cons⟩, by simp⟩
      obtain ⟨hpos, hseat⟩ := h.seat frame' (hframes ▸ List.mem_cons_of_mem _ hframe')
      have hlt := List.rel_of_pairwise_cons hnested hframe'
      rw [hinnermost] at htakes
      refine ⟨hpos, ?_⟩
      have hcut : (vm.stack.shrink (vm.depth - vm.demand s.heap) ++ #[])[frame'.base - 1]? =
          some (.ref frame'.code) := getElem?_shrink_append (by omega) hseat
      rw [Array.append_empty] at hcut
      exact Array.push_eq_append ▸ getElem?_shrink_append (by omega) hcut

/-- A new outermost call lies above all frames. -/
theorem enter (h : vm.Seated) (me : Caller) (function : Value) (args : Array Value) (s : Store) :
    (vm.enter me function args s).1.Seated ∧
      ∀ callee q, (vm.enter me function args s).2.2 = .suspended callee q →
        (vm.enter me function args s).1.innermost ≤ callee := by
  have hle := h.innermost_le
  let vm₁ : Vm := ({ vm with error := false, entry := vm.depth }.push function).pushAll args
  have hdepth : vm₁.depth = vm.depth + 1 + args.size := by simp [vm₁, depth, push, pushAll]
  have hlaid : vm₁.Seated := by
    refine h.of_stack rfl fun n v hn hv => ?_
    have hlt := (Array.getElem?_eq_some_iff.1 hv).1
    show (vm.stack.push function ++ args)[n]? = some v
    rw [Array.getElem?_append_left (by rw [Array.size_push]; omega),
      Array.getElem?_push_lt hlt]
    exact hv ▸ (Array.getElem?_eq_getElem hlt).symm
  have hargc : (UInt64.ofNat args.size).toNat ≤ args.size := by
    rw [UInt64.toNat_ofNat']
    exact Nat.mod_le _ _
  refine hlaid.trims ?_ (trims_invoke _)
  show vm.innermost + _ ≤ vm₁.depth
  omega

theorem receive (h : vm.Seated) {callee : Nat} (hcallee : vm.innermost ≤ callee) (o : Outcome) :
    (vm.receive me callee s o).1.Seated := by
  have hpush : ∀ v, ((vm.truncate callee).push v).Seated := by
    intro v
    refine h.of_stack rfl fun n x hn hx => ?_
    show ((vm.stack.shrink callee).push v)[n]? = some x
    exact Array.push_eq_append ▸ getElem?_shrink_append (by omega) hx
  cases o with
  | failed e | panicked q => exact h
  | _ => exact hpush _

theorem push (h : vm.Seated) (v : Value) : (vm.push v).Seated := by
  refine h.of_stack rfl fun n x _ hx => ?_
  have hlt := (Array.getElem?_eq_some_iff.1 hx).1
  show (vm.stack.push v)[n]? = some x
  rw [Array.getElem?_push_lt hlt, ← hx]
  exact (Array.getElem?_eq_getElem hlt).symm

theorem dropTop (h : vm.Seated) (hdepth : vm.innermost < vm.depth ∨ vm.frames = []) :
    vm.dropTop.Seated := by
  rcases hdepth with hlt | hnil
  · refine h.of_stack rfl fun n x hn hx => ?_
    rw [dropTop_eq_drop]
    show (vm.stack.shrink (vm.depth - 1))[n]? = some x
    have happend : (vm.stack.shrink (vm.depth - 1) ++ #[])[n]? = some x :=
      getElem?_shrink_append (by omega) hx
    rwa [Array.append_empty] at happend
  · exact of_frames_nil hnil

end Seated

end Vm

/-! ### Threads -/

/-- What a thread goes on with lies above its frames; an isolate that publishes a value has none. -/
structure After.Above (vm : Vm) (k : After) : Prop where
  callee : ∀ callee outermost, k.consumer? = some (.call callee outermost) → vm.innermost ≤ callee
  returned : k = .pause (some .returned) → vm.frames = []

/-- The next step of a thread lies above its frames. -/
def Control.Above (vm : Vm) : Control → Prop
  | .rendezvous _ k | .lingering k | .gathering k | .sweeping k | .blocked _ k | .waiting _ k
  | .leaving _ k => k.Above vm
  | .pausing e | .publishing e => e = .returned → vm.frames = []
  | _ => True

/-- What a thread has in hand lies above its frames. -/
def Pending.Above (vm : Vm) : Pending → Prop
  | .machine (.suspended callee _) _ => vm.innermost ≤ callee
  | _ => True

/-- The code of every frame of a thread has its seat on the stack, and keeps it while the thread
waits. -/
structure Thread.Seated (th : Thread) : Prop where
  vm : th.vm.Seated
  control : th.control.Above th.vm

theorem After.above_of_host {k : After} {vm : Vm} (hk : k.consumer? = some .host) : k.Above vm := by
  refine ⟨fun callee outermost h => ?_, fun h => ?_⟩
  · rw [hk] at h
    cases h
  · rw [h] at hk
    cases hk

theorem Role.above_entered (role : Role) (vm : Vm) : role.entered.Above vm := by
  cases role <;> trivial

theorem Role.above_interrupted (role : Role) (vm : Vm) (p : Panic) :
    (role.interrupted p).Above vm := by
  cases role with
  | host => trivial
  | isolate i => exact fun h => by cases h

/-- A thread at work comes to rest with its seats. -/
theorem Leads.seated {G : Outcome → Store → Prop} {me : Caller} {role : Role} {p : Pending}
    {x y : Vm × Store} {c : Control} (h : Leads G me role p x y c) (hvm : x.1.Seated)
    (hp : p.Above x.1) : y.1.Seated ∧ c.Above y.1 := by
  induction h with
  | @next vm _ outermost =>
    refine ⟨hvm, ?_⟩
    cases outermost with
    | false => trivial
    | true => exact Role.above_entered role _
  | @failed vm s e outermost =>
    refine ⟨Vm.Seated.of_frames_nil rfl, ?_⟩
    cases outermost with
    | true => exact Role.above_entered role _
    | false =>
      cases role with
      | host => trivial
      | isolate i => exact fun _ => rfl
  | panicked | hostPanics => exact ⟨hvm, Role.above_interrupted role _ _⟩
  | collects =>
    refine ⟨hvm, fun callee' outermost' heq => ?_, fun h => by cases h⟩
    cases heq
    exact hp
  | @blocks _ _ _ callee _ outermost _ k hk =>
    refine ⟨hvm, fun callee' outermost' heq => ?_, fun h => ?_⟩
    · rw [hk] at heq
      cases heq
      exact hp
    · rw [h] at hk
      cases hk
  | @receives vm _ s₁ _ callee _ _ o _ _ _ _ ih =>
    refine ih (hvm.receive hp o) ?_
    cases o <;> trivial
  | finishes => exact ⟨hvm, trivial⟩
  | hostBlocks hk => exact ⟨hvm, After.above_of_host hk⟩

namespace World

variable {G : Outcome → Store → Prop} {w w' : World} {t : ThreadId}

theorem Sequel.seated {p : Pending} {vm : Vm} {held : List RootId}
    (h : Sequel G t p vm held w w') (hvm : vm.Seated) (hp : p.Above vm) :
    (w'.thread t).Seated := by
  obtain ⟨vm', c, hmine, hleads⟩ := h.mine
  obtain ⟨hvm', hc⟩ := hleads.seated hvm hp
  rw [hmine]
  exact ⟨hvm', hc⟩

/-- The thread executes an instruction in its next step. -/
def executes (w : World) (t : ThreadId) : Bool :=
  match w.control t with
  | .running => !w.store.collector.requested
  | .stepping => true
  | _ => false

theorem seated_execute (ht : t < w.threads.size) (h : (w.thread t).vm.Seated)
    (hwithin : (w.thread t).vm.innermost + (w.thread t).vm.demand w.store.heap ≤
      (w.thread t).vm.depth) : ((w.execute t).thread t).Seated := by
  obtain ⟨hvm, hcallee⟩ := h.step ((w.thread t).caller t) hwithin
  refine (Sequel.execute (G := fun _ _ => True) ht fun _ _ _ _ => trivial).seated hvm ?_
  generalize (Vm.step _ _ _).2.2 = signal at hcallee
  cases signal with
  | suspended callee q => exact hcallee callee q rfl
  | _ => trivial

theorem seated_enter (ht : t < w.threads.size) (h : (w.thread t).vm.Seated) (function : Value)
    (args : Array Value) : ((w.enter t function args).thread t).Seated := by
  obtain ⟨hvm, hcallee⟩ := h.enter ((w.thread t).caller t) function args w.store
  refine (Sequel.enter (G := fun _ _ => True) ht function args fun _ _ _ _ => trivial).seated hvm ?_
  generalize (Vm.enter _ _ _ _ _).2.2 = signal at hcallee
  cases signal with
  | suspended callee q => exact hcallee callee q rfl
  | _ => trivial

theorem seated_continueWith (ht : t < w.threads.size) (h : (w.thread t).vm.Seated) {k : After}
    (hk : k.Above (w.thread t).vm) (o : Outcome) : ((w.continueWith t k o).thread t).Seated := by
  have hturn : ∀ (w₁ : World) c, w₁.threads = w.threads → c.Above (w.thread t).vm →
      ((w₁.setControl t c).thread t).Seated := by
    intro w₁ c hthreads hc
    rw [(becomes_setControl hthreads ht c).mine]
    exact ⟨h, hc⟩
  have hsequel : ∀ consumer, k.consumer? = some consumer →
      ((w.continueWith t k o).thread t).Seated := by
    intro consumer hc
    refine (Sequel.continueWith (G := fun _ _ => True) ht .collect hc o
      fun _ _ _ _ => trivial).seated h ?_
    cases consumer with
    | host => trivial
    | call callee outermost => exact hk.callee callee outermost hc
  cases k with
  | instruction => exact hturn w _ rfl trivial
  | pause ending =>
    refine hturn _ _ (by rfl) ?_
    cases ending with
    | none => trivial
    | some e => exact fun he => hk.returned (by rw [he])
  | retire =>
    rcases leave_cases ht with hleave | ⟨id, p, -, -, hleave⟩
    · show ((w.leave t).thread t).Seated
      rw [hleave.mine]
      exact ⟨h, trivial⟩
    · show ((w.leave t).thread t).Seated
      rw [hleave]
      exact hturn w _ rfl (Role.above_interrupted _ _ _)
  | reply consumer => exact hsequel _ rfl
  | start function args consumer => exact hsequel _ rfl
  | join j consumer => exact hsequel _ rfl

/-- A step of a thread that takes no operand below its arguments keeps its seats. -/
theorem seated_step (h : (w.thread t).Seated)
    (hwithin : w.executes t = true →
      (w.thread t).vm.innermost + (w.thread t).vm.demand w.store.heap ≤ (w.thread t).vm.depth) :
    ((w.step t).thread t).Seated := by
  by_cases hidle : w.control t = .idle
  · have hstep : w.step t = w := by
      unfold World.step
      simp only [show (w.thread t).control = _ from hidle]
    rwa [hstep]
  have ht : t < w.threads.size := lt_size_of_control hidle
  have hvm := h.vm
  have hturn : ∀ (w₁ : World) c, w₁.threads = w.threads → c.Above (w.thread t).vm →
      ((w₁.setControl t c).thread t).Seated := by
    intro w₁ c hthreads hc
    rw [(becomes_setControl hthreads ht c).mine]
    exact ⟨hvm, hc⟩
  have hlater : ∀ (w₁ : World) k o, w₁.threads = w.threads → k.Above (w.thread t).vm →
      ((w₁.continueWith t k o).thread t).Seated := by
    intro w₁ k o hthreads hk
    rw [← thread_congr hthreads] at hvm hk
    exact seated_continueWith (hthreads ▸ ht) hvm hk o
  have habove : (w.control t).Above (w.thread t).vm := h.control
  unfold World.step
  simp only
  cases hc : w.control t <;> rw [hc] at habove <;> rw [executes, hc] at hwithin <;>
    simp only [show (w.thread t).control = _ from hc]
  case idle | finished | gone => exact h
  case running =>
    split
    · rename_i hframes
      rw [endRun_eq]
      refine hturn w _ rfl ?_
      cases (w.thread t).role with
      | host => trivial
      | isolate i => exact fun _ => List.isEmpty_iff.1 hframes
    split
    · exact hturn w _ rfl ⟨fun _ _ heq => (by cases heq), fun heq => by cases heq⟩
    · rename_i hrequested
      exact seated_execute ht hvm (hwithin (by simp [hrequested]))
  case stepping => exact seated_execute ht hvm (hwithin rfl)
  case rendezvous force k =>
    split
    · exact hturn _ _ (threads_park w t) habove
    · split
      · exact hlater _ _ _ (by rfl) habove
      · exact hturn _ _ (by rfl) habove
  case lingering k => exact hlater _ _ _ (threads_unpark w t) habove
  case gathering k => exact hturn w _ rfl habove
  case sweeping k => exact hlater _ _ _ (by rfl) habove
  case blocked wait k =>
    have hthreads := threads_passWait w t wait
    split <;> rename_i heq <;> rw [heq] at hthreads <;> exact hturn _ _ hthreads habove
  case waiting wait k =>
    have hthreads := threads_passWait w t wait
    split <;> rename_i heq <;> rw [heq] at hthreads
    · exact hturn _ _ hthreads habove
    · exact hlater _ _ _ hthreads habove
  case leaving o k => exact hlater _ _ _ (threads_unpark w t) habove
  case enrolling =>
    rw [((becomes_register ht).setControl ht _).mine]
    exact ⟨hvm, by cases (w.thread t).role <;> trivial⟩
  case equipping =>
    rw [((becomes_equip ht).setControl ht _).mine]
    exact ⟨.of_frames_nil rfl, by cases (w.thread t).role <;> trivial⟩
  case entering =>
    split
    · exact hturn w _ rfl trivial
    · exact seated_enter ht hvm _ _
  case pausing ending =>
    split
    · refine hturn _ _ (threads_park w t) ⟨fun _ _ heq => (by cases heq), fun heq => ?_⟩
      cases heq
      exact habove rfl
    · exact hturn _ _ (by rfl) habove
  case publishing ending =>
    split
    · exact hturn w _ rfl trivial
    · rw [(becomes_publish ht _ ending).mine]
      refine ⟨?_, trivial⟩
      cases ending with
      | returned => exact hvm.dropTop (.inr (habove rfl))
      | panicked p => exact hvm
  case resuming => exact hturn _ _ (by rfl) trivial
  case releasing =>
    split
    · exact hturn w _ rfl trivial
    · exact hturn _ _ (threads_dropRoot w _) trivial
  case retiring =>
    split
    · exact hturn _ _ (threads_park w t) ⟨fun _ _ heq => (by cases heq), fun heq => by cases heq⟩
    · exact hlater w .retire .done rfl ⟨fun _ _ heq => (by cases heq), fun heq => by cases heq⟩
  case unrooting =>
    rw [(becomes_unroot ht).mine]
    exact ⟨hvm, by cases (w.thread t).role <;> trivial⟩
  case littering n =>
    cases n with
    | zero => exact hturn w _ rfl trivial
    | succ n => exact hturn _ _ (by rfl) trivial
  case resolving agenda =>
    cases agenda with
    | nil => exact hturn w _ rfl trivial
    | cons task rest =>
      obtain ⟨d, f, v⟩ := task
      cases hr : w.store.heap.resolve f v <;> simp only [hr] <;> exact hturn _ _ (by rfl) trivial

/-- A task keeps the seats of a thread. -/
theorem seated_assign (ht : w.Spare t) (h : (w.thread t).Seated) (task : Task) :
    ((w.assign t task).thread t).Seated := by
  have hvm := h.vm
  have hturn : ∀ (w₁ : World) c, w₁.threads = w.threads → c.Above (w.thread t).vm →
      ((w₁.setControl t c).thread t).Seated := by
    intro w₁ c hthreads hc
    rw [(becomes_setControl hthreads ht.known c).mine]
    exact ⟨hvm, hc⟩
  have hhost : (After.reply .host).Above (w.thread t).vm := After.above_of_host rfl
  cases task <;> simp only [World.assign]
  case enroll => split <;> exact hturn w _ rfl trivial
  case equip | retire | run | litter => exact hturn w _ rfl trivial
  case pause =>
    split
    · exact hturn _ _ (threads_park w t) ⟨fun _ _ heq => (by cases heq), fun heq => by cases heq⟩
    · exact hturn _ _ (by rfl) trivial
  case safepoint =>
    split
    · exact hturn w _ rfl hhost
    · exact hturn w _ rfl trivial
  case call function args => exact seated_enter ht.known hvm function args
  case lock l => exact hturn w _ rfl hhost
  case nest =>
    rw [(becomes_nest ht.known).mine]
    exact ⟨hvm, hhost⟩
  case request r =>
    by_cases hr : r = .collect
    · subst hr
      exact hturn w _ rfl hhost
    · exact (Sequel.request (G := fun _ _ => True) (k := .host) ht.known r r (fun _ => hr)
        fun _ _ _ _ => trivial).seated hvm trivial

end World

/-! ### Whole runs -/

/-- A thread takes no operand below the arguments of its innermost call, and neither does the host
for it. -/
def Act.Within (t : ThreadId) (w : World) : Act → Prop
  | .step u => u = t → w.executes t = true →
      (w.thread t).vm.innermost + (w.thread t).vm.demand w.store.heap ≤ (w.thread t).vm.depth
  | .pop u => u = t → (w.thread t).vm.innermost < (w.thread t).vm.depth ∨
      (w.thread t).vm.frames = []
  | _ => True

/-- Everything that happens keeps the seats of a thread. -/
theorem Act.seated {c : Chronicle} {a : Act} {t : ThreadId} (ha : a.Orderly c)
    (hwithin : a.Within t c.world) (h : (c.world.thread t).Seated) :
    ((a.record c).world.thread t).Seated := by
  by_cases ht : t < c.world.threads.size
  swap
  · rcases Act.newcomer ha (Nat.not_lt.1 ht) with ⟨control, hnew, hcontrol⟩ | hnew
    · rw [hnew]
      refine ⟨.of_frames_nil rfl, ?_⟩
      rcases hcontrol with rfl | ⟨agenda, rfl⟩ <;> trivial
    · obtain ⟨name, i, hnew⟩ := hnew.fresh
      rw [hnew]
      exact ⟨.of_frames_nil rfl, trivial⟩
  by_cases hactor : a.actor? = some t
  swap
  · obtain ⟨n, hthread⟩ := Act.bystander ha hactor ht
    rw [hthread]
    exact ⟨h.vm, h.control⟩
  have hturn : ∀ (w₁ : World) control, w₁.threads = c.world.threads →
      control.Above (c.world.thread t).vm → ((w₁.setControl t control).thread t).Seated := by
    intro w₁ control hthreads hcontrol
    rw [(World.becomes_setControl hthreads ht control).mine]
    exact ⟨h.vm, hcontrol⟩
  have hrest : ∀ vm, c.world.Spare t → vm.Seated → ((c.world.setVm t vm).thread t).Seated := by
    intro vm hspare hvm
    rw [World.thread_setVm_self ht]
    refine ⟨hvm, ?_⟩
    show (c.world.control t).Above vm
    rcases World.control_of_atRest hspare.rests with hc | ⟨o, hc⟩ | hc <;> rw [hc] <;> trivial
  show ((a.apply c.toHosted).world.thread t).Seated
  cases a with
  | step u =>
    cases hactor
    exact World.seated_step h (hwithin rfl)
  | assign u task =>
    cases hactor
    exact World.seated_assign ha.1 h task
  | wait u what parked =>
    cases hactor
    have hhost : (After.reply .host).Above (c.world.thread t).vm := After.above_of_host rfl
    cases parked with
    | true => exact hturn _ _ (World.threads_park _ _) hhost
    | false => exact hturn _ _ rfl hhost
  | dismiss u =>
    cases hactor
    exact hturn c.world .gone rfl trivial
  | push u v =>
    cases hactor
    exact hrest _ ha (h.vm.push v)
  | pop u =>
    cases hactor
    exact hrest _ ha (h.vm.dropTop (hwithin rfl))
  | _ => cases hactor

/-- **The stack holds the code of every frame.** In every state of every run in which a thread takes
no operand below the arguments of its innermost call, the stack slot below the arguments of each of
its frames holds the code of the frame. So as long as the stack is a root, the code is live and a
collection leaves it alone. -/
theorem running_code_is_rooted (t : ThreadId) (c : Chronicle)
    (h : Run (fun c a => a.Orderly c ∧ a.Given c.toHosted ∧ a.Within t c.world) c) :
    let th := c.world.thread t
    ∀ frame ∈ th.vm.frames, 0 < frame.base ∧ th.vm.stack[frame.base - 1]? = some (.ref frame.code) ∧
      (th.root.isSome → c.world.store.heap.Live frame.code ∧
        c.world.collect.store.heap.object? frame.code = c.world.store.heap.object? frame.code) := by
  have hseated : (c.world.thread t).Seated := by
    induction h with
    | new =>
      rw [World.thread_of_size_le (Nat.zero_le t)]
      exact ⟨.of_frames_nil rfl, trivial⟩
    | act _ ha ih => exact Act.seated ha.1 ha.2.2 ih
  obtain ⟨own, hsound, -⟩ := h.sound fun _ _ ha => ha.2.1
  intro th frame hframe
  obtain ⟨hpos, hseat⟩ := hseated.vm.seat frame hframe
  refine ⟨hpos, hseat, fun hroot => ?_⟩
  have hmem : Value.ref frame.code ∈ th.vm.stack := Array.mem_of_getElem? hseat
  refine ⟨Heap.holds_ref.1 (hsound.holds_stack hroot _ hmem), ?_⟩
  exact hsound.tidy.object?_collect_of_reaches hsound.closed hsound.holds_rootValues
    (hsound.reaches_rootValues hroot (.start (Array.mem_toList_iff.2 hmem)))

/-! ### A function that nothing but the stack refers to -/

/-- A host thread with a machine calls a function that it has just made and executes its first
instruction. -/
def Chronicle.calling (instrs : Array Instr) : Chronicle :=
  [.spawn, .assign 0 .enroll, .step 0, .assign 0 .equip, .step 0,
    .make 0 (.function ⟨"fleeting", 0, #[.int 1], instrs⟩), .assign 0 (.call (.ref 11) #[]),
    .assign 0 .run, .step 0].foldl Act.record .standard

/-- The function pushes a constant: its code stays below it. -/
theorem running_code_is_rooted_calling :
    let c := Chronicle.calling #[.const 0, .ret]
    (c.world.thread 0).vm.frames = [⟨11, 1, 1⟩] ∧ (c.world.thread 0).vm.stack = #[.ref 11, .int 1] ∧
      c.world.store.heap.Live 11 ∧
      c.world.collect.store.heap.object? 11 = c.world.store.heap.object? 11 := by
  have hrun : Run (fun c a => a.Orderly c ∧ a.Given c.toHosted ∧ a.Within 0 c.world)
      (.calling #[.const 0, .ret]) := by
    refine (Run.standard _).acts ⟨⟨trivial, trivial, trivial⟩,
      ⟨⟨⟨by decide, rfl, rfl⟩, trivial⟩, ⟨rfl, trivial⟩, trivial⟩,
      ⟨rfl, trivial, fun _ h => by cases h⟩,
      ⟨⟨⟨by decide, rfl, rfl⟩, rfl⟩, ⟨rfl, trivial⟩, trivial⟩,
      ⟨rfl, trivial, fun _ h => by cases h⟩,
      ⟨trivial, ⟨rfl, by simp [Object.edges]⟩, trivial⟩,
      ⟨⟨⟨by decide, rfl, rfl⟩, rfl⟩, ⟨rfl, ⟨rfl, rfl⟩, Heap.holds_ref.2 rfl, by simp⟩, trivial⟩,
      ⟨⟨⟨by decide, rfl, rfl⟩, rfl⟩, ⟨rfl, ⟨rfl, rfl⟩⟩, trivial⟩,
      ⟨rfl, trivial, fun _ _ => by decide +kernel⟩, trivial⟩
  have hframes :
      ((Chronicle.calling #[.const 0, .ret]).world.thread 0).vm.frames = [⟨11, 1, 1⟩] := by
    decide +kernel
  obtain ⟨-, -, hrooted⟩ := running_code_is_rooted 0 _ hrun ⟨11, 1, 1⟩ (by rw [hframes]; simp)
  exact ⟨hframes, by decide +kernel, hrooted (by decide +kernel)⟩

/-- The function takes its own callee for an operand: a frame is left whose code is nowhere on the
stack, and a collection frees it. -/
theorem not_seated_calling : ¬ ∀ (t : ThreadId) (c : Chronicle),
    Run (fun c a => a.Orderly c ∧ a.Given c.toHosted) c →
    ∀ frame ∈ (c.world.thread t).vm.frames,
      (c.world.thread t).vm.stack[frame.base - 1]? = some (.ref frame.code) ∨
      ((c.world.thread t).root.isSome → c.world.collect.store.heap.Live frame.code) := by
  intro h
  have hrun :
      Run (fun c a => a.Orderly c ∧ a.Given c.toHosted) (.calling #[.pop, .const 0, .ret]) := by
    refine (Run.standard _).acts ⟨⟨trivial, trivial⟩,
      ⟨⟨⟨by decide, rfl, rfl⟩, trivial⟩, ⟨rfl, trivial⟩⟩, ⟨rfl, trivial⟩,
      ⟨⟨⟨by decide, rfl, rfl⟩, rfl⟩, ⟨rfl, trivial⟩⟩, ⟨rfl, trivial⟩,
      ⟨trivial, ⟨rfl, by simp [Object.edges]⟩⟩,
      ⟨⟨⟨by decide, rfl, rfl⟩, rfl⟩, ⟨rfl, ⟨rfl, rfl⟩, Heap.holds_ref.2 rfl, by simp⟩⟩,
      ⟨⟨⟨by decide, rfl, rfl⟩, rfl⟩, ⟨rfl, ⟨rfl, rfl⟩⟩⟩, ⟨rfl, trivial⟩, trivial⟩
  have hframes : ((Chronicle.calling #[.pop, .const 0, .ret]).world.thread 0).vm.frames =
      [⟨11, 1, 1⟩] := by decide +kernel
  have hempty : ((Chronicle.calling #[.pop, .const 0, .ret]).world.thread 0).vm.stack = #[] := by
    decide +kernel
  have hfreed : (Chronicle.calling #[.pop, .const 0, .ret]).world.collect.store.heap.object? 11 =
      none := by decide +kernel
  rcases h 0 _ hrun ⟨11, 1, 1⟩ (by rw [hframes]; simp) with hseat | hlive
  · rw [hempty] at hseat
    cases hseat
  · obtain ⟨o, ho⟩ := Heap.live_iff_object?.1 (hlive (by decide +kernel))
    rw [hfreed] at ho
    cases ho

end ScriptCore
