import ScriptCore.Proofs.Machine.Words
import ScriptCore.Proofs.World.Seats

/-!
# Calls never panic

Whatever bytecode a thread executes, as long as it calls built-in functions only: every index that
its machine computes is a word and lies in its vector, and the thread is not interrupted. It goes on
with its call, or an error object is on its stack.

* `Control.calls`, `Control.interrupted`: a thread is in a call, or a panic has ended it;
* `Thread.Steady`: what is known of the frames of a thread, and that its call is not handed a panic;
* `Run.steady`: this holds in every state of every run with room on the stacks;
* `World.Fares`: a thread has not been interrupted, and if its call has failed there is an error;
* `World.fares_step`: what becomes of a thread in a call;
* `Store.Ordinary`: built-in functions only, and no call with more arguments than can be counted;
* `calls_never_panic`: the instructions and calls of all runs.
-/

namespace ScriptCore

/-! ### Threads in a call -/

/-- A thread that goes on like this is in a call. -/
def After.calls : After → Bool
  | .instruction => true
  | .reply (.call _ _) | .start _ _ (.call _ _) | .join _ (.call _ _) => true
  | _ => false

/-- A thread with this control is in a call. -/
def Control.calls : Control → Bool
  | .running | .stepping | .entering => true
  | .rendezvous _ k | .lingering k | .gathering k | .sweeping k | .blocked _ k | .waiting _ k
  | .leaving _ k => k.calls
  | _ => false

/-- A panic has ended the call of a thread. -/
def Control.interrupted : Control → Bool
  | .finished (.panicked _) | .pausing (.panicked _) => true
  | _ => false

theorem Role.interrupted_entered (role : Role) : role.entered.interrupted = false := by
  cases role <;> rfl

theorem Role.interrupted_ended (role : Role) : role.ended.interrupted = false := by
  cases role <;> rfl

/-! ### What is known of a thread -/

/-- What a thread that leaves a blocking region goes on with. -/
def Control.outcome? : Control → Option (Outcome × After)
  | .leaving o k => some (o, k)
  | _ => none

/-- The frames of a thread are as frames are, and its call is not handed a panic. -/
structure Thread.Steady (h : Heap) (th : Thread) : Prop where
  frames : th.vm.Framed h
  outcome : ∀ p k, th.control.outcome? = some (.panicked p, k) → k.calls = false

theorem Thread.Steady.of_control {h : Heap} {th : Thread} (hframes : th.vm.Framed h)
    (hcontrol : th.control.outcome? = none) : th.Steady h :=
  ⟨hframes, fun p k heq => by rw [hcontrol] at heq; cases heq⟩

theorem Role.outcome?_entered (role : Role) : role.entered.outcome? = none := by
  cases role <;> rfl

theorem Role.outcome?_ended (role : Role) : role.ended.outcome? = none := by
  cases role <;> rfl

theorem Role.outcome?_interrupted (role : Role) (p : Panic) :
    (role.interrupted p).outcome? = none := by
  cases role <;> rfl

theorem Vm.frames_receive (me : Caller) (callee : Nat) (vm : Vm) (s : Store) (o : Outcome) :
    (vm.receive me callee s o).1.frames = vm.frames := by
  cases o <;> rfl

/-- A thread at work keeps its frames or loses them all. -/
theorem Leads.steady {G : Outcome → Store → Prop} {me : Caller} {role : Role} {p : Pending}
    {x y : Vm × Store} {c : Control} (hl : Leads G me role p x y c) {h : Heap}
    (hx : x.1.Framed h) : y.1.Framed h ∧ c.outcome? = none := by
  induction hl with
  | next =>
    refine ⟨hx, ?_⟩
    split
    · exact role.outcome?_entered
    · rfl
  | failed =>
    refine ⟨.of_frames_nil rfl, ?_⟩
    split
    · exact role.outcome?_entered
    · exact role.outcome?_ended
  | panicked | hostPanics => exact ⟨hx, role.outcome?_interrupted _⟩
  | receives _ _ _ ih => exact ih (hx.of_frames (Vm.frames_receive _ _ _ _ _))
  | collects | blocks | finishes | hostBlocks => exact ⟨hx, rfl⟩

namespace World

variable {G : Outcome → Store → Prop} {w w₁ w' : World} {t : ThreadId} {h : Heap}

theorem Sequel.steady {p : Pending} {vm : Vm} {held : List RootId}
    (hs : Sequel G t p vm held w w') (hvm : vm.Framed h) : (w'.thread t).Steady h := by
  obtain ⟨vm', c, hmine, hleads⟩ := hs.mine
  obtain ⟨hframes, hcontrol⟩ := hleads.steady hvm
  rw [hmine]
  exact .of_control hframes hcontrol

/-- The thread turns to something else. -/
theorem steady_setControl (hthreads : w₁.threads = w.threads) (ht : t < w.threads.size)
    (hvm : (w.thread t).vm.Framed h) {c : Control} (hc : c.outcome? = none) :
    ((w₁.setControl t c).thread t).Steady h := by
  rw [(becomes_setControl hthreads ht c).mine]
  exact .of_control hvm hc

theorem steady_execute (ht : t < w.threads.size) (hvm : (w.thread t).vm.Framed w.store.heap)
    (hdepth : (w.thread t).vm.depth < UInt64.size) :
    ((w.execute t).thread t).Steady w.store.heap :=
  (Sequel.execute (G := fun _ _ => True) ht fun _ _ _ _ => trivial).steady (hvm.step hdepth)

theorem steady_enter (ht : t < w.threads.size) (hvm : (w.thread t).vm.Framed w.store.heap)
    {function : Value} {args : Array Value}
    (hroom : (w.thread t).vm.depth + 1 + args.size < UInt64.size) :
    ((w.enter t function args).thread t).Steady w.store.heap :=
  (Sequel.enter (G := fun _ _ => True) ht function args fun _ _ _ _ => trivial).steady
    (hvm.enter hroom)

theorem steady_continueWith (ht : t < w.threads.size) (hvm : (w.thread t).vm.Framed h) (k : After)
    (o : Outcome) : ((w.continueWith t k o).thread t).Steady h := by
  have hsequel : ∀ consumer, k.consumer? = some consumer →
      ((w.continueWith t k o).thread t).Steady h := fun consumer hc =>
    (Sequel.continueWith (G := fun _ _ => True) ht .collect hc o fun _ _ _ _ => trivial).steady hvm
  cases k with
  | instruction => exact steady_setControl rfl ht hvm rfl
  | pause ending =>
    refine steady_setControl (by rfl) ht hvm ?_
    cases ending <;> rfl
  | retire =>
    rcases leave_cases ht with hleave | ⟨id, p, -, -, hleave⟩
    · show ((w.leave t).thread t).Steady h
      rw [hleave.mine]
      exact .of_control hvm rfl
    · show ((w.leave t).thread t).Steady h
      rw [hleave]
      exact steady_setControl rfl ht hvm (Role.outcome?_interrupted _ _)
  | reply consumer => exact hsequel _ rfl
  | start function args consumer => exact hsequel _ rfl
  | join j consumer => exact hsequel _ rfl

/-- The arguments that a thread lays out in its next step. -/
def arguments (w : World) (t : ThreadId) : Nat :=
  match w.control t, (w.thread t).role with
  | .entering, .isolate i => i.args.size
  | _, _ => 0

/-- No wait ends in a panic. -/
theorem passWait_ne_panicked (w : World) (t : ThreadId) (wait : Wait) (p : Panic) :
    (w.passWait t wait).2 ≠ .inr (.panicked p) := by
  cases wait with
  | resolved f | resolvedBy f =>
    simp only [passWait]
    split <;> simp
  | lock l phase =>
    simp only [passWait]
    cases ((w.store.lock l).advance t phase).2 <;> simp
  | _ => simp [passWait]

/-- A step keeps what is known of a thread. -/
theorem steady_step (hs : (w.thread t).Steady w.store.heap)
    (hroom : (w.thread t).vm.depth + 1 + w.arguments t < UInt64.size) :
    ((w.step t).thread t).Steady w.store.heap := by
  by_cases hidle : w.control t = .idle
  · have hstep : w.step t = w := by
      unfold World.step
      simp only [show (w.thread t).control = _ from hidle]
    rwa [hstep]
  have ht : t < w.threads.size := lt_size_of_control hidle
  have hvm := hs.frames
  have hdepth : (w.thread t).vm.depth < UInt64.size := by omega
  have hturn : ∀ (w₁ : World) c, w₁.threads = w.threads → c.outcome? = none →
      ((w₁.setControl t c).thread t).Steady w.store.heap := fun w₁ c hthreads hc =>
    steady_setControl hthreads ht hvm hc
  have hlater : ∀ (w₁ : World) k o, w₁.threads = w.threads →
      ((w₁.continueWith t k o).thread t).Steady w.store.heap := by
    intro w₁ k o hthreads
    rw [← thread_congr hthreads] at hvm
    exact steady_continueWith (hthreads ▸ ht) hvm k o
  unfold World.step
  simp only
  cases hc : w.control t <;> simp only [show (w.thread t).control = _ from hc]
  case idle | finished | gone => exact hs
  case running =>
    split
    · rw [endRun_eq]
      exact hturn w _ rfl (Role.outcome?_ended _)
    split
    · exact hturn w _ rfl rfl
    · exact steady_execute ht hvm hdepth
  case stepping => exact steady_execute ht hvm hdepth
  case rendezvous force k =>
    split
    · exact hturn _ _ (threads_park w t) rfl
    · split
      · exact hlater _ _ _ (by rfl)
      · exact hturn _ _ (by rfl) rfl
  case lingering k => exact hlater _ _ _ (threads_unpark w t)
  case gathering k => exact hturn w _ rfl rfl
  case sweeping k => exact hlater _ _ _ (by rfl)
  case blocked wait k =>
    have hthreads := threads_passWait w t wait
    have hpass := passWait_ne_panicked w t wait
    split <;> rename_i heq <;> rw [heq] at hthreads hpass
    · exact hturn _ _ hthreads rfl
    · rw [(becomes_setControl hthreads ht _).mine]
      refine ⟨hvm, fun p k hleaving => ?_⟩
      cases hleaving
      exact absurd rfl (hpass p)
  case waiting wait k =>
    have hthreads := threads_passWait w t wait
    split <;> rename_i heq <;> rw [heq] at hthreads
    · exact hturn _ _ hthreads rfl
    · exact hlater _ _ _ hthreads
  case leaving o k => exact hlater _ _ _ (threads_unpark w t)
  case enrolling =>
    rw [((becomes_register ht).setControl ht _).mine]
    exact .of_control hvm (by cases (w.thread t).role <;> rfl)
  case equipping =>
    rw [((becomes_equip ht).setControl ht _).mine]
    exact .of_control (.of_frames_nil rfl) (by cases (w.thread t).role <;> rfl)
  case entering =>
    split
    · exact hturn w _ rfl rfl
    · rename_i i hrole
      exact steady_enter ht hvm (by simpa [arguments, hc, hrole] using hroom)
  case pausing ending =>
    split
    · exact hturn _ _ (threads_park w t) rfl
    · exact hturn (w.modifySync (·.pause)) _ rfl rfl
  case publishing ending =>
    split
    · exact hturn w _ rfl rfl
    · rw [(becomes_publish ht _ ending).mine]
      exact .of_control (by cases ending <;> exact hvm) rfl
  case resuming => exact hturn _ _ (by rfl) rfl
  case releasing =>
    split
    · exact hturn w _ rfl rfl
    · exact hturn _ _ (threads_dropRoot w _) rfl
  case retiring =>
    split
    · exact hturn _ _ (threads_park w t) rfl
    · exact hlater w .retire .done rfl
  case unrooting =>
    rw [(becomes_unroot ht).mine]
    exact .of_control hvm (by cases (w.thread t).role <;> rfl)
  case littering n =>
    cases n with
    | zero => exact hturn w _ rfl rfl
    | succ n => exact hturn _ _ (by rfl) rfl
  case resolving agenda =>
    cases agenda with
    | nil => exact hturn w _ rfl rfl
    | cons task rest =>
      obtain ⟨d, f, v⟩ := task
      cases hr : w.store.heap.resolve f v <;> simp only [hr] <;> exact hturn _ _ (by rfl) rfl

/-- A task keeps what is known of a thread. -/
theorem steady_assign (ht : w.Spare t) (hvm : (w.thread t).vm.Framed w.store.heap) (task : Task)
    (hroom : ∀ function args, task = .call function args →
      (w.thread t).vm.depth + 1 + args.size < UInt64.size) :
    ((w.assign t task).thread t).Steady w.store.heap := by
  have hturn : ∀ (w₁ : World) c, w₁.threads = w.threads → c.outcome? = none →
      ((w₁.setControl t c).thread t).Steady w.store.heap := fun w₁ c hthreads hc =>
    steady_setControl hthreads ht.known hvm hc
  cases task <;> simp only [World.assign]
  case enroll => split <;> exact hturn w _ rfl rfl
  case equip | retire | run | litter => exact hturn w _ rfl rfl
  case pause =>
    split
    · exact hturn _ _ (threads_park w t) rfl
    · exact hturn (w.modifySync (·.pause)) _ rfl rfl
  case safepoint => split <;> exact hturn w _ rfl rfl
  case call function args => exact steady_enter ht.known hvm (hroom function args rfl)
  case lock l => exact hturn w _ rfl rfl
  case nest =>
    rw [(becomes_nest ht.known).mine]
    refine ⟨hvm, fun p k heq => ?_⟩
    cases heq
    rfl
  case request r =>
    by_cases hr : r = .collect
    · subst hr
      exact hturn w _ rfl rfl
    · exact (Sequel.request (G := fun _ _ => True) (k := .host) ht.known r r (fun _ => hr)
        fun _ _ _ _ => trivial).steady hvm

end World

/-- The depth of a stack with one more value on it, or with the call that is laid out. -/
def Act.height (w : World) : Act → Nat
  | .step t => (w.thread t).vm.depth + 1 + w.arguments t
  | .assign t (.call _ args) => (w.thread t).vm.depth + 1 + args.size
  | _ => 0

/-- There is room for that on the stack. -/
def Act.HasRoom (w : World) (a : Act) : Prop := a.height w ≤ vectorLimit

theorem lt_size_of_le_vectorLimit {n : Nat} (h : n ≤ vectorLimit) : n < UInt64.size :=
  lt_of_le_of_lt h (by decide)

/-- Everything that happens keeps what is known of a thread. -/
theorem Act.steady {c : Chronicle} {a : Act} {t : ThreadId} (ha : a.Orderly c)
    (hroom : a.HasRoom c.world) (h : (c.world.thread t).Steady c.world.store.heap) :
    ((a.record c).world.thread t).Steady (a.record c).world.store.heap := by
  -- it is enough to look at the heap there was: code stays code
  suffices hnow : ((a.record c).world.thread t).Steady c.world.store.heap from
    ⟨hnow.frames.keepsCode (Act.lasts ha).keepsCode, hnow.outcome⟩
  by_cases ht : t < c.world.threads.size
  swap
  · rcases Act.newcomer ha (Nat.not_lt.1 ht) with ⟨control, hnew, hcontrol⟩ | hnew
    · rw [hnew]
      rcases hcontrol with rfl | ⟨agenda, rfl⟩ <;> exact .of_control (.of_frames_nil rfl) rfl
    · obtain ⟨name, i, hnew⟩ := hnew.fresh
      rw [hnew]
      exact .of_control (.of_frames_nil rfl) rfl
  by_cases hactor : a.actor? = some t
  swap
  · obtain ⟨n, hthread⟩ := Act.bystander ha hactor ht
    rw [hthread]
    exact ⟨h.frames, h.outcome⟩
  have hrest : ∀ vm, c.world.Spare t → vm.frames = (c.world.thread t).vm.frames →
      ((c.world.setVm t vm).thread t).Steady c.world.store.heap := by
    intro vm hspare hframes
    rw [World.thread_setVm_self ht]
    refine .of_control (h.frames.of_frames hframes) ?_
    show (c.world.control t).outcome? = none
    rcases World.control_of_atRest hspare.rests with hc | ⟨o, hc⟩ | hc <;> rw [hc] <;> rfl
  show ((a.apply c.toHosted).world.thread t).Steady c.world.store.heap
  cases a with
  | step u =>
    cases hactor
    exact World.steady_step h (lt_size_of_le_vectorLimit hroom)
  | assign u task =>
    cases hactor
    refine World.steady_assign ha.1 h.frames task fun function args heq => ?_
    subst heq
    exact lt_size_of_le_vectorLimit hroom
  | wait u what parked =>
    cases hactor
    cases parked with
    | true => exact World.steady_setControl (World.threads_park _ _) ht h.frames rfl
    | false => exact World.steady_setControl rfl ht h.frames rfl
  | dismiss u =>
    cases hactor
    exact World.steady_setControl (by rfl) ht h.frames rfl
  | push u v =>
    cases hactor
    exact hrest _ ha rfl
  | pop u =>
    cases hactor
    exact hrest _ ha rfl
  | _ => cases hactor

/-- What is known of threads holds in every state of every run with room on the stacks. -/
theorem Run.steady {ok : Chronicle → Act → Prop} {c : Chronicle} (h : Run ok c)
    (hok : ∀ c a, ok c a → a.Orderly c ∧ a.HasRoom c.world) (t : ThreadId) :
    (c.world.thread t).Steady c.world.store.heap := by
  induction h with
  | new =>
    rw [World.thread_of_size_le (Nat.zero_le t)]
    exact .of_control (.of_frames_nil rfl) rfl
  | act _ ha ih => exact Act.steady (hok _ _ ha).1 (hok _ _ ha).2 ih

/-! ### No step of a call ends in a panic -/

/-- Isolates can be given their names: what these begin with holds no zero character. -/
def Store.Nameable (s : Store) : Prop := Char.ofNat 0 ∉ s.isolates.nameStem.toList

theorem Store.Nameable.threadName {s : Store} (h : s.Nameable) (id : Nat) :
    (s.isolates.threadName id).toList.contains (Char.ofNat 0) = false := by
  have hdigits : Char.ofNat 0 ∉ (toString id).toList := by
    intro hmem
    rw [Nat.toString_eq_repr, Nat.toList_repr] at hmem
    have hdigit := Nat.isDigit_of_mem_toDigits (by decide) (by decide) hmem
    revert hdigit
    decide
  rw [List.contains_eq_mem, decide_eq_false_iff_not]
  simp only [IsolateSettings.threadName, String.toList_append, List.mem_append, not_or]
  exact ⟨⟨h, by decide⟩, hdigits⟩

namespace World

variable {w w₁ : World} {t : ThreadId}

theorem interrupted_setControl (w : World) (t : ThreadId) {c : Control}
    (hc : c.interrupted = false) : ((w.setControl t c).control t).interrupted = false := by
  by_cases ht : t < w.threads.size
  · rw [control, (becomes_setControl rfl ht c).mine]
    exact hc
  · rw [control, thread_of_size_le (by simpa [setControl] using ht)]
    rfl

theorem unharmed_proceed (w : World) (t : ThreadId) (outermost : Bool) (vm : Vm)
    (e : Option Cause) : ((w.proceed t outermost vm e).control t).interrupted = false := by
  cases e with
  | none =>
    simp only [proceed, endEnter_eq]
    split
    · exact interrupted_setControl _ _ (Role.interrupted_entered _)
    · exact interrupted_setControl _ _ rfl
  | some e =>
    simp only [proceed, endEnter_eq, endRun_eq]
    split
    · exact interrupted_setControl _ _ (Role.interrupted_entered _)
    · exact interrupted_setControl _ _ (Role.interrupted_ended _)

theorem unharmed_deliver (w : World) (t : ThreadId) (callee : Nat) (outermost : Bool) {o : Outcome}
    (ho : ∀ p, o ≠ .panicked p) :
    ((w.deliver t (.call callee outermost) o).control t).interrupted = false := by
  cases o with
  | panicked p => exact absurd rfl (ho p)
  | _ => exact unharmed_proceed _ _ _ _ _

theorem unharmed_launch (hnames : w.store.Nameable) (function : Value) (args : Array Value)
    (callee : Nat) (outermost : Bool) :
    ((w.launch t function args (.call callee outermost)).control t).interrupted = false := by
  unfold launch
  simp only
  rw [if_neg]
  swap
  · have hname := hnames.threadName w.store.spawned
    exact fun htrue => Bool.false_ne_true (hname.symm.trans htrue)
  split
  · exact unharmed_deliver _ _ _ _ (by simp)
  · exact unharmed_deliver _ _ _ _ (by simp)

theorem unharmed_joinPass (w : World) (t : ThreadId) (j : Join) (callee : Nat) (outermost : Bool) :
    ((w.joinPass t j (.call callee outermost)).control t).interrupted = false := by
  rcases joinPass_cases w t j (.call callee outermost) with ⟨vs, heq⟩ | ⟨vs, wait, pending, heq⟩
  · rw [heq]
    exact unharmed_deliver _ _ _ _ (by simp)
  · rw [heq]
    exact interrupted_setControl _ _ rfl

theorem unharmed_request (w : World) (t : ThreadId) (r : Request) (callee : Nat)
    (outermost : Bool) :
    ((w.request t r (.call callee outermost)).control t).interrupted = false := by
  cases r with
  | join fs poll tagged =>
    simp only [request, joinStart]
    split
    · exact unharmed_deliver _ _ _ _ (by simp)
    · exact unharmed_deliver _ _ _ _ (by simp)
    · exact unharmed_joinPass _ _ _ _ _
  | _ => exact interrupted_setControl _ _ rfl

theorem unharmed_afterSignal (w : World) (t : ThreadId) (outermost : Bool) (vm : Vm)
    {signal : Signal} (hsignal : ∀ p, signal ≠ .panicked p) :
    ((w.afterSignal t outermost vm signal).control t).interrupted = false := by
  cases signal with
  | next | failed => exact unharmed_proceed _ _ _ _ _
  | panicked p => exact absurd rfl (hsignal p)
  | suspended callee r => exact unharmed_request _ _ _ _ _

theorem unharmed_continueWith (hnames : w.store.Nameable) {k : After} (hk : k.calls = true)
    {o : Outcome} (ho : ∀ p, o ≠ .panicked p) :
    ((w.continueWith t k o).control t).interrupted = false := by
  unfold After.calls at hk
  split at hk
  · exact interrupted_setControl _ _ rfl
  · exact unharmed_deliver _ _ _ _ ho
  · exact unharmed_launch hnames _ _ _ _
  · exact unharmed_joinPass _ _ _ _ _
  · cases hk

theorem nameable_unpark (hnames : w.store.Nameable) : (w.unpark t).store.Nameable := by
  unfold unpark
  split <;> exact hnames

theorem nameable_passWait (hnames : w.store.Nameable) (wait : Wait) :
    (w.passWait t wait).1.store.Nameable := by
  cases wait with
  | resolved f | resolvedBy f d =>
    simp only [passWait]
    split <;> exact hnames
  | _ => exact hnames

/-! ### Calls that fail -/

/-- The call of a thread has failed: its error flag is up, and an error object is on top of its
stack. -/
structure Erred (w : World) (t : ThreadId) : Prop where
  error : (w.thread t).vm.error = true
  frames : (w.thread t).vm.frames = []
  top : ∃ c f, (w.thread t).vm.peek? = some (.ref c) ∧ w.store.heap.object? c = some (.error f)

/-- A thread has not been interrupted, and if its error flag is up it was so before or its call has
failed. -/
structure Fares (t : ThreadId) (error : Bool) (w : World) : Prop where
  control : (w.control t).interrupted = false
  failed : (w.thread t).vm.error = error ∨ w.Erred t

end World

/-- Instructions leave the error flag alone. -/
theorem Vm.error_step (me : Caller) (vm : Vm) (s : Store) :
    (vm.step me s).1.error = vm.error := by
  cases hframes : vm.frames with
  | nil => rw [Vm.step, hframes]
  | cons frame rest =>
    rcases Vm.step_cases me s hframes with ⟨ip, ht⟩ | ⟨v, hv⟩
    · exact ht.error
    · rw [hv]

/-- A thread at work leaves its error flag alone or puts it up with an error object. -/
theorem Leads.erred {G : Outcome → Store → Prop} {me : Caller} {role : Role} {p : Pending}
    {x y : Vm × Store} {c : Control} (hl : Leads G me role p x y c) :
    y.1.error = x.1.error ∨ y.1.error = true ∧ y.1.frames = [] ∧
      ∃ d f, y.1.peek? = some (.ref d) ∧ y.2.heap.object? d = some (.error f) := by
  induction hl with
  | @failed vm s e =>
    refine .inr ⟨rfl, rfl, s.heap.size, e.failure, by simp [Vm.fail, Vm.push, Vm.peek?]; rfl, ?_⟩
    exact (Heap.object?_alloc _ _ _).trans (if_pos rfl)
  | @receives vm s s₁ y callee q outermost o c _ _ _ ih =>
    have hsame : (vm.receive me callee s₁ o).1.error = vm.error := by cases o <;> rfl
    rwa [hsame] at ih
  | _ => exact .inl rfl

namespace World

variable {w w₁ w' : World} {t : ThreadId}

theorem Sequel.failed {G : Outcome → Store → Prop} {p : Pending} {vm : Vm} {held : List RootId}
    (hs : Sequel G t p vm held w w') : (w'.thread t).vm.error = vm.error ∨ w'.Erred t := by
  obtain ⟨vm', c, hmine, hleads⟩ := hs.mine
  rcases hleads.erred with herror | ⟨herror, hframes, htop⟩
  · exact .inl (by rw [hmine]; exact herror)
  · refine .inr ⟨?_, ?_, ?_⟩ <;> rw [hmine]
    · exact herror
    · exact hframes
    · exact htop

/-- The thread turns to something else. -/
theorem fares_setControl (hthreads : w₁.threads = w.threads) (ht : t < w.threads.size) {c : Control}
    (hc : c.interrupted = false) : (w₁.setControl t c).Fares t (w.thread t).vm.error := by
  refine ⟨interrupted_setControl w₁ t hc, .inl ?_⟩
  rw [(becomes_setControl hthreads ht c).mine]

theorem fares_execute (ht : t < w.threads.size)
    (hstep : ∀ p, ((w.thread t).vm.step ((w.thread t).caller t) w.store).2.2 ≠ .panicked p) :
    (w.execute t).Fares t (w.thread t).vm.error := by
  refine ⟨unharmed_afterSignal _ _ _ _ hstep, ?_⟩
  have hfailed := (Sequel.execute (G := fun _ _ => True) ht fun _ _ _ _ => trivial).failed
  rwa [Vm.error_step] at hfailed

theorem fares_enter (ht : t < w.threads.size) {function : Value} {args : Array Value}
    (henter : ∀ p, ((w.thread t).vm.enter ((w.thread t).caller t) function args w.store).2.2 ≠
      .panicked p) :
    (w.enter t function args).Fares t false := by
  refine ⟨unharmed_afterSignal _ _ _ _ henter, ?_⟩
  have hfailed :=
    (Sequel.enter (G := fun _ _ => True) ht function args fun _ _ _ _ => trivial).failed
  have herror : ((w.thread t).vm.enter ((w.thread t).caller t) function args w.store).1.error =
      false := (Vm.trims_invoke _).error
  rwa [herror] at hfailed

theorem fares_continueWith (hthreads : w₁.threads = w.threads) (ht : t < w.threads.size)
    (hnames : w₁.store.Nameable) {k : After} (hk : k.calls = true) {o : Outcome}
    (ho : ∀ p, o ≠ .panicked p) : (w₁.continueWith t k o).Fares t (w.thread t).vm.error := by
  refine ⟨unharmed_continueWith hnames hk ho, ?_⟩
  rw [← thread_congr hthreads]
  cases k with
  | instruction => exact (fares_setControl (w := w₁) rfl (hthreads ▸ ht) rfl).failed
  | reply k | start function args k | join j k =>
    exact (Sequel.continueWith (G := fun _ _ => True) (hthreads ▸ ht) .collect rfl o
      fun _ _ _ _ => trivial).failed
  | pause | retire => cases hk

/-- A step of a thread in a call: the thread goes on, or its call has failed. -/
theorem fares_step (hs : (w.thread t).Steady w.store.heap) (hnames : w.store.Nameable)
    (hcalls : (w.control t).calls = true) (hentering : w.control t ≠ .entering)
    (hstep : w.executes t = true → ∀ p,
      ((w.thread t).vm.step ((w.thread t).caller t) w.store).2.2 ≠ .panicked p) :
    (w.step t).Fares t (w.thread t).vm.error := by
  have ht : t < w.threads.size := by
    refine lt_size_of_control fun hidle => ?_
    rw [hidle] at hcalls
    cases hcalls
  unfold World.step
  simp only
  cases hc : w.control t <;> rw [hc] at hcalls <;> first | cases hcalls | skip
  all_goals
    rw [executes, hc] at hstep
    simp only [show (w.thread t).control = _ from hc]
  case running =>
    split
    · rw [endRun_eq]
      exact fares_setControl rfl ht (Role.interrupted_ended _)
    split
    · exact fares_setControl rfl ht rfl
    · rename_i hrequested
      exact fares_execute ht (hstep (by simp [hrequested]))
  case stepping => exact fares_execute ht (hstep rfl)
  case rendezvous force k =>
    split
    · exact fares_setControl (threads_park w t) ht rfl
    · split
      · refine fares_continueWith ?_ ht ?_ hcalls (by simp) <;> [rfl; exact hnames]
      · exact fares_setControl (by rfl) ht rfl
  case lingering k =>
    exact fares_continueWith (threads_unpark w t) ht (nameable_unpark hnames) hcalls (by simp)
  case gathering k => exact fares_setControl rfl ht rfl
  case sweeping k => refine fares_continueWith ?_ ht ?_ hcalls (by simp) <;> [rfl; exact hnames]
  case blocked wait k =>
    have hthreads := threads_passWait w t wait
    split <;> rename_i heq <;> rw [heq] at hthreads <;> exact fares_setControl hthreads ht rfl
  case waiting wait k =>
    have hthreads := threads_passWait w t wait
    have hpass := passWait_ne_panicked w t wait
    have hnames := nameable_passWait (t := t) hnames wait
    split <;> rename_i heq <;> rw [heq] at hthreads hpass hnames
    · exact fares_setControl hthreads ht rfl
    · refine fares_continueWith hthreads ht hnames hcalls fun p hp => hpass p ?_
      rw [hp]
  case leaving o k =>
    refine fares_continueWith (threads_unpark w t) ht (nameable_unpark hnames) hcalls
      fun p hp => ?_
    have hfalse := hs.outcome p k (by rw [show (w.thread t).control = _ from hc, hp]; rfl)
    rw [show k.calls = true from hcalls] at hfalse
    cases hfalse
  case entering => exact absurd hc hentering

end World

/-! ### Every instruction and every call -/

/-- A native function is built in. Code has as many instructions as a vector holds, and no call has
more arguments than can be counted together with its callee. -/
def Object.ordinary : Object → Bool
  | .native f => decide (f ∈ Native.builtIn)
  | .function code => decide (code.instrs.size ≤ vectorLimit) && code.instrs.all fun
      | .call argc => decide (argc.toNat + 1 < UInt64.size)
      | _ => true
  | _ => true

/-- All objects are of that kind, and isolates can be given their names. -/
structure Store.Ordinary (s : Store) : Prop where
  objects : ∀ c o, s.heap.object? c = some o → o.ordinary = true
  names : s.Nameable

namespace Store.Ordinary

variable {s : Store} {c : CellId}

theorem natives (h : s.Ordinary) {f : Native} (ho : s.heap.object? c = some (.native f)) :
    f ∈ Native.builtIn := by
  simpa [Object.ordinary] using h.objects c _ ho

theorem instrs (h : s.Ordinary) {code : Code} (ho : s.heap.object? c = some (.function code)) :
    code.instrs.size ≤ vectorLimit := by
  have hordinary := h.objects c _ ho
  simp only [Object.ordinary, Bool.and_eq_true, decide_eq_true_eq] at hordinary
  exact hordinary.1

theorem calls (h : s.Ordinary) {code : Code} {argc : UInt64}
    (ho : s.heap.object? c = some (.function code)) (hmem : .call argc ∈ code.instrs) :
    argc.toNat + 1 < UInt64.size := by
  have hordinary := h.objects c _ ho
  simp only [Object.ordinary, Bool.and_eq_true, Array.all_eq_true_iff_forall_mem] at hordinary
  simpa using hordinary.2 _ hmem

/-- It is enough to look at the cells there are. -/
theorem of_cells
    (hcells : ∀ c < s.heap.size, ((s.heap.object? c).all Object.ordinary) = true)
    (hnames : s.Nameable) : s.Ordinary := by
  refine ⟨fun c o ho => ?_, hnames⟩
  have hcell := hcells c (Heap.lt_size_of_object? ho)
  rwa [ho] at hcell

end Store.Ordinary

theorem Vm.exists_of_current? {vm : Vm} {h : Heap} {instr : Instr}
    (hi : vm.current? h = some instr) :
    ∃ c code, h.object? c = some (.function code) ∧ instr ∈ code.instrs := by
  unfold current? at hi
  split at hi
  · cases hi
  · split at hi
    · exact ⟨_, _, ‹_›, Array.mem_of_getElem? hi⟩
    · cases hi

/-- A thread in a call has a machine whose stack is a root. -/
theorem World.Sound.equipped_of_calls {w : World} {own : Ledger} {t : ThreadId}
    (h : w.Sound own none) (hcalls : (w.control t).calls = true) : (w.thread t).Equipped := by
  have hstands := h.stands t (by simp)
  have hconsumer : ∀ k : After, k.calls = true → k.Stands own t (w.thread t) →
      (w.thread t).Equipped := by
    intro k hk hs
    unfold After.calls at hk
    split at hk
    · cases hs
    · exact hs
    · exact hs.1
    · exact hs.1
    · cases hk
  have hrejoins : ∀ k : After, k.calls = true → k.Rejoins (w.thread t) →
      (w.thread t).Equipped := by
    intro k hk hs
    unfold After.calls at hk
    split at hk
    · exact hs
    · exact hs
    · cases hs
    · cases hs
    · cases hk
  rw [World.control] at hcalls
  cases hc : (w.thread t).control <;> rw [hc] at hcalls hstands
  case running | stepping => exact hstands
  case entering => exact hstands.1
  case rendezvous force k => exact hrejoins k hcalls hstands
  case lingering k | gathering k | sweeping k => exact hrejoins k hcalls hstands
  case blocked wait k | waiting wait k | leaving o k => exact hconsumer k hcalls hstands.1
  all_goals cases hcalls

/-- **Bytecode cannot panic its machine.** In every state of every run whose stacks have room, with
built-in functions only: an instruction of a thread in a call computes all its indices on words and
finds them in their vectors, and the thread goes on or its call has failed with an error object on
the stack. The same holds for every call that is laid out, whatever is called and with whatever
arguments. -/
theorem calls_never_panic (c : Chronicle)
    (h : Run (fun c a => a.Orderly c ∧ a.Given c.toHosted ∧ a.HasRoom c.world) c)
    (hordinary : c.world.store.Ordinary) (t : ThreadId) :
    let w := c.world
    let th := w.thread t
    let me := th.caller t
    (th.control.calls = true → th.control ≠ .entering → (Act.step t).HasRoom w →
      (w.executes t = true → th.vm.current? w.store.heap = some .raise →
        ∀ v, th.vm.peek? = some v → w.store.heap.Acyclic v) →
      th.vm.step? me w.store = some (th.vm.step me w.store) ∧
        (w.step t).Fares t th.vm.error) ∧
    ∀ function args, t < w.threads.size → th.vm.depth + 1 + args.size ≤ vectorLimit →
      th.vm.enter? me function args w.store = some (th.vm.enter me function args w.store) ∧
        (w.enter t function args).Fares t false := by
  intro w th me
  have hsteady := h.steady (fun _ _ ha => ⟨ha.1, ha.2.2⟩) t
  obtain ⟨own, hsound, -⟩ := h.sound fun _ _ ha => ha.2.1
  have hargc : ∀ argc, th.vm.current? w.store.heap = some (.call argc) →
      argc.toNat + 1 < UInt64.size := by
    intro argc hcurrent
    obtain ⟨d, code, ho, hmem⟩ := Vm.exists_of_current? hcurrent
    exact hordinary.calls ho hmem
  refine ⟨fun hcalls hentering hroom hraise => ⟨?_, ?_⟩, fun function args ht hroom => ⟨?_, ?_⟩⟩
  · refine Vm.step?_eq hsteady.frames (lt_size_of_le_vectorLimit ?_) (fun d code ho => ?_) hargc
    · exact le_trans (by omega) (show th.vm.depth + 1 + w.arguments t ≤ vectorLimit from hroom)
    · exact lt_of_le_of_lt (Nat.succ_le_succ (hordinary.instrs ho)) (by decide)
  · refine World.fares_step hsteady hordinary.names hcalls hentering fun hexecutes p => ?_
    have hstack := hsound.holds_stack (hsound.equipped_of_calls hcalls).2
    exact Vm.step_ne_panicked hargc (fun _ _ => hordinary.natives) fun hcurrent v hv =>
      ⟨hsound.closed, hstack.peek? hv, hraise hexecutes hcurrent v hv⟩
  · exact Vm.enter?_eq (lt_size_of_le_vectorLimit hroom)
  · exact World.fares_enter ht fun p =>
      Vm.enter_ne_panicked (lt_size_of_le_vectorLimit (by omega)) fun _ _ => hordinary.natives

/-! ### Calls with very many arguments -/

/-- A host thread is about to execute the first instruction of a function that it has made. -/
def Chronicle.about (instrs : Array Instr) : Chronicle :=
  [.spawn, .assign 0 .enroll, .step 0, .assign 0 .equip, .step 0,
    .make 0 (.function ⟨"many", 0, #[], instrs⟩), .assign 0 (.call (.ref 11) #[]),
    .assign 0 .run].foldl Act.record .standard

theorem run_about (instrs : Array Instr) :
    Run (fun c a => a.Orderly c ∧ a.Given c.toHosted ∧ a.HasRoom c.world) (.about instrs) := by
  have hone : 1 ≤ vectorLimit := by decide
  refine (Run.standard _).acts ⟨⟨trivial, trivial, Nat.zero_le _⟩,
    ⟨⟨⟨by decide, rfl, rfl⟩, trivial⟩, ⟨rfl, trivial⟩, Nat.zero_le _⟩, ⟨rfl, trivial, hone⟩,
    ⟨⟨⟨by decide, rfl, rfl⟩, rfl⟩, ⟨rfl, trivial⟩, Nat.zero_le _⟩, ⟨rfl, trivial, hone⟩,
    ⟨trivial, ⟨rfl, by simp [Object.edges]⟩, Nat.zero_le _⟩,
    ⟨⟨⟨Nat.one_pos, rfl, rfl⟩, rfl⟩, ⟨rfl, ⟨rfl, rfl⟩, Heap.holds_ref.2 rfl, by simp⟩, hone⟩,
    ⟨⟨⟨Nat.one_pos, rfl, rfl⟩, rfl⟩, ⟨rfl, ⟨rfl, rfl⟩⟩, Nat.zero_le _⟩, trivial⟩

/-- The call takes `2 ^ 64 - 2` arguments: the number of operands is still a word, there are too few
of them, and the call fails. -/
theorem calls_never_panic_many :
    let c := Chronicle.about #[.call 18446744073709551614]
    let th := c.world.thread 0
    th.vm.step? (th.caller 0) c.world.store = some (th.vm.step (th.caller 0) c.world.store) ∧
      (c.world.step 0).Erred 0 := by
  intro c th
  have hstem : Char.ofNat 0 ∉ c.world.store.isolates.nameStem.toList := by decide +kernel
  have hordinary : c.world.store.Ordinary := .of_cells (by decide +kernel) hstem
  obtain ⟨hsteps, -⟩ := calls_never_panic c (run_about _) hordinary 0
  have hcurrent : th.vm.current? c.world.store.heap ≠ some .raise := by decide +kernel
  have hroom : (Act.step 0).height c.world ≤ vectorLimit := by decide +kernel
  obtain ⟨hwords, hfares⟩ := hsteps (by decide +kernel) (by decide +kernel) hroom
    fun _ heq => absurd heq hcurrent
  refine ⟨hwords, hfares.failed.resolve_left ?_⟩
  decide +kernel

/-- With one more argument the number of operands is no word, and the thread is interrupted. -/
theorem not_calls_never_panic_overflowing : ¬ ∀ (c : Chronicle) (t : ThreadId),
    Run (fun c a => a.Orderly c ∧ a.Given c.toHosted ∧ a.HasRoom c.world) c →
    (∀ d f, c.world.store.heap.object? d = some (.native f) → f ∈ Native.builtIn) →
    (c.world.control t).calls = true → (c.world.thread t).vm.current? c.world.store.heap ≠
      some .raise → ((c.world.step t).control t).interrupted = false := by
  intro h
  let c := Chronicle.about #[.call 18446744073709551615]
  have hcells : ∀ d < c.world.store.heap.size, ((c.world.store.heap.object? d).all fun
      | .native f => decide (f ∈ Native.builtIn)
      | _ => true) = true := by decide +kernel
  have hnatives : ∀ d f, c.world.store.heap.object? d = some (.native f) → f ∈ Native.builtIn := by
    intro d f ho
    have hcell := hcells d (Heap.lt_size_of_object? ho)
    rw [ho] at hcell
    simpa using hcell
  have hcontrol := h c 0 (run_about _) hnatives (by decide +kernel) (by decide +kernel)
  have hinterrupted : ((c.world.step 0).control 0).interrupted = true := by decide +kernel
  rw [hinterrupted] at hcontrol
  cases hcontrol

end ScriptCore
