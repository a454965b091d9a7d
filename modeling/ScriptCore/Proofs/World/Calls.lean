import ScriptCore.Proofs.World.Chronicle

/-!
# Threads interpret calls

A call in a world, with its safepoints, collections and waits and with the steps of all other
threads in between, is a run of its machine. What happens around the machine is what has really
happened: its instructions find the stores of the run, and it is handed the outcomes that its thread
was handed.

* `Vm.Arrives`: a run has come from the beginning of a call to a signal;
* `Surroundings.lived`: what has happened around a thread;
* `Course`: a call is under way, complete or ended by a panic;
* `World.Called.step`, `Chronicle.Called.aside`: how it goes on;
* `enter_course`: a call from the beginning to the end.
-/

namespace ScriptCore

/-! ### A call under way -/

/-- Whatever may happen in one surrounding may happen in the other. -/
structure Surroundings.Within (env env' : Surroundings) : Prop where
  drifts : ∀ s s', env.drifts s s' → env'.drifts s s'
  grants : ∀ r s o s', env.grants r s o s' → env'.grants r s o s'

namespace Vm

/-- A call has come from its beginning to machine, store and signal, and these instructions have
been executed. -/
inductive Arrives (env : Surroundings) (me : Caller) (start : Vm × Store × Signal) :
    List (Vm × Store) → Vm × Store × Signal → Prop
  | start : Arrives env me start [] start
  | step {trace : List (Vm × Store)} {vm : Vm} {s s₀ : Store} :
      Arrives env me start trace (vm, s, .next) → vm.frames ≠ [] → env.drifts s s₀ →
      Arrives env me start (trace ++ [(vm, s₀)]) (vm.step me s₀)
  | granted {trace : List (Vm × Store)} {vm : Vm} {s s₁ : Store} {callee : Nat} {r : Request}
      {o : Outcome} : Arrives env me start trace (vm, s, .suspended callee r) →
      env.grants r s o s₁ → Arrives env me start trace (vm.receive me callee s₁ o)

variable {env env' : Surroundings} {me : Caller} {trace : List (Vm × Store)}
  {start r : Vm × Store × Signal}

theorem Arrives.mono (h : Arrives env me start trace r) (henv : env.Within env') :
    Arrives env' me start trace r := by
  induction h with
  | start => exact .start
  | step _ hframes hdrift ih => exact .step ih hframes (henv.drifts _ _ hdrift)
  | granted _ hgrant ih => exact .granted ih (henv.grants _ _ _ _ hgrant)

theorem Runs.mono {vm : Vm} {s : Store} {x : Option Cause} (h : Runs env me trace r vm s x)
    (henv : env.Within env') : Runs env' me trace r vm s x := by
  induction h with
  | done hframes => exact .done hframes
  | step hframes hdrift _ ih => exact .step hframes (henv.drifts _ _ hdrift) ih
  | failed => exact .failed
  | granted hgrant _ ih => exact .granted (henv.grants _ _ _ _ hgrant) ih

/-- However a call ends from where it has come to, it ends from its beginning. -/
theorem Arrives.runs (h : Arrives env me start trace r) {rest : List (Vm × Store)} {vm : Vm}
    {s : Store} {x : Option Cause} (hrest : Runs env me rest r vm s x) :
    Runs env me (trace ++ rest) start vm s x := by
  induction h generalizing rest with
  | start => exact hrest
  | step _ hframes hdrift ih =>
    rw [List.append_assoc]
    exact ih (.step hframes hdrift hrest)
  | granted _ hgrant ih => exact ih (.granted hgrant hrest)

end Vm

/-- What has happened around a thread: its instructions find a store of the run, and what it is
handed was handed to it in an act of its own. -/
def Surroundings.lived (t : ThreadId) (past : List (Hosted × Act)) : Surroundings where
  drifts s s' := s.heap.Lasts s'.heap ∧
    ∃ h a, (h, a) ∈ past ∧ a.actor? = some t ∧ h.world.store = s'
  grants _ s o s' := s.heap.Lasts s'.heap ∧
    ∃ h a, (h, a) ∈ past ∧ a.actor? = some t ∧
      ∃ w k, (a.apply h).world = World.deliver w t k o ∧ w.store = s'
  drifts_code _ _ h := h.1.keepsCode
  grants_code _ _ _ _ h := h.1.keepsCode

theorem Surroundings.lived_cons (t : ThreadId) (past : List (Hosted × Act)) (p : Hosted × Act) :
    (lived t past).Within (lived t (p :: past)) where
  drifts _ _ := fun ⟨hlasts, h, a, hmem, hrest⟩ =>
    ⟨hlasts, h, a, List.mem_cons_of_mem _ hmem, hrest⟩
  grants _ _ _ _ := fun ⟨hlasts, h, a, hmem, hrest⟩ =>
    ⟨hlasts, h, a, List.mem_cons_of_mem _ hmem, hrest⟩

/-- What a thread does when it goes on belongs to the instruction or the call in hand. -/
def After.Resumes (signal : Signal) (k : After) : Prop :=
  k = .instruction ∧ signal = .next ∨
  ∃ callee q outermost, signal = .suspended callee q ∧ k.consumer? = some (.call callee outermost)

/-- The next step of a thread belongs to the call in hand. A host thread may be done with laying it
out. -/
def Control.Follows (role : Role) (signal : Signal) : Control → Prop
  | .running | .stepping => signal = .next
  | .finished .done => signal = .next ∧ role = .host
  | .rendezvous _ k | .lingering k | .gathering k | .sweeping k | .blocked _ k | .waiting _ k
  | .leaving _ k => k.Resumes signal
  | _ => False

theorem Role.follows_entered (role : Role) : role.entered.Follows role .next := by
  cases role with
  | host => exact ⟨rfl, rfl⟩
  | isolate i => rfl

/-- What has become of a call by the time the heap is `h`. -/
inductive Course (env : Surroundings) (me : Caller) (role : Role) (start : Vm × Store × Signal)
    (vm : Vm) (h : Heap) (c : Control) : Prop
  /-- It is under way. -/
  | live {trace : List (Vm × Store)} {s : Store} {signal : Signal} :
      Vm.Arrives env me start trace (vm, s, signal) → s.heap.Lasts h → c.Follows role signal →
      Course env me role start vm h c
  /-- It has ended, and its thread goes on or will find no frame. -/
  | complete {trace : List (Vm × Store)} {s : Store} {x : Option Cause} :
      Vm.Runs env me trace start vm s x → s.heap.Lasts h →
      c = role.ended ∨ c = role.entered ∧ vm.frames = [] → Course env me role start vm h c
  /-- A panic has ended it. -/
  | lost {trace : List (Vm × Store)} {s : Store} {p : Panic} :
      Vm.Arrives env me start trace (vm, s, .panicked p) → c = role.interrupted p →
      Course env me role start vm h c

theorem Course.mono {env env' : Surroundings} {me : Caller} {role : Role}
    {start : Vm × Store × Signal} {vm : Vm} {h h' : Heap} {c : Control}
    (hcourse : Course env me role start vm h c) (henv : env.Within env') (hl : h.Lasts h') :
    Course env' me role start vm h' c := by
  cases hcourse with
  | live harrives hs hc => exact .live (harrives.mono henv) (hs.trans hl) hc
  | complete hruns hs hc => exact .complete (hruns.mono henv) (hs.trans hl) hc
  | lost harrives hc => exact .lost (harrives.mono henv) hc

/-- A machine that has come to a signal goes on with its call. -/
theorem Leads.course {G : Outcome → Store → Prop} {env : Surroundings} {me : Caller} {role : Role}
    {start : Vm × Store × Signal} {p : Pending} {x y : Vm × Store} {c : Control}
    (h : Leads G me role p x y c)
    (hG : ∀ q s o s₁, s.heap.Lasts s₁.heap → G o s₁ → env.grants q s o s₁) {signal : Signal}
    {outermost : Bool} (hp : p = .machine signal outermost) {trace : List (Vm × Store)} {s : Store}
    (harrives : Vm.Arrives env me start trace (x.1, s, signal)) (hs : s.heap.Lasts x.2.heap)
    (hfailed : ∀ e, signal = .failed e → s = x.2) :
    Course env me role start y.1 y.2.heap c := by
  induction h generalizing signal outermost s with
  | @next vm s₀ b =>
    cases hp
    refine .live harrives hs ?_
    cases b with
    | true => exact role.follows_entered
    | false => rfl
  | @failed vm s₀ e b =>
    cases hp
    obtain rfl := hfailed e rfl
    refine .complete (harrives.runs .failed) (.refl _) ?_
    cases b with
    | true => exact .inr ⟨rfl, rfl⟩
    | false => exact .inl rfl
  | panicked =>
    cases hp
    exact .lost harrives rfl
  | collects he =>
    cases hp
    exact .live harrives (hs.trans (.of_evolves he)) (.inr ⟨_, _, _, rfl, rfl⟩)
  | blocks hk he =>
    cases hp
    exact .live harrives (hs.trans (.of_evolves he)) (.inr ⟨_, _, _, rfl, hk⟩)
  | receives hgive he _ ih =>
    cases hp
    exact ih rfl (.granted harrives (hG _ _ _ _ (hs.trans (.of_evolves he)) hgive)) (.refl _)
      fun _ _ => rfl
  | finishes | hostPanics | hostBlocks => cases hp

namespace World

/-- A call of a thread has taken a course. -/
structure Called (env : Surroundings) (t : ThreadId) (me : Caller) (start : Vm × Store × Signal)
    (w : World) : Prop where
  caller : (w.thread t).caller t = me
  course : Course env me (w.thread t).role start (w.thread t).vm w.store.heap (w.control t)

/-- A thread is in a call. -/
structure Calling (env : Surroundings) (t : ThreadId) (me : Caller) (start : Vm × Store × Signal)
    (signal : Signal) (w : World) : Prop where
  lt : t < w.threads.size
  caller : (w.thread t).caller t = me
  reached : ∃ trace s, Vm.Arrives env me start trace ((w.thread t).vm, s, signal) ∧
    s.heap.Lasts w.store.heap

variable {G : Outcome → Store → Prop} {env : Surroundings} {t : ThreadId} {me : Caller}
  {start : Vm × Store × Signal} {signal : Signal} {w w₁ w' : World}

namespace Calling

theorem before (h : Calling env t me start signal w) (hthreads : w₁.threads = w.threads)
    (hl : w.store.heap.Lasts w₁.store.heap) : Calling env t me start signal w₁ := by
  have hthread := thread_congr hthreads t
  obtain ⟨trace, s, harrives, hs⟩ := h.reached
  exact ⟨hthreads ▸ h.lt, hthread ▸ h.caller, trace, s, hthread ▸ harrives, hs.trans hl⟩

/-- The call goes on, after a change of what is shared. -/
theorem setControl (h : Calling env t me start signal w) (hthreads : w₁.threads = w.threads)
    (hl : w.store.heap.Lasts w₁.store.heap) {c : Control}
    (hc : c.Follows (w.thread t).role signal) : Called env t me start (w₁.setControl t c) := by
  have hset := becomes_setControl hthreads h.lt c
  obtain ⟨trace, s, harrives, hs⟩ := h.reached
  refine ⟨by rw [hset.mine]; exact h.caller, ?_⟩
  rw [control, hset.mine]
  exact .live harrives (hs.trans hl) hc

end Calling

/-- What a thread at work does is part of its call. -/
theorem Sequel.called {outermost : Bool} {vm : Vm} {held : List RootId}
    (h : Sequel G t (.machine signal outermost) vm held w w') (hcaller : (w.thread t).caller t = me)
    (hG : ∀ q s o s₁, s.heap.Lasts s₁.heap → G o s₁ → env.grants q s o s₁)
    {trace : List (Vm × Store)} {s : Store}
    (harrives : Vm.Arrives env me start trace (vm, s, signal)) (hs : s.heap.Lasts w.store.heap)
    (hfailed : ∀ e, signal = .failed e → s = w.store) : Called env t me start w' := by
  obtain ⟨vm', c, hmine, hleads⟩ := h.mine
  rw [hcaller] at hleads
  refine ⟨by rw [hmine]; exact hcaller, ?_⟩
  rw [control, hmine]
  exact hleads.course hG rfl harrives hs hfailed

namespace Calling

theorem continueWith (h : Calling env t me start signal w)
    (hG : ∀ q s o s₁, s.heap.Lasts s₁.heap → G o s₁ → env.grants q s o s₁) {k : After}
    (hk : k.Resumes signal) {o : Outcome} (hhands : Hands G t (w.continueWith t k o)) :
    Called env t me start (w.continueWith t k o) := by
  rcases hk with ⟨rfl, rfl⟩ | ⟨callee, q, outermost, rfl, hk⟩
  · exact h.setControl rfl (.refl _) rfl
  · obtain ⟨trace, s, harrives, hs⟩ := h.reached
    exact (Sequel.continueWith h.lt q hk o hhands).called h.caller hG harrives hs
      fun _ he => by cases he

theorem execute (h : Calling env t me start .next w)
    (hG : ∀ q s o s₁, s.heap.Lasts s₁.heap → G o s₁ → env.grants q s o s₁)
    (hdrift : ∀ s, s.heap.Lasts w.store.heap → env.drifts s w.store)
    (hhands : Hands G t (w.execute t)) : Called env t me start (w.execute t) := by
  obtain ⟨trace, s, harrives, hs⟩ := h.reached
  obtain rfl := h.caller
  have hrest := Sequel.execute h.lt hhands
  by_cases hframes : (w.thread t).vm.frames = []
  · have hstep : (w.thread t).vm.step ((w.thread t).caller t) w.store =
        ((w.thread t).vm, w.store, .next) := by
      rw [Vm.step, hframes]
    rw [hstep] at hrest
    exact hrest.called rfl hG harrives hs fun _ he => by cases he
  · exact hrest.called rfl hG (harrives.step hframes (hdrift s hs)) (.refl _) fun _ _ => rfl

/-- A step of a thread that is in a call. -/
theorem step (h : Calling env t me start signal w)
    (hfollows : (w.control t).Follows (w.thread t).role signal)
    (hdrift : ∀ s, s.heap.Lasts w.store.heap → env.drifts s w.store)
    (hgrant : ∀ q s o s₁, s.heap.Lasts s₁.heap →
      (∃ w₁ k, w.step t = deliver w₁ t k o ∧ w₁.store = s₁) → env.grants q s o s₁) :
    Called env t me start (w.step t) := by
  have hhands : ∀ w', w.step t = w' →
      Hands (fun o s => ∃ w₁ k, w.step t = deliver w₁ t k o ∧ w₁.store = s) t w' :=
    fun w' hw' w₁ k o heq => ⟨w₁, k, hw'.trans heq, rfl⟩
  have hlater : ∀ w₁ : World, w₁.threads = w.threads → w.store.heap.Lasts w₁.store.heap →
      ∀ k o, k.Resumes signal → w.step t = w₁.continueWith t k o →
      Called env t me start (w.step t) := fun w₁ hthreads hl k o hk heq => by
    rw [heq]
    exact (h.before hthreads hl).continueWith hgrant hk (hhands _ heq)
  have hwait : ∀ wait, (w.passWait t wait).1.threads = w.threads ∧
      w.store.heap.Lasts (w.passWait t wait).1.store.heap := fun wait => by
    refine ⟨threads_passWait w t wait, ?_⟩
    rw [Store.heap, Store.heap, collector_passWait]
    exact .refl _
  have hexecute : signal = .next → w.step t = w.execute t → Called env t me start (w.step t) := by
    rintro rfl heq
    rw [heq]
    exact h.execute hgrant hdrift (hhands _ heq)
  have hstep : w.step t = w.step t := rfl
  conv_rhs at hstep => unfold World.step
  simp only at hstep
  cases hc : w.control t <;> rw [hc] at hfollows <;>
    simp only [show (w.thread t).control = _ from hc] at hstep
  case running =>
    obtain rfl : signal = .next := hfollows
    split at hstep
    · rename_i hempty
      obtain ⟨trace, s, harrives, hs⟩ := h.reached
      have hset := becomes_setControl rfl h.lt (w.thread t).role.ended
      rw [hstep, endRun_eq]
      refine ⟨by rw [hset.mine]; exact h.caller, ?_⟩
      rw [control, hset.mine]
      exact .complete (harrives.runs (.done (List.isEmpty_iff.1 hempty))) hs (.inl rfl)
    split at hstep
    · rw [hstep]
      exact h.setControl rfl (.refl _) (.inl ⟨rfl, rfl⟩)
    · exact hexecute rfl hstep
  case stepping => exact hexecute hfollows hstep
  case finished o =>
    obtain ⟨trace, s, harrives, hs⟩ := h.reached
    rw [hstep]
    exact ⟨h.caller, hc ▸ .live harrives hs hfollows⟩
  case rendezvous force k =>
    split at hstep
    · rw [hstep]
      exact h.setControl (threads_park w t) (heap_park ▸ .refl _) hfollows
    split at hstep
    · exact hlater _ (by rfl) (by exact .refl _) _ _ hfollows hstep
    · rw [hstep]
      exact h.setControl (by rfl) (by exact .refl _) hfollows
  case lingering k =>
    exact hlater _ (threads_unpark w t) (heap_unpark ▸ .refl _) _ _ hfollows hstep
  case gathering k =>
    rw [hstep]
    exact h.setControl rfl (.refl _) hfollows
  -- a collection may free objects, but it changes none
  case sweeping k =>
    exact hlater _ (by rfl) (by exact Collector.lasts_collect _ _) _ _ hfollows hstep
  case blocked wait k =>
    obtain ⟨hthreads, hl⟩ := hwait wait
    split at hstep <;> rename_i heq <;> rw [heq] at hthreads hl <;> rw [hstep] <;>
      exact h.setControl hthreads hl hfollows
  case waiting wait k =>
    obtain ⟨hthreads, hl⟩ := hwait wait
    split at hstep <;> rename_i heq <;> rw [heq] at hthreads hl
    · rw [hstep]
      exact h.setControl hthreads hl hfollows
    · exact hlater _ hthreads hl _ _ hfollows hstep
  case leaving o k =>
    exact hlater _ (threads_unpark w t) (heap_unpark ▸ .refl _) _ _ hfollows hstep
  all_goals cases hfollows

end Calling

/-- A thread lays out a call. -/
theorem called_enter (ht : t < w.threads.size) (function : Value) (args : Array Value)
    (hgrant : ∀ q s o s₁, s.heap.Lasts s₁.heap →
      (∃ w₁ k, w.enter t function args = deliver w₁ t k o ∧ w₁.store = s₁) →
      env.grants q s o s₁) :
    Called env t ((w.thread t).caller t)
      ((w.thread t).vm.enter ((w.thread t).caller t) function args w.store)
      (w.enter t function args) := by
  have hhands : Hands (fun o s => ∃ w₁ k, w.enter t function args = deliver w₁ t k o ∧
      w₁.store = s) t (w.enter t function args) := fun w₁ k o heq => ⟨w₁, k, heq, rfl⟩
  exact (Sequel.enter ht function args hhands).called rfl hgrant .start (.refl _) fun _ _ => rfl

end World

/-! ### Calls in a run -/

namespace Chronicle

/-- A call of a thread has taken a course, in the surroundings the thread has lived in. -/
def Called (c : Chronicle) (t : ThreadId) (me : Caller) (start : Vm × Store × Signal) : Prop :=
  World.Called (.lived t c.past) t me start c.world

/-- A call of a thread is under way. -/
def Live (c : Chronicle) (t : ThreadId) (me : Caller) (start : Vm × Store × Signal) : Prop :=
  ∃ signal, World.Calling (.lived t c.past) t me start signal c.world ∧
    (c.world.control t).Follows (c.world.thread t).role signal

variable {c : Chronicle} {a : Act} {t : ThreadId} {me : Caller} {start : Vm × Store × Signal}

/-- What others do is part of the call. -/
theorem Called.aside (h : c.Called t me start) (ha : a.Orderly c) (hactor : a.actor? ≠ some t)
    (ht : t < c.world.threads.size) : (a.record c).Called t me start := by
  obtain ⟨n, hthread⟩ := Act.bystander ha hactor ht
  refine ⟨by rw [hthread]; exact h.caller, ?_⟩
  rw [World.control, hthread]
  exact h.course.mono (Surroundings.lived_cons t _ _) (Act.lasts ha)

theorem Live.called (h : c.Live t me start) : c.Called t me start := by
  obtain ⟨signal, hcalling, hfollows⟩ := h
  obtain ⟨trace, s, harrives, hs⟩ := hcalling.reached
  exact ⟨hcalling.caller, .live harrives hs hfollows⟩

theorem lived_step (c : Chronicle) (ha : a.actor? = some t) :
    (∀ s : Store, s.heap.Lasts c.world.store.heap →
      (Surroundings.lived t (a.record c).past).drifts s c.world.store) ∧
    ∀ q s o s₁, Heap.Lasts (Store.heap s) (Store.heap s₁) →
      (∃ w k, (a.record c).world = World.deliver w t k o ∧ w.store = s₁) →
      (Surroundings.lived t (a.record c).past).grants q s o s₁ :=
  ⟨fun _ hs => ⟨hs, c.toHosted, a, List.mem_cons_self, ha, rfl⟩,
    fun _ _ _ _ hs hw => ⟨hs, c.toHosted, a, List.mem_cons_self, ha, hw⟩⟩

/-- The thread itself goes on with its call. -/
theorem Live.step (h : c.Live t me start) : ((Act.step t).record c).Called t me start := by
  obtain ⟨signal, hcalling, hfollows⟩ := h
  obtain ⟨trace, s, harrives, hs⟩ := hcalling.reached
  obtain ⟨hdrift, hgrant⟩ := lived_step c (a := .step t) rfl
  exact World.Calling.step ⟨hcalling.lt, hcalling.caller, trace, s,
    harrives.mono (Surroundings.lived_cons t _ _), hs⟩ hfollows hdrift hgrant

/-- Whatever happens, the call goes on, is over or is lost. The host has the thread interpret what
it has laid out. -/
theorem Live.act (h : c.Live t me start) (ha : a.Orderly c)
    (hown : a.actor? = some t → a = .step t ∨ a = .assign t .run) :
    (a.record c).Called t me start := by
  obtain ⟨signal, hcalling, hfollows⟩ := id h
  by_cases hactor : a.actor? = some t
  swap
  · exact h.called.aside ha hactor hcalling.lt
  rcases hown hactor with rfl | rfl
  · exact h.step
  obtain ⟨hspare, -⟩ := ha
  obtain ⟨trace, s, harrives, hs⟩ := hcalling.reached
  rcases World.control_of_atRest hspare.rests with hc | ⟨o, hc⟩ | hc <;> rw [hc] at hfollows
  · cases hfollows
  · have hsignal : signal = .next := by
      cases o with
      | done => exact hfollows.1
      | _ => cases hfollows
    exact World.Calling.setControl ⟨hcalling.lt, hcalling.caller, trace, s,
      harrives.mono (Surroundings.lived_cons t _ _), hs⟩ rfl (.refl _) hsignal
  · cases hfollows

/-- A call that the host has a thread lay out is, with whatever happens then, under way until a
panic ends it or until the machine of the thread is as a run of the call leaves it. -/
theorem enter_course {function : Value} {args : Array Value} {acts : List Act}
    (hcall : (Act.assign t (.call function args)).Orderly c)
    (hacts : Act.All Act.Orderly ((Act.assign t (.call function args)).record c) acts)
    (hown : ∀ a ∈ acts, a.actor? = some t → a = .step t ∨ a = .assign t .run) :
    let me := (c.world.thread t).caller t
    let start := (c.world.thread t).vm.enter me function args c.world.store
    ∃ n ≤ acts.length,
      let c' := (acts.take n).foldl Act.record ((Act.assign t (.call function args)).record c)
      c'.Called t me start ∧ (n < acts.length → ¬ c'.Live t me start) := by
  intro me start
  have hentered : ((Act.assign t (.call function args)).record c).Called t me start :=
    World.called_enter hcall.1.known function args
      (lived_step c (a := .assign t (.call function args)) rfl).2
  generalize (Act.assign t (.call function args)).record c = c₁ at hentered hacts
  induction acts generalizing c₁ with
  | nil => exact ⟨0, le_rfl, hentered, fun hlt => absurd hlt (Nat.lt_irrefl 0)⟩
  | cons a acts ih =>
    by_cases hlive : c₁.Live t me start
    · have hnext := hlive.act hacts.1 (hown a List.mem_cons_self)
      obtain ⟨n, hn, hcalled, hend⟩ :=
        ih (fun b hb => hown b (List.mem_cons_of_mem a hb)) _ hnext hacts.2
      exact ⟨n + 1, Nat.succ_le_succ hn, hcalled, fun hlt => hend (Nat.lt_of_succ_lt_succ hlt)⟩
    · exact ⟨0, Nat.zero_le _, hentered, fun _ => hlive⟩

end Chronicle

end ScriptCore
