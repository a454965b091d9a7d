import ScriptCore.Proofs.World.Sound

/-!
# A step keeps the invariant

One lemma for each function of a world, from carrying on with a machine up to `World.step`. A step
may draw new root names, so the ledger grows with it (`World.Kept`).

* `Sound.deliver`, `Sound.launch`, `Sound.joinPass`, `Sound.request`: operations that may wait;
* `Sound.execute`, `Sound.enter`: the machine of a thread;
* `Sound.register`, `Sound.equip`, `Sound.leave`, `Sound.unroot`: the life of a thread;
* `Sound.step`: any step of any thread.
-/

namespace ScriptCore

/-- What an outcome carries is live. -/
def Outcome.Live (h : Heap) : Outcome → Prop
  | .value v => h.Holds v
  | .values vs => ∀ v ∈ vs, h.Holds v
  | _ => True

/-- What a host thread hands over with a request is live, and it has a list to allocate into. -/
def Request.Handed (h : Heap) (th : Thread) : Request → Prop
  | .start f args => th.storage.isSome ∧ h.Holds f ∧ ∀ a ∈ args, h.Holds a
  | .join fs _ _ => ∀ v ∈ fs, h.Holds v
  | _ => True

/-- What a host thread hands over after a wait is live. -/
def After.Handed (h : Heap) : After → Prop
  | .start f args .host => h.Holds f ∧ ∀ a ∈ args, h.Holds a
  | _ => True

section

variable {h : Heap} {stack : Array Value} {k : After} {f : CellId}

theorem Outcome.kept_immediate {v : Value} (hv : ∀ c, v ≠ .ref c) :
    (Outcome.value v).Kept h stack k := by
  unfold Outcome.Kept
  split
  · rename_i heq
    cases heq
    exact .inl hv
  · rename_i heq
    cases heq
  · trivial

/-- A thread that waited for a future takes over what is in its slot. -/
theorem Outcome.kept_slot
    (hf : ∀ callee outermost, k = .reply (.call callee outermost) → BoundAt h stack callee f) :
    Outcome.Kept h stack (match h.resolved? f with
      | some v => .value v
      | none => .absent) k := by
  split
  · rename_i v hv
    unfold Outcome.Kept
    split
    · rename_i heq
      cases heq
      refine .inr ⟨f, hf _ _ rfl, ?_⟩
      unfold Heap.resolved? at hv
      split at hv
      · rename_i slot ho
        rw [ho, hv]
      · cases hv
    · rename_i heq
      cases heq
    · trivial
  · trivial

end

namespace World

variable {own own' : Ledger} {away : Option ThreadId} {w : World} {t u : ThreadId}

/-- The invariant holds with a ledger that extends this one. -/
def Kept (own : Ledger) (w : World) : Prop := ∃ own', own.Extends own' ∧ Sound own' none w

theorem Sound.kept (h : w.Sound own none) : w.Kept own := ⟨own, .refl own, h⟩

/-! ### What changes of a thread leave alone -/

theorem thread_setVm (vm : Vm) (u : ThreadId) :
    (w.setVm t vm).thread u = w.thread u ∨ (w.setVm t vm).thread u = { w.thread u with vm } := by
  by_cases hu : u = t
  · subst hu
    by_cases hsize : w.threads.size ≤ u
    · exact .inl (by rw [setVm, modifyThread_of_size_le _ hsize])
    · exact .inr (thread_modifyThread_self _ (Nat.not_le.1 hsize))
  · exact .inl (thread_modifyThread_of_ne _ hu)

@[simp] theorem storage_setVm (vm : Vm) (u : ThreadId) :
    ((w.setVm t vm).thread u).storage = (w.thread u).storage := by
  rcases thread_setVm (w := w) (t := t) vm u with h | h <;> rw [h]

@[simp] theorem root_setVm (vm : Vm) (u : ThreadId) :
    ((w.setVm t vm).thread u).root = (w.thread u).root := by
  rcases thread_setVm (w := w) (t := t) vm u with h | h <;> rw [h]

@[simp] theorem role_setVm (vm : Vm) (u : ThreadId) :
    ((w.setVm t vm).thread u).role = (w.thread u).role := by
  rcases thread_setVm (w := w) (t := t) vm u with h | h <;> rw [h]

theorem equipped_setVm {vm : Vm} : ((w.setVm t vm).thread u).Equipped ↔ (w.thread u).Equipped := by
  simp [Thread.Equipped]

@[simp] theorem thread_dropRoot (id : RootId) : (w.dropRoot id).thread u = w.thread u := by
  unfold dropRoot
  split <;> rfl

@[simp] theorem heap_dropRoot (id : RootId) : (w.dropRoot id).store.heap = w.store.heap := by
  unfold dropRoot
  split
  · rename_i g hg
    unfold Collector.removeRoot at hg
    split at hg <;> cases hg
    rfl
  · rfl

theorem thread_add (th : Thread) (u : ThreadId) :
    (w.add th).1.thread u = if u = w.threads.size then th else w.thread u := by
  simp only [thread, add, Array.getD_eq_getD_getElem?, Array.getElem?_push]
  split <;> rfl

theorem lt_size_of_storage (hs : (w.thread t).storage.isSome) : t < w.threads.size := by
  by_contra hsize
  simp [thread_of_size_le (Nat.not_lt.1 hsize)] at hs

theorem lt_size_of_role {i : Isolate} (hi : (w.thread t).role = .isolate i) :
    t < w.threads.size := by
  by_contra hsize
  simp [thread_of_size_le (Nat.not_lt.1 hsize)] at hi

@[simp] theorem thread_park (u : ThreadId) : (w.park t).thread u = w.thread u := by
  unfold park
  split <;> rfl

@[simp] theorem thread_unpark (u : ThreadId) : (w.unpark t).thread u = w.thread u := by
  unfold unpark
  split <;> rfl

@[simp] theorem heap_park : (w.park t).store.heap = w.store.heap := by
  unfold park
  split <;> rfl

@[simp] theorem heap_unpark : (w.unpark t).store.heap = w.store.heap := by
  unfold unpark
  split <;> rfl

/-- What the host hands over in the next step of a thread is live. -/
def StepGiven (w : World) (t : ThreadId) : Prop :=
  match (w.thread t).control with
  | .waiting _ k | .leaving _ k => k.Handed w.store.heap
  | .resolving ((_, _, v) :: _) => w.store.heap.Holds v
  | _ => True

/-- What the host hands over in the next step of a thread is live, and so is the code of a frame
that executes. -/
def StepHanded (w : World) (t : ThreadId) : Prop :=
  match (w.thread t).control with
  | .waiting _ k | .leaving _ k => k.Handed w.store.heap
  | .resolving ((_, _, v) :: _) => w.store.heap.Holds v
  | .running | .stepping => ∀ frame ∈ (w.thread t).vm.frames.head?, w.store.heap.Live frame.code
  | _ => True

theorem StepHanded.given (h : w.StepHanded t) : w.StepGiven t := by
  unfold StepHanded at h
  unfold StepGiven
  split <;> simp_all

namespace Sound

/-! ### Where a machine goes on -/

theorem endRun (h : w.Sound own (some t)) (ht : (w.thread t).Equipped) :
    (w.endRun t).Sound own none := by
  unfold World.endRun
  split
  · exact h.setControl trivial
  · exact h.setControl ht

theorem endEnter (h : w.Sound own (some t)) (ht : (w.thread t).Equipped) :
    (w.endEnter t).Sound own none := by
  unfold World.endEnter
  split
  · exact h.setControl trivial
  · exact h.setControl ht

theorem interrupt (h : w.Sound own (some t)) {k : Consumer} (hk : k.Fits (w.thread t)) (p : Panic) :
    (w.interrupt t p).Sound own none := by
  unfold World.interrupt
  split
  · exact h.setControl trivial
  · rename_i i hi
    cases k with
    | call callee outermost => exact h.setControl hk
    | host =>
      have hhost : (w.thread t).role = .host := hk
      rw [hi] at hhost
      cases hhost

theorem proceed (h : w.Sound own (some t)) (ht : (w.thread t).Equipped) (outermost : Bool) {vm : Vm}
    (hvm : vm.Sound w.store.heap) (c : Option Cause) :
    (w.proceed t outermost vm c).Sound own none := by
  cases c with
  | none =>
    have hset := h.setVm hvm
    unfold World.proceed
    simp only
    split
    · exact hset.endEnter (equipped_setVm.2 ht)
    · exact hset.setControl (equipped_setVm.2 ht)
  | some c =>
    obtain ⟨he, hvm'⟩ := Vm.fail_safe ((w.thread t).caller t) w.store.heap.Holds c vm w.store
    have hset := (h.work ht.1 he).setVm (hvm' hvm)
    unfold World.proceed
    simp only
    split
    · exact hset.endEnter (equipped_setVm.2 ht)
    · exact hset.endRun (equipped_setVm.2 ht)

/-- Whoever asked for an operation can be handed live values. -/
theorem deliver (h : w.Sound own (some t)) {consumer : Consumer}
    (hk : consumer.Fits (w.thread t)) {outcome : Outcome} (ho : outcome.Live w.store.heap) :
    (w.deliver t consumer outcome).Sound own none := by
  cases consumer with
  | host => exact h.setControl trivial
  | call callee outermost =>
    have ht : (w.thread t).Equipped := hk
    have hvm := h.holds_stack ht.2
    have htaken : (w.setVm t {}).Sound own (some t) := h.setVm (by simp [Vm.Sound])
    have hequipped : ((w.setVm t {}).thread t).Equipped := equipped_setVm.2 ht
    unfold World.deliver
    cases outcome with
    | value v => exact htaken.proceed hequipped outermost ((hvm.truncate callee).push ho) none
    | values vs =>
      have he : Store.Edited ((w.thread t).caller t).storage w.store.heap.Holds w.store
          (w.store.make ((w.thread t).caller t).storage (.list vs)).1 :=
        Store.edited_make fun v hv => ho v (by simpa [Object.edges] using hv)
      have hvm' := ((hvm.evolves he.evolves).truncate callee).push
        (Heap.holds_ref.2 (Store.live_make _ _ _))
      exact (htaken.edited he (.inr (h.mem_storages ht.1))).proceed hequipped outermost hvm' none
    | done =>
      exact htaken.proceed hequipped outermost ((hvm.truncate callee).push (Heap.holds_nil _)) none
    | absent =>
      exact htaken.proceed hequipped outermost ((hvm.truncate callee).push (Heap.holds_nil _)) none
    | failed c => exact htaken.proceed hequipped outermost hvm (some c)
    | panicked p =>
      refine (htaken.setVm hvm).interrupt (k := .call callee outermost) ?_ p
      exact equipped_setVm.2 hequipped

theorem block (h : w.Sound own (some t)) {wait : Wait} {k : After}
    (hk : k.Stands own t (w.thread t)) (hw : wait.Kept w.store.heap (w.thread t).vm.stack k) :
    (w.block t wait k).Sound own none := by
  refine (h.park t).setControl ?_
  show k.Stands own t ((w.park t).thread t) ∧
    wait.Kept (w.park t).store.heap ((w.park t).thread t).vm.stack k
  rw [thread_park, heap_park]
  exact ⟨hk, hw⟩

/-! ### Isolates -/

/-- A new thread without an allocation list and a root. -/
theorem add (h : w.Sound own away) {th : Thread} (hvm : th.vm.stack = #[])
    (hstorage : th.storage = none) (hroot : th.root = none)
    (htransfer : ∀ i, th.role = .isolate i → own i.transfer = .transfer w.threads.size)
    (hstands : th.control.Stands own w.store.collector w.threads.size th) :
    (w.add th).1.Sound own away := by
  have hold : ∀ u, u ≠ w.threads.size → (w.add th).1.thread u = w.thread u := fun u hu => by
    rw [thread_add, if_neg hu]
  have hnew : (w.add th).1.thread w.threads.size = th := by rw [thread_add, if_pos rfl]
  refine ⟨h.tidy, h.closed, ?_, h.fresh, h.globals, ?_, ?_, ?_, ?_, ?_⟩
  · intro id holder hmem v hv
    cases holder with
    | stack u =>
      by_cases hu : u = w.threads.size
      · subst hu
        simp [heldBy, hnew, hvm] at hv
      · simp only [heldBy, hold u hu] at hv
        exact h.held id (.stack u) hmem v hv
    | globals => exact h.held id .globals hmem v hv
    | pinned vs => exact h.held id (.pinned vs) hmem v hv
  · intro u s hs
    by_cases hu : u = w.threads.size
    · rw [hu, hnew, hstorage] at hs
      cases hs
    · rw [hold u hu] at hs
      exact h.storage u s hs
  · intro u u' s hs hs'
    by_cases hu : u = w.threads.size
    · rw [hu, hnew, hstorage] at hs
      cases hs
    · by_cases hu' : u' = w.threads.size
      · rw [hu', hnew, hstorage] at hs'
        cases hs'
      · rw [hold u hu] at hs
        rw [hold u' hu'] at hs'
        exact h.storage_inj u u' s hs hs'
  · intro u r hr
    by_cases hu : u = w.threads.size
    · rw [hu, hnew, hroot] at hr
      cases hr
    · rw [hold u hu] at hr
      exact h.root u r hr
  · intro u i hi
    by_cases hu : u = w.threads.size
    · rw [hu, hnew] at hi
      rw [hu]
      exact htransfer i hi
    · rw [hold u hu] at hi
      exact h.transfer u i hi
  · intro u hu
    by_cases hsize : u = w.threads.size
    · rw [hsize, hnew]
      exact hstands
    · rw [hold u hsize]
      exact h.stands u hu

/-- An isolate can be started with a live function and live arguments. -/
theorem launch (h : w.Sound own (some t)) {function : Value} {args : Array Value}
    {consumer : Consumer} (hk : consumer.Fits (w.thread t)) (hs : (w.thread t).storage.isSome)
    (hf : w.store.heap.Holds function) (hargs : ∀ a ∈ args, w.store.heap.Holds a) :
    (w.launch t function args consumer).Kept own := by
  obtain ⟨s, future, hmake⟩ :
      ∃ s future, w.store.make ((w.thread t).caller t).storage (.future none) = (s, future) :=
    ⟨_, _, rfl⟩
  have he : Store.Edited ((w.thread t).caller t).storage w.store.heap.Holds w.store s := by
    have hedit : Store.Edited _ w.store.heap.Holds w.store
        (w.store.make ((w.thread t).caller t).storage (.future none)).1 :=
      Store.edited_make (by simp [Object.edges])
    rwa [hmake] at hedit
  have hfuture : s.heap.Live future := by
    have hlive := Store.live_make w.store ((w.thread t).caller t).storage (.future none)
    rwa [hmake] at hlive
  have hpinned : ∀ v ∈ #[Value.ref future, function] ++ args, s.heap.Holds v := by
    intro v hv
    simp only [Array.mem_append, List.mem_toArray, List.mem_cons, List.not_mem_nil, or_false] at hv
    rcases hv with (rfl | rfl) | hv
    · exact Heap.holds_ref.2 hfuture
    · exact he.evolves.holds hf
    · exact he.evolves.holds (hargs v hv)
  let id := s.collector.nextId
  let own' := Function.update own id (.transfer w.threads.size)
  let pinned : Holder := .pinned (#[.ref future, function] ++ args)
  let s' : Store := { s with
    collector := (s.collector.addRoot pinned).1, spawned := s.spawned + 1, creating := false }
  have hwork : Sound own (some t) { w with store := s } := h.work hs he
  have hledger : own.Extends own' := Ledger.extends_update (hwork.fresh id le_rfl) _
  have howner : own' id = .transfer w.threads.size := Function.update_self _ _ _
  have hadded : Sound own' (some t) { w with store := s' } :=
    (hwork.addRoot pinned (.transfer w.threads.size) fun v hv =>
      hpinned v (Array.mem_toList_iff.1 hv)).neutral rfl rfl
  -- No thread relies on the new root as long as its isolate is not there.
  have hdropped : (World.dropRoot { w with store := s' } id).Sound own' (some t) := by
    refine hadded.dropRoot ?_ ?_ ?_
    · intro heq
      have hglobals := hadded.globals.2
      rw [← heq, howner] at hglobals
      cases hglobals
    · intro u hu
      have hstack := (hadded.root u id hu).2
      rw [howner] at hstack
      cases hstack
    · intro u i _ hi heq
      have htransfer := hadded.transfer u i hi
      rw [heq, howner] at htransfer
      cases htransfer
      exact absurd (lt_size_of_role hi) (Nat.lt_irrefl _)
  have hfits : consumer.Fits ((World.dropRoot { w with store := s' } id).thread t) := by
    rw [thread_dropRoot]
    exact hk
  suffices hgoal : Sound own' none (w.launch t function args consumer) from ⟨own', hledger, hgoal⟩
  unfold World.launch
  simp only [hmake]
  split
  · exact hdropped.interrupt hfits _
  split
  · exact hdropped.deliver hfits trivial
  · let i : Isolate := ⟨s.spawned, function, args, future, id⟩
    let isolate : Thread :=
      { name := s.isolates.threadName s.spawned, role := .isolate i, control := .enrolling }
    have hnew : (World.add { w with store := s' } isolate).1.Sound own' (some t) := by
      refine hadded.add rfl rfl rfl ?_ ?_
      · intro j hj
        cases hj
        exact howner
      · intro j hj
        cases hj
        refine ⟨_, List.mem_cons_self, ?_, fun a ha => ?_⟩
        · simp [i]
        · exact Array.mem_append.2 (.inr ha)
    have hcount := hnew.neutral
      (s := { (World.add { w with store := s' } isolate).1.store with live := s'.live + 1 }) rfl rfl
    refine hcount.deliver ?_ (Heap.holds_ref.2 hfuture)
    have hne : t ≠ w.threads.size := (lt_size_of_storage hs).ne
    have hsame : (World.add { w with store := s' } isolate).1.thread t = w.thread t := by
      rw [thread_add, if_neg hne]
      rfl
    show consumer.Fits ((World.add { w with store := s' } isolate).1.thread t)
    rw [hsame]
    exact hk

/-- A result with a live payload is allocated and put into the future of an isolate. -/
theorem resolveResult (h : w.Sound own (some t)) (hs : (w.thread t).storage.isSome) (i : Isolate)
    {s : Store} {vm : Vm} {isError : Bool} {payload : Value}
    (he : Store.Edited ((w.thread t).caller t).storage w.store.heap.Holds w.store s)
    (hvm : vm.Sound s.heap) (hv : s.heap.Holds payload) {s' : Store} {r : CellId}
    (hmake : s.make ((w.thread t).caller t).storage (.result isError payload) = (s', r)) :
    (({ w with store := match s'.heap.resolve i.future (.ref r) with
        | .ok h => s'.withHeap h
        | .error _ => s' }.setVm t vm).setControl t .resuming).Sound own none := by
  have hresult : Store.Edited ((w.thread t).caller t).storage s.heap.Holds s s' := by
    have hedit : Store.Edited ((w.thread t).caller t).storage s.heap.Holds s
        (s.make ((w.thread t).caller t).storage (.result isError payload)).1 := by
      refine Store.edited_make fun v hmem => ?_
      obtain rfl : v = payload := by simpa [Object.edges] using hmem
      exact hv
    rwa [hmake] at hedit
  have hlive : s'.heap.Live r := by
    have hlive := Store.live_make s ((w.thread t).caller t).storage (.result isError payload)
    rwa [hmake] at hlive
  have hresolve : Store.Edited ((w.thread t).caller t).storage s'.heap.Holds s'
      (match s'.heap.resolve i.future (.ref r) with
        | .ok h => s'.withHeap h
        | .error _ => s') := by
    split
    · rename_i h' hr
      exact Store.edited_resolve hr (Heap.holds_ref.2 hlive)
    · exact .refl _ _ _
  have h₁ : Sound own (some t) { w with store := s } := h.work hs he
  have h₂ : Sound own (some t) { w with store := s' } := h₁.work hs hresult
  refine Sound.setControl (Sound.setVm (h₂.work hs hresolve) ?_) trivial
  exact hvm.evolves (hresult.evolves.trans hresolve.evolves)

/-- Publishing the outcome of an isolate. -/
theorem publish (h : w.Sound own (some t)) (ht : (w.thread t).Equipped) (i : Isolate)
    (ending : Ending) : (w.publish t i ending).Sound own none := by
  have hvm := h.holds_stack ht.2
  cases ending with
  | returned =>
    refine h.resolveResult ht.1 i (.refl _ _ _) hvm.dropTop ?_ rfl
    cases hpeek : (w.thread t).vm.peek? with
    | none => exact Heap.holds_nil _
    | some v => exact hvm.peek? hpeek
  | panicked p =>
    have he : Store.Edited ((w.thread t).caller t).storage w.store.heap.Holds w.store
        (w.store.make ((w.thread t).caller t).storage
          (.error (Cause.isolatePanicked (p.message?.getD "unknown panic")).failure)).1 :=
      Store.edited_make (by simp [Object.edges])
    exact h.resolveResult ht.1 i he (hvm.evolves he.evolves)
      (Heap.holds_ref.2 (Store.live_make _ _ _)) rfl

/-! ### The life of a thread -/

theorem register (h : w.Sound own (some t)) : (w.register t).Sound own (some t) := by
  let g := w.store.collector.enroll.1
  have hgrow : ∀ s ∈ w.store.collector.storages.map (·.id), s ∈ g.storages.map (·.id) :=
    fun s hs => List.mem_cons_of_mem _ hs
  have henroll : Sound own (some t) { w with store := { w.store with collector := g } } := by
    refine h.setStore h.tidy.enroll h.closed h.held ?_ h.globals.1
      (fun u s hs => hgrow s (h.storage u s hs)) (fun u r hr => (h.root u r hr).1) (.refl own) ?_
    · intro id hid
      exact h.fresh id (Nat.le_of_succ_le hid)
    · exact fun u _ => ⟨.refl own, fun _ _ _ hvs => hvs, fun _ _ _ _ ho _ => ho⟩
  refine henroll.modifyThread _ (fun id hmem v hv => ?_) (fun s hs => ?_) (henroll.root t) rfl
  · exact henroll.held id _ hmem v (Array.mem_toList_iff.2 hv)
  · cases hs
    refine ⟨List.mem_cons_self, fun u _ hu => ?_⟩
    exact absurd (h.tidy.storageIds_lt _ (h.storage u _ hu)) (Nat.lt_irrefl _)

/-- A thread gets a machine with an empty stack, which becomes a root. -/
theorem equip (h : w.Sound own (some t)) :
    ∃ own', own.Extends own' ∧ (w.equip t).Sound own' (some t) := by
  have hempty : (w.setVm t {}).Sound own (some t) := h.setVm (by simp [Vm.Sound])
  have hheld : ∀ v ∈ (w.setVm t {}).heldBy (.stack t), (w.setVm t {}).store.heap.Holds v := by
    intro v hv
    by_cases ht : w.threads.size ≤ t
    · simp [heldBy, World.setVm, modifyThread_of_size_le _ ht, thread_of_size_le ht] at hv
    · simp [heldBy, World.setVm, thread_modifyThread_self _ (Nat.not_le.1 ht)] at hv
  have hroot := hempty.addRoot (.stack t) (.stack t) hheld
  refine ⟨_, Ledger.extends_update (h.fresh w.store.collector.nextId le_rfl) (.stack t), ?_⟩
  have hmod := hroot.modifyThread (fun th => { th with root := some w.store.collector.nextId })
    (fun id hmem v hv => hroot.held id _ hmem v (Array.mem_toList_iff.2 hv))
    (fun s hs => hroot.storage_own hs)
    (fun r hr => by
      cases hr
      exact ⟨List.mem_cons_self, Function.update_self _ _ _⟩) rfl
  have heq : w.equip t = World.modifyThread
      { w.setVm t {} with store := { w.store with
        collector := (w.store.collector.addRoot (.stack t)).1 } } t
      (fun th => { th with root := some w.store.collector.nextId }) := by
    simp only [World.equip, World.setVm, World.modifyThread, Collector.addRoot, World.mk.injEq,
      true_and, and_true]
    apply Array.ext_getElem?
    intro k
    simp only [Array.getElem?_modify]
    split <;> simp [Function.comp_def]
  rw [heq]
  exact hmod

/-- A registered thread can leave the collector. -/
theorem unregister (h : w.Sound own (some t)) :
    ∃ w', w.unregister t = .ok w' ∧ w'.Sound own (some t) := by
  unfold World.unregister
  split
  · rename_i id hid
    -- The list is there, and no other thread uses it.
    obtain ⟨st, hst, hstid⟩ := List.mem_map.1 (h.storage t id hid)
    obtain ⟨g, hg⟩ : ∃ g, w.store.collector.retire id = .ok g := by
      unfold Collector.retire
      split
      · exact ⟨_, rfl⟩
      · rename_i hnone
        have hno := List.find?_eq_none.1 hnone st hst
        simp [hstid] at hno
    refine ⟨_, by rw [hg]; rfl, ?_⟩
    -- First the thread forgets the list, then the list goes.
    have htidy := h.tidy.retire hg
    obtain ⟨st', -, hid', rfl⟩ := Collector.Tidy.retire_cases hg
    let w₀ := w.modifyThread t fun th => { th with storage := none }
    have hnone : w₀.Sound own (some t) := by
      refine h.modifyThread _ (fun r hmem v hv => ?_) (fun s hs => by cases hs) (h.root t) rfl
      exact h.held r _ hmem v (Array.mem_toList_iff.2 hv)
    refine hnone.setStore (w := w₀) htidy h.closed hnone.held h.fresh h.globals.1 ?_
      (fun u r hr => (hnone.root u r hr).1) (.refl own) ?_
    · intro u s hs
      have hkeep : s ≠ id := by
        rintro rfl
        by_cases hu : u = t
        · subst hu
          have hsize := lt_size_of_storage (w := w) (t := u) (by simp [hid])
          rw [thread_modifyThread_self _ hsize] at hs
          cases hs
        · rw [thread_modifyThread_of_ne _ hu] at hs
          exact hu (h.storage_inj u t s hs hid)
      obtain ⟨st, hst, hstid⟩ := List.mem_map.1 (hnone.storage u s hs)
      exact List.mem_map.2 ⟨st, List.mem_filter.2 ⟨hst, by simpa [hstid] using hkeep⟩, hstid⟩
    · exact fun u _ => ⟨.refl own, fun _ _ _ hvs => hvs, fun _ _ _ _ ho _ => ho⟩
  · exact ⟨w, rfl, h⟩

theorem leave (h : w.Sound own (some t)) : (w.leave t).Sound own none := by
  obtain ⟨w', hw', hs⟩ := h.unregister
  unfold World.leave
  rw [hw']
  exact hs.setControl trivial

/-- A thread gives up its stack as a root. -/
theorem uproot (h : w.Sound own (some t)) {id : RootId} (hid : (w.thread t).root = some id) :
    ((w.dropRoot id).modifyThread t fun th => { th with root := none }).Sound own (some t) := by
  have hcomm : (w.dropRoot id).modifyThread t (fun th => { th with root := none }) =
      (w.modifyThread t fun th => { th with root := none }).dropRoot id := by
    unfold World.dropRoot
    rw [store_modifyThread]
    split <;> rfl
  have howner := (h.root t id hid).2
  have hnone : (w.modifyThread t fun th => { th with root := none }).Sound own (some t) :=
    h.modifyThread _ (fun r hmem v hv => h.held r _ hmem v (Array.mem_toList_iff.2 hv))
      (fun s hs => h.storage_own hs) (fun r hr => by cases hr) rfl
  rw [hcomm]
  refine hnone.dropRoot ?_ ?_ ?_
  · rintro rfl
    rw [h.globals.2] at howner
    cases howner
  · intro u hu
    have hstack := (hnone.root u id hu).2
    rw [howner] at hstack
    cases hstack
    have hsize : t < w.threads.size := by
      by_contra hsize
      simp [thread_of_size_le (Nat.not_lt.1 hsize)] at hid
    rw [thread_modifyThread_self _ hsize] at hu
    cases hu
  · rintro u i - hi rfl
    rw [hnone.transfer u i hi] at howner
    cases howner

/-- The stack of a thread is no root any more. -/
theorem unroot (h : w.Sound own (some t)) : (w.unroot t).Sound own none := by
  have hcount : ∀ w' : World, w'.Sound own (some t) →
      (w'.modifyStore fun s => { s with live := s.live - 1 }).Sound own (some t) :=
    fun w' hw' => hw'.neutral rfl rfl
  unfold World.unroot
  cases hroot : (w.thread t).root with
  | none =>
    simp only [hroot]
    split
    · exact h.setControl trivial
    · exact (hcount w h).setControl trivial
  | some id =>
    have huprooted := h.uproot hroot
    simp only [hroot]
    split
    · exact huprooted.setControl trivial
    · exact (hcount _ huprooted).setControl trivial

theorem pause (h : w.Sound own (some t)) {ending : Option Ending}
    (ht : ending.isSome → (w.thread t).Equipped) : (w.pause t ending).Sound own none := by
  refine (h.modifySync _).setControl ?_
  cases ending with
  | none => trivial
  | some e => exact ht rfl

/-! ### Joins -/

theorem holds_payload {h : Heap} (hh : h.Closed) {v : Value} (hv : h.Holds v) :
    h.Holds (Join.payload h v) := by
  unfold Join.payload
  split
  · rename_i isError p hp
    unfold Heap.result? at hp
    split at hp
    · rename_i hderef
      cases hp
      cases v with
      | ref c => exact hh c _ hderef p (by simp [Object.edges])
      | _ => cases hderef
    · cases hp
  · exact hv

theorem joinPass (h : w.Sound own (some t)) {j : Join} {consumer : Consumer}
    (hk : consumer.Fits (w.thread t)) (hanchor : own j.anchor = .join t)
    (hresults : own j.results = .join t) : (w.joinPass t j consumer).Sound own none := by
  have harrived : ∀ v ∈ w.store.collector.pinned j.results ++
      (Join.arrived w.store.heap j.pending).toArray, w.store.heap.Holds v := by
    intro v hv
    rcases Array.mem_append.1 hv with hv | hv
    · exact h.holds_pinned j.results v hv
    · obtain ⟨c, -, hc⟩ := List.mem_filterMap.1 (List.mem_toArray.1 hv)
      exact h.closed.holds_resolved? hc
  unfold World.joinPass
  simp only
  split
  · have hdrop := (h.dropRoot_of_owner (.inr (.inl ⟨t, hresults⟩))).dropRoot_of_owner
      (.inr (.inl ⟨t, hanchor⟩))
    refine hdrop.deliver ?_ ?_
    · rw [thread_dropRoot, thread_dropRoot]
      exact hk
    · rw [heap_dropRoot, heap_dropRoot]
      split
      · exact harrived
      · intro v hv
        obtain ⟨x, hx, rfl⟩ := Array.mem_map.1 hv
        exact holds_payload h.closed (harrived x hx)
  · have hpin := h.setPinned (.inr ⟨t, hresults⟩) harrived
    exact hpin.block ⟨hk, hanchor, hresults⟩ trivial

theorem joinStart (h : w.Sound own (some t)) {fs : Array Value} {poll : Nat} {tagged : Bool}
    {consumer : Consumer} (hk : consumer.Fits (w.thread t))
    (hfs : ∀ v ∈ fs, w.store.heap.Holds v) :
    (w.joinStart t fs poll tagged consumer).Kept own := by
  unfold World.joinStart
  split
  · refine Sound.kept (h.deliver hk ?_)
    trivial
  · refine Sound.kept (h.deliver hk ?_)
    simp [Outcome.Live]
  · let n := w.store.collector.nextId
    let own' := Function.update (Function.update own n (.join t)) (n + 1) (.join t)
    have h₁ := h.addRoot (.pinned fs) (.join t) fun v hv => hfs v (Array.mem_toList_iff.1 hv)
    have h₂ := h₁.addRoot (.pinned #[]) (.join t) (by simp [heldBy])
    have hledger : own.Extends own' :=
      (Ledger.extends_update (h.fresh n le_rfl) _).trans
        (Ledger.extends_update (h₁.fresh (n + 1) le_rfl) _)
    have hanchor : own' n = .join t := by
      simp only [own', Function.update_of_ne (Nat.lt_succ_self n).ne, Function.update_self]
    have hresults : own' (n + 1) = .join t := Function.update_self _ _ _
    exact ⟨own', hledger, h₂.joinPass hk hanchor hresults⟩

/-! ### Requests -/

/-- A native call asks for something. -/
theorem request_call (h : w.Sound own (some t)) (ht : (w.thread t).Equipped) {r : Request}
    {callee : Nat} {outermost : Bool}
    (hr : r.Kept w.store.heap (w.thread t).vm.stack callee) :
    (w.request t r (.call callee outermost)).Kept own := by
  cases r with
  | collect => exact Sound.kept (h.setControl ht)
  | sleep ns => exact Sound.kept (h.block ht trivial)
  | await f => exact Sound.kept (h.block ht hr)
  | awaitFor f ns => exact hr.elim
  | lock l => exact Sound.kept (h.block ht trivial)
  | start f args => exact Sound.kept (h.block ⟨ht, ht.1, fun _ => hr⟩ trivial)
  | join fs poll tagged => exact h.joinStart ht hr
  | settle => exact Sound.kept (h.block ht trivial)

/-- A host thread asks for something. -/
theorem request_host (h : w.Sound own (some t)) (ht : (w.thread t).role = .host) {r : Request}
    (hr : r.Handed w.store.heap (w.thread t)) : (w.request t r .host).Kept own := by
  cases r with
  | collect => exact Sound.kept (h.setControl ht)
  | sleep ns => exact Sound.kept (h.block ht trivial)
  | await f => exact Sound.kept (h.block ht trivial)
  | awaitFor f ns => exact Sound.kept (h.block ht trivial)
  | lock l => exact Sound.kept (h.block ht trivial)
  | start f args => exact Sound.kept (h.block ⟨ht, hr.1, fun hne => absurd rfl hne⟩ trivial)
  | join fs poll tagged => exact h.joinStart ht hr
  | settle => exact Sound.kept (h.block ht trivial)

/-! ### The machine of a thread -/

theorem afterSignal (h : w.Sound own (some t)) (ht : (w.thread t).Equipped) (outermost : Bool)
    {vm : Vm} (hvm : vm.Sound w.store.heap) {signal : Signal}
    (hsignal : ∀ callee q, signal = .suspended callee q → q.Kept w.store.heap vm.stack callee) :
    (w.afterSignal t outermost vm signal).Kept own := by
  have hset := h.setVm hvm
  have hequipped : ((w.setVm t vm).thread t).Equipped := equipped_setVm.2 ht
  cases signal with
  | next => exact (h.proceed ht outermost hvm none).kept
  | failed c => exact (h.proceed ht outermost hvm (some c)).kept
  | panicked p => exact (hset.interrupt (k := .call 0 outermost) hequipped p).kept
  | suspended callee q =>
    refine hset.request_call hequipped ?_
    have hself : (w.setVm t vm).thread t = { w.thread t with vm } :=
      thread_modifyThread_self _ (lt_size_of_storage ht.1)
    rw [hself]
    exact hsignal callee q rfl

/-- A thread goes on after an instruction or a call of its machine. -/
theorem afterSafe (h : w.Sound own (some t)) (ht : (w.thread t).Equipped) (outermost : Bool)
    {vm : Vm} {r : Vm × Store × Signal} (hr : Vm.Safe ((w.thread t).caller t) vm w.store r)
    (hvm : vm.Sound w.store.heap) :
    (World.afterSignal { w.setVm t {} with store := r.2.1 } t outermost r.1 r.2.2).Kept own := by
  have htaken : (w.setVm t {}).Sound own (some t) := h.setVm (by simp [Vm.Sound])
  have hwork := htaken.edited (hr.edited.mono fun v hv => hv.holds hvm)
    (.inr (h.mem_storages ht.1))
  exact hwork.afterSignal (equipped_setVm.2 ht) outermost (hr.sound h.closed h.holds_global hvm)
    (hr.signal h.closed hvm)

/-- One instruction of a thread. -/
theorem execute (h : w.Sound own (some t)) (ht : (w.thread t).Equipped) :
    (w.execute t).Kept own :=
  h.afterSafe ht false (Vm.step_safe _ _ _) (h.holds_stack ht.2)

/-- A thread enters a call with a live function and live arguments. -/
theorem enter (h : w.Sound own (some t)) (ht : (w.thread t).Equipped) {function : Value}
    {args : Array Value} (hf : w.store.heap.Holds function)
    (hargs : ∀ a ∈ args, w.store.heap.Holds a) : (w.enter t function args).Kept own :=
  h.afterSafe ht true (Vm.enter_safe _ _ _ _ _) (((h.holds_stack ht.2).push hf).pushAll hargs)

/-! ### Going on after a wait -/

/-- A thread goes on after a collection. -/
theorem rejoin (h : w.Sound own (some t)) {k : After} (hk : k.Rejoins (w.thread t)) (b : Bool) :
    (w.continueWith t k (.value (.bool b))).Kept own := by
  cases k with
  | instruction => exact Sound.kept (h.setControl hk)
  | reply consumer => exact Sound.kept (h.deliver hk (Heap.holds_bool _ _))
  | start f args consumer => exact hk.elim
  | join j consumer => exact hk.elim
  | pause ending => exact (h.pause hk).kept
  | retire => exact h.leave.kept

/-- A thread goes on after a wait. -/
theorem continueWith (h : w.Sound own (some t)) {k : After} {outcome : Outcome}
    (hk : k.Stands own t (w.thread t)) (ho : outcome.Kept w.store.heap (w.thread t).vm.stack k)
    (hhanded : k.Handed w.store.heap) : (w.continueWith t k outcome).Kept own := by
  cases k with
  | instruction => exact hk.elim
  | pause ending => exact hk.elim
  | retire => exact hk.elim
  | join j consumer => exact (h.joinPass hk.1 hk.2.1 hk.2.2).kept
  | start f args consumer =>
    obtain ⟨hfits, hs, hstack⟩ := hk
    cases consumer with
    | host => exact h.launch hfits hs hhanded.1 hhanded.2
    | call callee outermost =>
      obtain ⟨hf, hargs⟩ := hstack (by simp)
      have hvm := h.holds_stack hfits.2
      exact h.launch hfits hs (hvm f hf) fun a ha => hvm a (hargs a ha)
  | reply consumer =>
    cases consumer with
    | host => exact Sound.kept (h.setControl trivial)
    | call callee outermost =>
      have hfits : Consumer.Fits (w.thread t) (.call callee outermost) := hk
      refine Sound.kept (h.deliver hfits ?_)
      cases outcome with
      | value v =>
        rcases ho with himm | ⟨f, -, hf⟩
        · exact fun c hc => absurd hc (himm c)
        · exact h.closed f _ hf v (by simp [Object.edges])
      | values vs => exact ho.elim
      | _ => trivial

/-- A step of a wait leads to another wait or to an outcome that the stack keeps. -/
structure Passes (own : Ledger) (away : Option ThreadId) (w : World) (t : ThreadId) (k : After)
    (p : World × (Wait ⊕ Outcome)) : Prop where
  sound : p.1.Sound own away
  threads : p.1.threads = w.threads
  heap : p.1.store.heap = w.store.heap
  wait : ∀ wait, p.2 = .inl wait → wait.Kept w.store.heap (w.thread t).vm.stack k
  outcome : ∀ outcome, p.2 = .inr outcome → outcome.Kept w.store.heap (w.thread t).vm.stack k

/-- The thread goes on with a control that needs nothing but the heap. -/
theorem Passes.setControl {k : After} {p : World × (Wait ⊕ Outcome)}
    (h : Passes own (some t) w t k p) {c : Control}
    (hc : ∀ g, g.heap = w.store.heap → c.Stands own g t (w.thread t)) :
    (p.1.setControl t c).Kept own := by
  have hthread : p.1.thread t = w.thread t := by rw [thread, thread, h.threads]
  refine Sound.kept (h.sound.setControl ?_)
  rw [hthread]
  exact hc _ h.heap

theorem passes_outcome (h : w.Sound own away) {k : After} {outcome : Outcome}
    (ho : outcome.Kept w.store.heap (w.thread t).vm.stack k) :
    Passes own away w t k (w, .inr outcome) := by
  refine ⟨h, rfl, rfl, fun _ heq => (by cases heq), fun _ heq => ?_⟩
  cases heq
  exact ho

theorem passes_slot (h : w.Sound own away) {k : After} {f : CellId}
    (hf : ∀ callee outermost, k = .reply (.call callee outermost) →
      BoundAt w.store.heap (w.thread t).vm.stack callee f) :
    Passes own away w t k (match w.store.heap.resolved? f with
      | some v => (w, .inr (.value v))
      | none => (w, .inr .absent)) := by
  have hkept := Outcome.kept_slot hf
  split
  · rename_i v hv
    rw [hv] at hkept
    exact h.passes_outcome hkept
  · exact h.passes_outcome trivial

theorem passWait (h : w.Sound own away) (wait : Wait) {k : After}
    (hw : wait.Kept w.store.heap (w.thread t).vm.stack k) :
    Passes own away w t k (w.passWait t wait) := by
  cases wait with
  | «until» d => exact h.passes_outcome (Outcome.kept_immediate (by simp))
  | resolved f =>
    refine h.passes_slot fun callee outermost heq => ?_
    subst heq
    exact hw
  | resolvedBy f d =>
    refine h.passes_slot fun callee outermost heq => ?_
    subst heq
    exact hw
  | lock l phase =>
    refine ⟨h.neutral rfl rfl, rfl, rfl, fun wait heq => ?_, fun outcome heq => ?_⟩
    · simp only [World.passWait] at heq
      split at heq <;> cases heq
      trivial
    · simp only [World.passWait] at heq
      split at heq <;> cases heq
      · exact Outcome.kept_immediate (by simp)
      · trivial
  | creation =>
    refine ⟨h.neutral rfl rfl, rfl, rfl, fun wait heq => (by cases heq), fun outcome heq => ?_⟩
    cases heq
    trivial
  | settled => exact h.passes_outcome trivial
  | ended u => exact h.passes_outcome trivial

/-! ### Steps -/

/-- A step keeps the invariant, whether or not the code of a frame that executes is live. -/
theorem step_given (h : w.Sound own none) (t : ThreadId) (hhanded : w.StepGiven t) :
    (w.step t).Kept own := by
  have hstands := h.stands t (by simp)
  have hgo := h.go t
  unfold StepGiven at hhanded
  unfold World.step
  simp only
  generalize hcontrol : (w.thread t).control = c at hstands hhanded ⊢
  cases c with
  | idle => exact h.kept
  | finished o => exact h.kept
  | gone => exact h.kept
  | running =>
    simp only
    split
    · exact (hgo.endRun hstands).kept
    split
    · exact Sound.kept (hgo.setControl hstands)
    · exact hgo.execute hstands
  | stepping => exact hgo.execute hstands
  | rendezvous force k =>
    have hclear : (w.modifyStore (·.clearRequest)).Sound own (some t) :=
      hgo.rewrite (Store.edited_clearRequest _) rfl
    simp only
    split
    · refine Sound.kept ((hgo.park t).setControl ?_)
      rw [thread_park]
      exact hstands
    · split
      · exact hclear.rejoin hstands false
      · exact Sound.kept ((hclear.modifySync _).setControl hstands)
  | lingering k =>
    refine (hgo.unpark t).rejoin ?_ true
    rw [thread_unpark]
    exact hstands
  | gathering k => exact Sound.kept (hgo.setControl hstands)
  | sweeping k => exact (hgo.collect.modifySync _).rejoin hstands true
  | blocked wait k =>
    have hpass := hgo.passWait wait hstands.2
    rcases hp : w.passWait t wait with ⟨w', wait' | outcome⟩ <;> rw [hp] at hpass <;> simp only [hp]
    · exact hpass.setControl fun g hg => ⟨hstands.1, hg ▸ hpass.wait wait' rfl⟩
    · exact hpass.setControl fun g hg => ⟨hstands.1, hg ▸ hpass.outcome outcome rfl⟩
  | waiting wait k =>
    have hpass := hgo.passWait wait hstands.2
    rcases hp : w.passWait t wait with ⟨w', wait' | outcome⟩ <;> rw [hp] at hpass <;> simp only [hp]
    · exact hpass.setControl fun g hg => ⟨hstands.1, hg ▸ hpass.wait wait' rfl⟩
    · have hthread : w'.thread t = w.thread t := by rw [thread, thread, hpass.threads]
      refine hpass.sound.continueWith (hthread ▸ hstands.1) ?_ (hpass.heap ▸ hhanded)
      rw [hthread, hpass.heap]
      exact hpass.outcome outcome rfl
  | leaving outcome k =>
    refine (hgo.unpark t).continueWith ?_ ?_ ?_
    · rw [thread_unpark]
      exact hstands.1
    · rw [thread_unpark, heap_unpark]
      exact hstands.2
    · rw [heap_unpark]
      exact hhanded
  | enrolling =>
    refine Sound.kept (hgo.register.setControl ?_)
    split
    · trivial
    · rename_i i hi
      have hself : (w.register t).thread t =
          { w.thread t with storage := some w.store.collector.nextId } :=
        thread_modifyThread_self _ (lt_size_of_role hi)
      rw [hself]
      exact ⟨hstands, fun _ => rfl⟩
  | equipping =>
    obtain ⟨own', hledger, hequip⟩ := hgo.equip
    refine ⟨own', hledger, hequip.setControl ?_⟩
    split
    · trivial
    · rename_i i hi
      have hself : (w.equip t).thread t =
          { w.thread t with vm := {}, root := some w.store.collector.nextId } :=
        thread_modifyThread_self _ (lt_size_of_role hi)
      rw [hself]
      refine ⟨⟨hstands.2 (by simp [hi]), rfl⟩, fun j hj => ?_⟩
      -- The transfer root still holds the function and the arguments.
      obtain ⟨vs, hvs, hf, hargs⟩ := hstands.1 j hj
      exact ⟨vs, List.mem_cons_of_mem _ hvs, hf, hargs⟩
  | entering =>
    simp only
    split
    · exact Sound.kept (hgo.setControl trivial)
    · rename_i i hi
      obtain ⟨vs, hvs, hf, hargs⟩ := hstands.2 i hi
      have hheld : ∀ v ∈ vs, w.store.heap.Holds v := fun v hv =>
        h.held _ _ hvs v (Array.mem_toList_iff.2 hv)
      exact hgo.enter hstands.1 (hheld _ hf) fun a ha => hheld a (hargs a ha)
  | pausing ending =>
    simp only
    split
    · refine Sound.kept ((hgo.park t).setControl ?_)
      rw [thread_park]
      exact fun _ => hstands
    · exact (hgo.pause fun _ => hstands).kept
  | publishing ending =>
    simp only
    split
    · exact Sound.kept (hgo.setControl trivial)
    · exact (hgo.publish hstands _ ending).kept
  | resuming => exact Sound.kept ((hgo.modifySync _).setControl trivial)
  | releasing =>
    simp only
    split
    · exact Sound.kept (hgo.setControl trivial)
    · rename_i i hi
      have hdrop := hgo.dropRoot_of_owner (.inr (.inr ⟨t, rfl, h.transfer t i hi⟩))
      exact Sound.kept (hdrop.setControl trivial)
  | retiring =>
    simp only
    split
    · exact Sound.kept ((hgo.park t).setControl trivial)
    · exact hgo.leave.kept
  | unrooting => exact hgo.unroot.kept
  | littering n =>
    cases n with
    | zero => exact Sound.kept (hgo.setControl trivial)
    | succ n =>
      have he : Store.Edited ((w.thread t).caller t).storage w.store.heap.Holds w.store
          (w.store.make ((w.thread t).caller t).storage (.str "garbage")).1 :=
        Store.edited_make (by simp [Object.edges])
      exact Sound.kept ((hgo.work hstands he).setControl hstands)
  | resolving agenda =>
    simp only
    split
    · exact Sound.kept (hgo.setControl trivial)
    · rename_i d f v rest
      refine Sound.kept (Sound.setControl ?_ trivial)
      split
      · rename_i h' hr
        exact hgo.rewrite (Store.edited_resolve hr hhanded) (Heap.size_resolve hr)
      · exact hgo

/-- **A step keeps the invariant.** -/
theorem step (h : w.Sound own none) (t : ThreadId) (hhanded : w.StepHanded t) :
    (w.step t).Kept own :=
  h.step_given t hhanded.given

end Sound

end World

end ScriptCore
