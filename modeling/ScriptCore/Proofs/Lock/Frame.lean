import ScriptCore.Proofs.World.Chronicle

/-!
# What threads do to locks

A thread takes a lock in the steps of its wait, and gives back locks that it owns. Nothing else that
it does touches any lock there is.

* `Store.Releases`: a thread has given back locks that it owns, and that is all;
* `Method.releases_call`, `Vm.releases_step`: machines do no more;
* `Control.Starting`: a call of `lock` begins with the look at the owner;
* `World.LeavesLocks`, `World.Releases`: what a thread does outside of a wait for a lock;
* `World.lock_passWait`, `World.control_lock_step`: what a step of such a wait does;
* `Act.releases`, `Act.wait?_of_actor?`: the same for everything that happens in a run.
-/

namespace ScriptCore

/-! ### Machines -/

namespace Store

variable {t : ThreadId} {s s' s'' : Store} {l m : LockId} {lock : Lock}

/-- Thread `t` has given back locks that it owns; the others are as they were. -/
structure Releases (t : ThreadId) (s s' : Store) : Prop where
  size : s.locks.size ≤ s'.locks.size
  lock : ∀ l, s'.lock l = s.lock l ∨ (s.lock l).owner = some t ∧ s'.lock l = {}

theorem lock_congr (h : s'.locks = s.locks) (l : LockId) : s'.lock l = s.lock l := by
  rw [Store.lock, Store.lock, h]

theorem lock_setLock (s : Store) (l m : LockId) (lock : Lock) :
    (s.setLock m lock).lock l = if m = l ∧ l < s.locks.size then lock else s.lock l := by
  simp only [Store.lock, setLock, Array.getD_eq_getD_getElem?, Array.getElem?_setIfInBounds]
  by_cases hm : m = l
  · subst hm
    by_cases hlt : m < s.locks.size <;> simp [hlt]
  · simp [hm]

/-- Putting a lock where it is changes nothing. -/
theorem setLock_lock (s : Store) (l : LockId) : s.setLock l (s.lock l) = s := by
  have hlocks : s.locks.setIfInBounds l (s.locks.getD l {}) = s.locks := by
    ext i hi hi'
    · simp
    · rw [Array.getElem_setIfInBounds (by simpa using hi)]
      split
      · rename_i heq
        subst heq
        rw [Array.getD_eq_getD_getElem?, Array.getElem?_eq_getElem hi']
        rfl
      · rfl
  rw [setLock, Store.lock, hlocks]

/-- A new lock is free, as a lock that is not there. -/
theorem lock_newLock (s : Store) (l : LockId) : s.newLock.1.lock l = s.lock l := by
  simp only [Store.lock, newLock, Array.getD_eq_getD_getElem?, Array.getElem?_push]
  split
  · rename_i hl
    simp [hl]
  · rfl

namespace Releases

theorem of_locks (h : s'.locks = s.locks) : Releases t s s' :=
  ⟨(congrArg Array.size h).ge, fun l => .inl (lock_congr h l)⟩

theorem refl (t : ThreadId) (s : Store) : Releases t s s := .of_locks rfl

theorem trans (h : Releases t s s') (h' : Releases t s' s'') : Releases t s s'' := by
  refine ⟨h.size.trans h'.size, fun l => ?_⟩
  rcases h.lock l with heq | ⟨howner, hfree⟩
  · rw [← heq]
    exact h'.lock l
  · -- a lock that has been given back has no owner who could do it again
    refine .inr ⟨howner, ?_⟩
    rcases h'.lock l with heq | ⟨-, heq⟩
    · exact heq.trans hfree
    · exact heq

end Releases

theorem releases_unlock (h : (s.lock m).unlock t = .ok lock) :
    Releases t s (s.setLock m lock) := by
  obtain ⟨howner, rfl⟩ := Lock.unlock_eq_ok_iff.1 h
  refine ⟨by simp [setLock], fun l => ?_⟩
  rw [lock_setLock]
  split
  · rename_i hl
    obtain ⟨rfl, -⟩ := hl
    exact .inr ⟨howner, rfl⟩
  · exact .inl rfl

end Store

open Store (Releases)

section machine

variable {me : Caller} {s : Store}

theorem Native.releases_call (t : ThreadId) (f : Native) (args : Array Value) :
    Releases t s (f.call me args s).1 := by
  unfold Native.call
  split
  · cases f with
    | mutex => exact ⟨by simp [Native.run, Native.makeValue, Store.newLock, Store.make],
        fun l => .inl (Store.lock_newLock s l)⟩
    | startIsolate | waitUntilCompleted | sleep | sleepMs =>
      simp only [Native.run, Native.request]
      split <;> exact .refl t s
    | setAllocLimit =>
      simp only [Native.run, Native.setLimit]
      split
      · split <;> exact .of_locks rfl
      · exact .refl t s
    | count | boomString =>
      simp only [Native.run]
      split <;> exact .refl t s
    | _ => exact .of_locks rfl
  · exact .refl t s

theorem Method.releases_run (m : Method) (c : CellId) (args : Array Value) :
    Releases me.thread s (m.run me c args s).1 := by
  unfold Method.run
  split
  · unfold Method.increment
    split
    · split
      · split <;> exact .of_locks rfl
      · exact .refl _ s
    · exact .refl _ s
  · exact .refl _ s
  · split <;> exact .of_locks rfl
  · split <;> exact .refl _ s
  · exact .of_locks rfl
  · exact .of_locks rfl
  · exact .refl _ s
  · split <;> exact .refl _ s
  · exact .refl _ s
  · exact .refl _ s
  · split
    · exact Store.releases_unlock ‹_›
    · exact .refl _ s
  · exact .refl _ s

theorem Method.releases_call (m : Method) (c : CellId) (args : Array Value) :
    Releases me.thread s (m.call me c args s).1 := by
  unfold Method.call
  split
  · exact releases_run m c args
  · exact .refl _ s

namespace Vm

variable {vm : Vm}

theorem locks_arith (op : Arith) (l r : Value) : (arith me op l r s).1.locks = s.locks := by
  unfold arith
  simp only
  split
  · rfl
  · split
    · rfl
    · split <;> rfl

theorem releases_invoke (argc : UInt64) : Releases me.thread s (vm.invoke me argc s).2.1 := by
  unfold invoke
  split
  · exact .refl _ s
  split
  · exact .refl _ s
  simp only
  split
  · split <;> exact .refl _ s
  · rw [store_answer]
    exact Native.releases_call _ _ _
  · rw [store_answer]
    exact Method.releases_call _ _ _
  · exact .refl _ s

theorem releases_exec (code : Code) (base : Nat) (instr : Instr) :
    Releases me.thread s (vm.exec me code base instr s).2.1 := by
  cases instr with
  | const i =>
    rw [exec, store_pushOr]
    exact .refl _ s
  | arith op =>
    simp only [exec]
    split
    · exact .refl _ s
    · split
      · exact .refl _ s
      · rw [store_pushOr]
        exact .of_locks (locks_arith _ _ _)
  | call argc => exact releases_invoke argc
  | ret =>
    rw [exec, store_ret]
    exact .refl _ s
  | getAttr i | setAttr i =>
    simp only [exec]
    split
    · exact .refl _ s
    · split
      · exact .refl _ s
      · split <;> first
          | exact .of_locks rfl
          | (split <;> exact .of_locks rfl)
  | arg i | «global» i =>
    simp only [exec]
    split
    · exact .refl _ s
    · split <;> exact .refl _ s
  | pop | raise =>
    simp only [exec]
    split <;> exact .refl _ s

/-- A machine gives back locks of its thread and does nothing else to locks. -/
theorem releases_step (me : Caller) (vm : Vm) (s : Store) :
    Releases me.thread s (vm.step me s).2.1 := by
  unfold step
  split
  · exact .refl _ s
  · split
    · split
      · exact releases_exec _ _ _
      · rw [store_ret]
        exact .refl _ s
    · exact .refl _ s

theorem locks_receive (me : Caller) (callee : Nat) (vm : Vm) (s : Store) (o : Outcome) :
    (vm.receive me callee s o).2.1.locks = s.locks := by
  cases o <;> rfl

end Vm

end machine

/-! ### Threads -/

/-- A wait for a lock with this control has only just begun. -/
def Control.Starting (c : Control) : Prop := ∀ l p, c.wait? = some (.lock l p) → p = .check

theorem Control.starting_of_wait? {c : Control} (h : c.wait? = none) : c.Starting := by
  intro l p hw
  rw [h] at hw
  cases hw

theorem Role.starting_entered (role : Role) : role.entered.Starting := by
  cases role <;> exact Control.starting_of_wait? rfl

theorem Role.starting_ended (role : Role) : role.ended.Starting := by
  cases role <;> exact Control.starting_of_wait? rfl

theorem Role.starting_interrupted (role : Role) (p : Panic) : (role.interrupted p).Starting := by
  cases role <;> exact Control.starting_of_wait? rfl

namespace World

variable {w w₁ w' : World} {t : ThreadId}

/-- The locks are as they were, and a wait for a lock that the thread comes to has only just
begun. -/
structure LeavesLocks (t : ThreadId) (w w' : World) : Prop where
  locks : w'.store.locks = w.store.locks
  control : (w'.control t).Starting

/-- What a thread does outside of a wait for a lock: it gives back locks that it owns, and a wait
for a lock that it comes to has only just begun. -/
structure Releases (t : ThreadId) (w w' : World) : Prop where
  store : Store.Releases t w.store w'.store
  control : (w'.control t).Starting

theorem control_setControl (w : World) (t : ThreadId) (c : Control) :
    (w.setControl t c).control t = c ∨
      (w.setControl t c).control t = .idle ∧ w.threads.size ≤ t := by
  by_cases ht : t < w.threads.size
  · exact .inl (congrArg Thread.control (thread_modifyThread_self _ ht))
  · have hle : w.threads.size ≤ t := Nat.not_lt.1 ht
    refine .inr ⟨?_, hle⟩
    rw [setControl, modifyThread_of_size_le _ hle, control, thread_of_size_le hle]

namespace LeavesLocks

theorem of_locks (h : w₁.store.locks = w.store.locks) {c : Control} (hc : c.Starting) :
    LeavesLocks t w (w₁.setControl t c) := by
  refine ⟨h, ?_⟩
  rcases control_setControl w₁ t c with heq | ⟨heq, -⟩
  · rwa [heq]
  · rw [heq]
    exact Control.starting_of_wait? rfl

/-- The thread comes to a control that does not wait. -/
theorem rests (w w₁ : World) (t : ThreadId) (c : Control) (hc : c.wait? = none := by rfl)
    (h : w₁.store.locks = w.store.locks := by rfl) : LeavesLocks t w (w₁.setControl t c) :=
  .of_locks h (Control.starting_of_wait? hc)

/-- A change of the store before. -/
theorem before (h : LeavesLocks t w₁ w') (hs : w₁.store.locks = w.store.locks) :
    LeavesLocks t w w' :=
  ⟨h.locks.trans hs, h.control⟩

/-- The thread has given back locks before. -/
theorem after (h : LeavesLocks t w₁ w') (hs : Store.Releases t w.store w₁.store) :
    Releases t w w' :=
  ⟨hs.trans (.of_locks h.locks), h.control⟩

theorem releases (h : LeavesLocks t w w') : Releases t w w' := h.after (.refl t w.store)

end LeavesLocks

theorem locks_dropRoot (w : World) (id : RootId) :
    (w.dropRoot id).store.locks = w.store.locks := by
  unfold dropRoot
  split <;> rfl

theorem locks_park (w : World) (t : ThreadId) : (w.park t).store.locks = w.store.locks := by
  unfold park
  split <;> rfl

theorem locks_unpark (w : World) (t : ThreadId) : (w.unpark t).store.locks = w.store.locks := by
  unfold unpark
  split <;> rfl

/-- A machine that does not wait. -/
theorem leavesLocks_answer (w : World) (t : ThreadId) (outermost : Bool) (vm : Vm) {signal : Signal}
    (hsignal : ∀ callee q, signal ≠ .suspended callee q) :
    LeavesLocks t w (w.afterSignal t outermost vm signal) := by
  cases signal with
  | next =>
    simp only [afterSignal, proceed]
    split
    · rw [endEnter_eq]
      exact .of_locks (by rfl) (Role.starting_entered _)
    · exact .rests _ _ _ _
  | failed e =>
    simp only [afterSignal, proceed]
    split
    · rw [endEnter_eq]
      exact .of_locks (by rfl) (Role.starting_entered _)
    · rw [endRun_eq]
      exact .of_locks (by rfl) (Role.starting_ended _)
  | panicked q =>
    simp only [afterSignal]
    rw [interrupt_eq]
    exact .of_locks (by rfl) (Role.starting_interrupted _ _)
  | suspended callee q => exact absurd rfl (hsignal callee q)

theorem leavesLocks_deliver (w : World) (t : ThreadId) (k : Consumer) (o : Outcome) :
    LeavesLocks t w (w.deliver t k o) := by
  cases k with
  | host => exact .rests _ _ _ _
  | call callee outermost =>
    rw [deliver_call]
    exact (leavesLocks_answer _ t outermost _ (Vm.receive_not_suspended _ _ _ _)).before
      (Vm.locks_receive _ _ _ _ _)

theorem leavesLocks_launch (w : World) (t : ThreadId) (function : Value) (args : Array Value)
    (k : Consumer) : LeavesLocks t w (w.launch t function args k) := by
  have hdropped : ((w.anchored t function args).dropRoot w.store.collector.nextId).store.locks =
      w.store.locks := locks_dropRoot _ _
  rcases launch_cases w t function args k with ⟨why, -, heq⟩ | ⟨p, heq⟩ | ⟨name, heq⟩
  · rw [heq]
    exact (leavesLocks_deliver _ t k _).before hdropped
  · rw [heq, interrupt_eq]
    exact .of_locks hdropped (Role.starting_interrupted _ _)
  · rw [heq]
    exact (leavesLocks_deliver _ t k _).before rfl

theorem leavesLocks_block (w : World) (t : ThreadId) {wait : Wait} {k : After}
    (hwait : ∀ l p, wait = .lock l p → p = .check) : LeavesLocks t w (w.block t wait k) := by
  refine .of_locks (locks_park w t) fun l p hw => hwait l p ?_
  simpa [Control.wait?] using hw

theorem leavesLocks_joinPass (w : World) (t : ThreadId) (j : Join) (k : Consumer) :
    LeavesLocks t w (w.joinPass t j k) := by
  unfold joinPass
  simp only
  split
  · refine (leavesLocks_deliver _ t k _).before ?_
    rw [locks_dropRoot, locks_dropRoot]
  · refine LeavesLocks.before (leavesLocks_block _ t ?_) rfl
    simp

theorem leavesLocks_request (w : World) (t : ThreadId) (r : Request) (k : Consumer) :
    LeavesLocks t w (w.request t r k) := by
  cases r with
  | collect => exact .rests _ _ _ _
  | join fs poll tagged =>
    simp only [request, joinStart]
    split
    · exact leavesLocks_deliver w t k _
    · exact leavesLocks_deliver w t k _
    · exact (leavesLocks_joinPass _ t _ k).before rfl
  | lock l =>
    refine leavesLocks_block w t fun m p heq => ?_
    cases heq
    rfl
  | sleep | await | awaitFor | start | settle => exact leavesLocks_block w t (by simp)

theorem leavesLocks_signal (w : World) (t : ThreadId) (outermost : Bool) (vm : Vm)
    (signal : Signal) : LeavesLocks t w (w.afterSignal t outermost vm signal) := by
  cases signal with
  | suspended callee r => exact (leavesLocks_request (w.setVm t vm) t r _).before rfl
  | next | failed | panicked => exact leavesLocks_answer w t outermost vm (by simp)

theorem releases_execute (w : World) (t : ThreadId) : Releases t w (w.execute t) :=
  (leavesLocks_signal _ t false _ _).after
    (Vm.releases_step ((w.thread t).caller t) (w.thread t).vm w.store)

theorem releases_enter (w : World) (t : ThreadId) (function : Value) (args : Array Value) :
    Releases t w (w.enter t function args) := by
  let me := (w.thread t).caller t
  have hstore : Store.Releases me.thread w.store
      ((w.thread t).vm.enter me function args w.store).2.1 := Vm.releases_invoke _
  exact (leavesLocks_signal _ t true _ _).after hstore

theorem leavesLocks_leave (w : World) (t : ThreadId) : LeavesLocks t w (w.leave t) := by
  rcases w.leave_eq t with ⟨-, heq⟩ | ⟨id, g, -, -, heq⟩ | ⟨id, p, -, -, heq⟩ <;> rw [heq]
  · exact .rests _ _ _ _
  · exact .rests _ _ _ _
  · exact .of_locks rfl (Role.starting_interrupted _ _)

theorem leavesLocks_pause (w : World) (t : ThreadId) (ending : Option Ending) :
    LeavesLocks t w (w.pause t ending) := by
  cases ending <;> exact .rests _ _ _ _

theorem leavesLocks_continueWith (w : World) (t : ThreadId) (k : After) (o : Outcome) :
    LeavesLocks t w (w.continueWith t k o) := by
  cases k with
  | instruction => exact .rests _ _ _ _
  | reply k => exact leavesLocks_deliver w t k o
  | start function args k => exact leavesLocks_launch w t function args k
  | join j k => exact leavesLocks_joinPass w t j k
  | pause ending => exact leavesLocks_pause w t ending
  | retire => exact leavesLocks_leave w t

theorem leavesLocks_publish (w : World) (t : ThreadId) (i : Isolate) (ending : Ending) :
    LeavesLocks t w (w.publish t i ending) := by
  rw [publish_eq]
  refine .of_locks ?_ (Control.starting_of_wait? rfl)
  show (w.published t i ending).locks = w.store.locks
  have htagged : (w.tagged t ending).1.locks = w.store.locks := by cases ending <;> rfl
  unfold published
  simp only
  split <;> exact htagged

theorem leavesLocks_unroot (w : World) (t : ThreadId) : LeavesLocks t w (w.unroot t) := by
  rw [unroot_eq]
  refine .of_locks ?_ (Control.starting_of_wait? ?_)
  · show (w.uproot t).store.locks = w.store.locks
    unfold uproot
    split
    · exact locks_dropRoot w _
    · rfl
  · cases (w.thread t).role <;> rfl

/-- A wait that is not for a lock. -/
theorem locks_passWait (w : World) (t : ThreadId) {wait : Wait}
    (hwait : ∀ l p, wait ≠ .lock l p) : (w.passWait t wait).1.store.locks = w.store.locks := by
  cases wait with
  | resolved f | resolvedBy f d =>
    simp only [passWait]
    split <;> rfl
  | lock l p => exact absurd rfl (hwait l p)
  | _ => rfl

/-- A wait that is not for a lock does not lead to one. -/
theorem passWait_ne_inl (w : World) (t : ThreadId) {wait wait' : Wait}
    (hwait : ∀ l p, wait ≠ .lock l p) : (w.passWait t wait).2 ≠ .inl wait' := by
  cases wait with
  | resolved f | resolvedBy f d =>
    simp only [passWait]
    split <;> simp
  | lock l p => exact absurd rfl (hwait l p)
  | _ => simp [World.passWait]

/-- A step of a thread that does not wait for a lock. -/
theorem releases_step (w : World) (t : ThreadId)
    (hwait : ∀ l p, (w.control t).wait? ≠ some (.lock l p)) : Releases t w (w.step t) := by
  have hcontrol : (w.thread t).control = w.control t := rfl
  unfold step
  simp only [hcontrol]
  split
  case h_1 h | h_2 h | h_3 h => exact ⟨.refl _ _, fun l p hw => absurd hw (hwait l p)⟩
  case h_4 h =>
    split
    · rw [endRun_eq]
      exact (LeavesLocks.of_locks (by rfl) (Role.starting_ended _)).releases
    · split
      · exact (LeavesLocks.rests _ _ _ _).releases
      · exact releases_execute w t
  case h_5 h => exact releases_execute w t
  case h_6 h =>
    split
    · exact (LeavesLocks.rests _ _ _ _ rfl (locks_park w t)).releases
    · split
      · exact ((leavesLocks_continueWith _ t _ _).before (by rfl)).releases
      · exact (LeavesLocks.rests _ _ _ _).releases
  case h_7 h => exact ((leavesLocks_continueWith _ t _ _).before (locks_unpark w t)).releases
  case h_8 h => exact (LeavesLocks.rests _ _ _ _).releases
  case h_9 h => exact ((leavesLocks_continueWith _ t _ _).before (by rfl)).releases
  case h_10 wait k h =>
    have hne : ∀ l p, wait ≠ .lock l p := by
      rintro l p rfl
      exact hwait l p (by rw [h]; rfl)
    have hlocks := locks_passWait w t hne
    split <;> rename_i w' x hw <;> rw [hw] at hlocks
    · exact absurd (congrArg Prod.snd hw) (passWait_ne_inl w t hne)
    · exact (LeavesLocks.rests _ _ _ _ rfl hlocks).releases
  case h_11 wait k h =>
    have hne : ∀ l p, wait ≠ .lock l p := by
      rintro l p rfl
      exact hwait l p (by rw [h]; rfl)
    have hlocks := locks_passWait w t hne
    split <;> rename_i w' x hw <;> rw [hw] at hlocks
    · exact absurd (congrArg Prod.snd hw) (passWait_ne_inl w t hne)
    · exact ((leavesLocks_continueWith _ t _ _).before hlocks).releases
  case h_12 h => exact ((leavesLocks_continueWith _ t _ _).before (locks_unpark w t)).releases
  case h_13 h =>
    refine LeavesLocks.releases (.of_locks (by rfl) ?_)
    split <;> exact Control.starting_of_wait? rfl
  case h_14 h =>
    refine LeavesLocks.releases (.of_locks (by rfl) ?_)
    split <;> exact Control.starting_of_wait? rfl
  case h_15 h =>
    split
    · exact (LeavesLocks.rests _ _ _ _).releases
    · exact releases_enter w t _ _
  case h_16 h =>
    split
    · exact (LeavesLocks.rests _ _ _ _ rfl (locks_park w t)).releases
    · exact (leavesLocks_pause w t _).releases
  case h_17 h =>
    split
    · exact (LeavesLocks.rests _ _ _ _).releases
    · exact (leavesLocks_publish w t _ _).releases
  case h_18 h => exact (LeavesLocks.rests _ _ _ _).releases
  case h_19 h =>
    split
    · exact (LeavesLocks.rests _ _ _ _).releases
    · exact (LeavesLocks.rests _ _ _ _ rfl (locks_dropRoot w _)).releases
  case h_20 h =>
    split
    · exact (LeavesLocks.rests _ _ _ _ rfl (locks_park w t)).releases
    · exact (leavesLocks_leave w t).releases
  case h_21 h => exact (leavesLocks_unroot w t).releases
  case h_22 h => exact (LeavesLocks.rests _ _ _ _).releases
  case h_23 h => exact (LeavesLocks.rests _ _ _ _).releases
  case h_24 h =>
    split
    · exact (LeavesLocks.rests _ _ _ _).releases
    · refine LeavesLocks.releases (.rests _ _ _ _ rfl ?_)
      split <;> rfl

/-! ### Waits for locks -/

/-- A step of a wait for a lock. -/
theorem lock_passWait (w : World) (t : ThreadId) (l m : LockId) (p : LockPhase) :
    (w.passWait t (.lock m p)).1.store.lock l =
      if m = l ∧ l < w.store.locks.size then ((w.store.lock l).advance t p).1
      else w.store.lock l := by
  simp only [passWait, modifyStore]
  rw [Store.lock_setLock]
  split
  · rename_i hl
    obtain ⟨rfl, -⟩ := hl
    rfl
  · rfl

/-- Where a thread stands after a step of a wait for a lock: it waits for the next phase, or its
call is over. -/
theorem control_lock_step {w : World} {t : ThreadId} {m : LockId} {p : LockPhase}
    (hwait : (w.control t).wait? = some (.lock m p)) :
    (∀ p', ((w.store.lock m).advance t p).2 = .next p' →
      ((w.step t).control t).wait? = some (.lock m p')) ∧
    ((∀ p', ((w.store.lock m).advance t p).2 ≠ .next p') → ((w.step t).control t).Starting) := by
  have ht : t < w.threads.size := lt_size_of_control fun h => by rw [h] at hwait; cases hwait
  have hthreads : (w.passWait t (.lock m p)).1.threads.size = w.threads.size := by
    rw [threads_passWait]
  have hself : ∀ w₁ : World, w₁.threads.size = w.threads.size → ∀ c,
      (w₁.setControl t c).control t = c := by
    intro w₁ hsize c
    rcases control_setControl w₁ t c with heq | ⟨-, hle⟩
    · exact heq
    · exact absurd (hsize ▸ hle) (Nat.not_le.2 ht)
  have hcontrol : (w.thread t).control = w.control t := rfl
  unfold step
  simp only [hcontrol]
  cases hc : w.control t with
  | blocked wait k | waiting wait k =>
    rw [hc] at hwait
    cases hwait
    simp only [passWait] at hthreads ⊢
    cases hadvance : ((w.store.lock m).advance t p).2 with
    | next p' => simp [hself _ hthreads, Control.wait?]
    | taken | refused =>
      refine ⟨(by simp), fun _ => ?_⟩
      first
        | exact (leavesLocks_continueWith _ t _ _).control
        | exact (LeavesLocks.rests _ _ t (.leaving _ _)).control
  | _ => rw [hc] at hwait; cases hwait

/-- What becomes of the locks in a step of a wait for one of them. -/
theorem lock_step {w : World} {t : ThreadId} {m : LockId} {p : LockPhase}
    (hwait : (w.control t).wait? = some (.lock m p)) :
    (w.step t).store.locks = (w.passWait t (.lock m p)).1.store.locks := by
  have hcontrol : (w.thread t).control = w.control t := rfl
  unfold step
  simp only [hcontrol]
  cases hc : w.control t with
  | blocked wait k =>
    rw [hc] at hwait
    cases hwait
    simp only
    split <;> rename_i hw <;> rw [hw] <;> rfl
  | waiting wait k =>
    rw [hc] at hwait
    cases hwait
    simp only
    split <;> rename_i hw <;> rw [hw]
    · rfl
    · exact (leavesLocks_continueWith _ t _ _).locks
  | _ => rw [hc] at hwait; cases hwait

theorem size_lock_step {w : World} {t : ThreadId} {m : LockId} {p : LockPhase}
    (hwait : (w.control t).wait? = some (.lock m p)) :
    (w.step t).store.locks.size = w.store.locks.size := by
  rw [lock_step hwait]
  simp [passWait, modifyStore, Store.setLock]

/-- A task leaves the locks alone, or calls a function that gives some back. -/
theorem releases_assign (w : World) (t : ThreadId) (task : Task) :
    Releases t w (w.assign t task) := by
  cases task with
  | enroll | safepoint =>
    simp only [assign]
    split <;> exact (LeavesLocks.rests _ _ _ _).releases
  | equip | retire | run | litter => exact (LeavesLocks.rests _ _ _ _).releases
  | pause =>
    simp only [assign]
    split
    · exact (LeavesLocks.rests _ _ _ _ rfl (locks_park w t)).releases
    · exact (leavesLocks_pause w t none).releases
  | call function args => exact releases_enter w t function args
  | lock l =>
    refine LeavesLocks.releases (.of_locks (by rfl) fun m p hw => ?_)
    cases hw
    rfl
  | nest =>
    have hblock : LeavesLocks t w (w.block t (.until w.store.now) (.reply .host)) :=
      leavesLocks_block w t (by simp)
    simp only [assign, nest, enterRegion]
    split
    · rename_i w' hw
      split at hw
      · cases hw
      · cases hw
        refine LeavesLocks.releases ((leavesLocks_block _ t ?_).before hblock.locks)
        simp
    · exact (LeavesLocks.rests _ _ _ _ rfl hblock.locks).releases
  | request r => exact (leavesLocks_request w t r .host).releases

end World

/-! ### Everything that happens -/

theorem Store.locks_publish (s : Store) (fs : List Native) : (s.publish fs).locks = s.locks := by
  unfold Store.publish
  induction fs generalizing s with
  | nil => rfl
  | cons f fs ih => exact ih _

namespace Act

open World

variable {c : Chronicle} {a : Act} {t u : ThreadId}

/-- What is about no thread leaves the locks alone. -/
theorem locks_of_actor? (hactor : a.actor? = none) (h : Hosted) :
    (a.apply h).world.store.locks = h.world.store.locks := by
  cases a with
  | step | assign | wait | dismiss | push | pop => cases hactor
  | resolve d v | setAttr d name v =>
    simp only [Act.apply]
    split <;> rfl
  | unroot id => exact locks_dropRoot _ id
  | library l =>
    simp only [Act.apply, Store.addLibrary]
    cases l.entries with
    | ok fs => exact Store.locks_publish _ fs
    | error e => rfl
  | _ => rfl

/-- A thread that waits goes on waiting for the same, whatever others do. -/
theorem wait?_of_actor? (ha : a.Orderly c) (hactor : a.actor? ≠ some u) :
    ((a.record c).world.control u).wait? = (c.world.control u).wait? := by
  by_cases hu : u < c.world.threads.size
  · obtain ⟨n, heq⟩ := bystander ha hactor hu
    rw [World.control, heq]
    rfl
  · have hle := Nat.not_lt.1 hu
    have hbefore : c.world.control u = .idle := by
      rw [World.control, thread_of_size_le hle]
    rw [hbefore]
    rcases newcomer ha hle with ⟨control, heq, hcontrol⟩ | hborn
    · rw [World.control, heq]
      rcases hcontrol with rfl | ⟨agenda, rfl⟩ <;> rfl
    · obtain ⟨name, i, heq⟩ := hborn.fresh
      rw [World.control, heq]
      rfl

/-- What the host begins for a thread and what a thread does outside of a wait for a lock. -/
theorem releases (ha : a.Orderly c) (hactor : a.actor? = some t)
    (hstep : a = .step t → ∀ l p, (c.world.control t).wait? ≠ some (.lock l p))
    (hwait : ∀ l p parked, a = .wait t (.lock l p) parked → p = .check) :
    Releases t c.world (a.record c).world := by
  have hrest : ∀ vm, c.world.Spare t → Releases t c.world (c.world.setVm t vm) := by
    intro vm hspare
    refine ⟨.of_locks rfl, Control.starting_of_wait? ?_⟩
    have hat : (c.world.setVm t vm).atRest t = true := (atRest_setVm vm).trans hspare.rests
    rcases control_of_atRest hat with h | ⟨o, h⟩ | h <;> rw [h] <;> rfl
  cases a with
  | step u =>
    cases hactor
    exact releases_step _ t (hstep rfl)
  | assign u task =>
    cases hactor
    exact releases_assign _ t task
  | wait u what parked =>
    cases hactor
    have hstarts : ∀ l p, what = .lock l p → p = .check := by
      rintro l p rfl
      exact hwait l p parked rfl
    cases parked with
    | true => exact (leavesLocks_block _ t hstarts).releases
    | false =>
      refine LeavesLocks.releases (.of_locks (by rfl) fun l p hw => hstarts l p ?_)
      simpa [Control.wait?] using hw
  | dismiss u =>
    cases hactor
    have hgone : LeavesLocks t c.world (c.world.setControl t .gone) := .rests _ _ _ _
    exact ⟨.of_locks hgone.locks, hgone.control⟩
  | push u v =>
    cases hactor
    exact hrest _ ha
  | pop u =>
    cases hactor
    exact hrest _ ha
  | _ => cases hactor

end Act

end ScriptCore
