import ScriptCore.Proofs.World.Runs

/-!
# Every thread has its place in line

Steps leave the line as it is, and do not count themselves. Only a thread that is new is added to
the line, at the end; only giving a thread its place after a turn moves it, and only a turn counts.

* `World.roll`: what steps leave alone; `enrolls_step`: what a step makes of that;
* `World.Lined`: no thread is forgotten; `Lined.turn`: it stays like that.
-/

namespace ScriptCore

namespace World

/-- The steps that each thread has made in the round, and the line. -/
def roll (w : World) : Array Nat × List ThreadId := (w.threads.map (·.spent), w.line)

variable (w : World) (t : ThreadId)

@[simp] theorem roll_withStore (s : Store) : roll { w with store := s } = w.roll := rfl

@[simp] theorem roll_modifyStore (f : Store → Store) : (w.modifyStore f).roll = w.roll := rfl

@[simp] theorem roll_modifySync (f : Rendezvous → Rendezvous) : (w.modifySync f).roll = w.roll :=
  rfl

@[simp] theorem roll_modifyThread {f : Thread → Thread} (hf : ∀ th, (f th).spent = th.spent) :
    (w.modifyThread t f).roll = w.roll := by
  refine Prod.ext (Array.ext (by simp [roll, modifyThread]) fun i hi _ => ?_) rfl
  simp only [roll, modifyThread, Array.getElem_map, Array.getElem_modify]
  split
  · exact hf _
  · rfl

@[simp] theorem roll_setControl (c : Control) : (w.setControl t c).roll = w.roll :=
  roll_modifyThread w t fun _ => rfl

@[simp] theorem roll_setVm (vm : Vm) : (w.setVm t vm).roll = w.roll :=
  roll_modifyThread w t fun _ => rfl

@[simp] theorem roll_collect : w.collect.roll = w.roll := rfl

@[simp] theorem roll_dropRoot (id : RootId) : (w.dropRoot id).roll = w.roll := by
  unfold dropRoot
  split <;> rfl

@[simp] theorem roll_park : (w.park t).roll = w.roll := by
  unfold park
  split <;> rfl

@[simp] theorem roll_unpark : (w.unpark t).roll = w.roll := by
  unfold unpark
  split <;> rfl

@[simp] theorem roll_block (wait : Wait) (k : After) : (w.block t wait k).roll = w.roll := by
  simp [block]

@[simp] theorem roll_endRun : (w.endRun t).roll = w.roll := by
  unfold endRun
  split <;> simp

@[simp] theorem roll_endEnter : (w.endEnter t).roll = w.roll := by
  unfold endEnter
  split <;> simp

@[simp] theorem roll_interrupt (p : Panic) : (w.interrupt t p).roll = w.roll := by
  unfold interrupt
  split <;> simp

@[simp] theorem roll_proceed (outermost : Bool) (vm : Vm) (e : Option Cause) :
    (w.proceed t outermost vm e).roll = w.roll := by
  cases e <;> simp only [proceed] <;> split <;> simp

@[simp] theorem roll_deliver (k : Consumer) (outcome : Outcome) :
    (w.deliver t k outcome).roll = w.roll := by
  cases k with
  | host => simp [deliver]
  | call callee outermost => cases outcome <;> simp [deliver, takeVm]

@[simp] theorem roll_joinPass (j : Join) (k : Consumer) : (w.joinPass t j k).roll = w.roll := by
  unfold joinPass
  cases hmissing : Join.missing w.store.heap j.pending <;> simp [hmissing]

@[simp] theorem roll_joinStart (fs : Array Value) (poll : Nat) (tagged : Bool) (k : Consumer) :
    (w.joinStart t fs poll tagged k).roll = w.roll := by
  unfold joinStart
  split <;> simp

@[simp] theorem roll_request (r : Request) (k : Consumer) : (w.request t r k).roll = w.roll := by
  cases r <;> simp [request]

theorem roll_assign (r : Request) : (w.assign t (.request r)).roll = w.roll :=
  roll_request w t r .host

@[simp] theorem roll_afterSignal (outermost : Bool) (vm : Vm) (signal : Signal) :
    (w.afterSignal t outermost vm signal).roll = w.roll := by
  cases signal <;> simp [afterSignal]

@[simp] theorem roll_execute : (w.execute t).roll = w.roll := by
  simp [execute, takeVm]

@[simp] theorem roll_enter (function : Value) (args : Array Value) :
    (w.enter t function args).roll = w.roll := by
  simp [enter, takeVm]

@[simp] theorem roll_pause (ending : Option Ending) : (w.pause t ending).roll = w.roll := by
  simp [pause]

@[simp] theorem roll_leave : (w.leave t).roll = w.roll := by
  unfold leave unregister
  cases (w.thread t).storage with
  | none => simp
  | some id => cases hg : w.store.collector.retire id <;> simp [hg, Except.map]

@[simp] theorem roll_unroot : (w.unroot t).roll = w.roll := by
  unfold unroot
  cases hroot : (w.thread t).root <;> cases hrole : (w.thread t).role <;> simp [hroot, hrole]

@[simp] theorem roll_passWait (wait : Wait) : (w.passWait t wait).1.roll = w.roll := by
  cases wait with
  | resolved f | resolvedBy f d =>
    simp only [passWait]
    split <;> rfl
  | _ => rfl

@[simp] theorem roll_publish (i : Isolate) (e : Ending) : (w.publish t i e).roll = w.roll := by
  cases e <;> simp [publish]

/-- The roll may have one new thread, which is last in line. -/
def Enrolls (w w' : World) : Prop :=
  w'.roll = w.roll ∨ w'.roll = (w.roll.1.push 0, w.line ++ [w.threads.size])

variable {w t}

theorem enrolls_launch (function : Value) (args : Array Value) (k : Consumer) :
    w.Enrolls (w.launch t function args k) := by
  unfold launch
  simp only
  split
  · exact .inl (by simp)
  · split
    · exact .inl (by simp)
    · refine .inr ?_
      rw [roll_deliver, roll_modifyStore]
      simp [roll, add]

theorem enrolls_continueWith (k : After) (outcome : Outcome) :
    w.Enrolls (w.continueWith t k outcome) := by
  cases k with
  | start function args consumer => exact enrolls_launch function args consumer
  | _ => exact .inl (by simp [continueWith])

theorem size_of_roll {w' : World} (h : w'.roll = w.roll) : w'.threads.size = w.threads.size := by
  have hsizes := congrArg (fun r => r.1.size) h
  simpa [roll] using hsizes

theorem Enrolls.of_roll {w₁ w' : World} (h : w₁.Enrolls w') (hroll : w₁.roll = w.roll) :
    w.Enrolls w' := by
  have hline : w₁.line = w.line := congrArg Prod.snd hroll
  rcases h with h | h
  · exact .inl (h.trans hroll)
  · exact .inr (by rw [h, hroll, hline, size_of_roll hroll])

/-- **A step** may start a thread, which is last in line; all others keep their places. -/
theorem enrolls_step (w : World) (t : ThreadId) : w.Enrolls (w.step t) := by
  have hgoes : ∀ {w₁ : World} (k : After) (outcome : Outcome), w₁.roll = w.roll →
      w.Enrolls (w₁.continueWith t k outcome) := fun k outcome hroll =>
    (enrolls_continueWith k outcome).of_roll hroll
  cases hc : (w.thread t).control with
  | lingering k | sweeping k | leaving outcome k =>
    simp only [step, hc]
    exact hgoes k _ (by simp)
  | rendezvous force k =>
    simp only [step, hc]
    split
    · exact .inl (by simp)
    · split
      · exact hgoes k _ (by simp)
      · exact .inl (by simp)
  | waiting wait k =>
    have hroll := roll_passWait w t wait
    rcases hpass : w.passWait t wait with ⟨w₁, wait' | outcome⟩ <;> rw [hpass] at hroll <;>
      simp only [step, hc, hpass]
    · exact .inl ((roll_setControl w₁ t _).trans hroll)
    · exact hgoes k outcome hroll
  | blocked wait k =>
    have hroll := roll_passWait w t wait
    rcases hpass : w.passWait t wait with ⟨w₁, wait' | outcome⟩ <;> rw [hpass] at hroll <;>
      simp only [step, hc, hpass] <;> exact .inl ((roll_setControl w₁ t _).trans hroll)
  | running =>
    simp only [step, hc]
    split
    · exact .inl (by simp)
    · split <;> exact .inl (by simp)
  | pausing ending | retiring =>
    simp only [step, hc]
    split <;> exact .inl (by simp)
  | enrolling | equipping | entering | publishing ending | releasing =>
    cases hrole : (w.thread t).role <;> exact .inl (by simp [step, hc, hrole, register, equip])
  | littering n => cases n <;> exact .inl (by simp [step, hc])
  | resolving agenda =>
    cases agenda with
    | nil => exact .inl (by simp [step, hc])
    | cons due rest =>
      simp only [step, hc]
      split <;> exact .inl (by simp)
  | _ => exact .inl (by simp [step, hc])

theorem spent_thread (w : World) (t : ThreadId) : (w.thread t).spent = w.roll.1.getD t 0 := by
  unfold thread roll
  by_cases ht : t < w.threads.size
  · rw [Array.getD_eq_getD_getElem?, Array.getD_eq_getD_getElem?, Array.getElem?_map,
      Array.getElem?_eq_getElem ht]
    rfl
  · rw [Array.getD_eq_getD_getElem?, Array.getD_eq_getD_getElem?, Array.getElem?_map,
      Array.getElem?_eq_none (Nat.not_lt.1 ht)]
    rfl

theorem size_roll (w : World) : w.roll.1.size = w.threads.size := Array.size_map

/-- Steps do not count themselves. -/
theorem spent_step (w : World) (t u : ThreadId) :
    ((w.step t).thread u).spent = (w.thread u).spent := by
  rw [spent_thread, spent_thread]
  rcases enrolls_step w t with hroll | hroll
  · rw [hroll]
  · rw [hroll, Array.getD_eq_getD_getElem?, Array.getD_eq_getD_getElem?, Array.getElem?_push]
    split
    · rename_i hu
      rw [Array.getElem?_eq_none (Nat.le_of_eq hu.symm)]
      rfl
    · rfl

theorem size_le_step (w : World) (t : ThreadId) : w.threads.size ≤ (w.step t).threads.size := by
  rw [← size_roll, ← size_roll]
  rcases enrolls_step w t with hroll | hroll <;> rw [hroll]
  rw [Array.size_push]
  exact Nat.le_succ _

/-! ### Who is in line -/

/-- Every thread that is not gone is in line. -/
def Lined (w : World) : Prop := ∀ t < w.threads.size, w.control t ≠ .gone → t ∈ w.line

theorem mem_lineUp {w : World} {t u : ThreadId} (hgone : w.control u ≠ .gone)
    (hu : u = t ∨ u ∈ w.line) : u ∈ (w.lineUp t).line := by
  by_cases hut : u = t
  · subst hut
    have hne : (w.control u == .gone) = false := beq_eq_false_iff_ne.2 hgone
    simp only [lineUp, hne, Bool.false_eq_true, if_false]
    split
    · exact List.mem_cons_self
    · exact List.mem_append_right _ List.mem_cons_self
  · have hmem : u ∈ w.line.erase t := (List.mem_erase_of_ne hut).2 (hu.resolve_left hut)
    unfold lineUp
    simp only
    split
    · exact hmem
    · split
      · exact List.mem_cons_of_mem _ hmem
      · exact List.mem_append_left _ hmem

theorem handOver_of_locks {w : World} (h : w.store.locks = #[]) : w.handOver = w := by
  simp [handOver, heir?, h]

theorem turn_eq {w : World} {t : ThreadId} (h : (w.step t).store.locks = #[]) : w.turn t =
    ((w.step t).modifyThread t fun th => { th with spent := th.spent + 1 }).lineUp t :=
  handOver_of_locks h

namespace Lined

variable {w w' : World} {t : ThreadId}

theorem lineUp (h : w.Lined) (t : ThreadId) : (w.lineUp t).Lined := fun u hu hgone =>
  mem_lineUp hgone (.inr (h u hu hgone))

/-- No thread is forgotten. -/
theorem turn (h : w.Lined) (hlocks : (w.step t).store.locks = #[])
    (hothers : ∀ u, u ≠ t → u < w.threads.size → (w.step t).thread u = w.thread u) :
    (w.turn t).Lined := by
  rw [turn_eq hlocks]
  intro u hu hgone
  refine mem_lineUp hgone ?_
  by_cases hut : u = t
  · exact .inl hut
  · have hsize : u < (w.step t).threads.size := by simpa [World.lineUp, modifyThread] using hu
    have hold : u < w.threads.size → u ∈ w.line := by
      intro hlt
      refine h u hlt fun hc => hgone ?_
      show (((w.step t).modifyThread t _).thread u).control = .gone
      rw [thread_modifyThread_of_ne _ hut, hothers u hut hlt]
      exact hc
    refine .inr ?_
    show u ∈ (w.step t).line
    rcases enrolls_step w t with hroll | hroll
    · rw [show (w.step t).line = w.line from congrArg Prod.snd hroll]
      exact hold (size_of_roll hroll ▸ hsize)
    · rw [show (w.step t).line = w.line ++ [w.threads.size] from congrArg Prod.snd hroll]
      rw [← size_roll, hroll, Array.size_push, size_roll] at hsize
      rcases Nat.lt_succ_iff_lt_or_eq.1 hsize with hlt | rfl
      · exact List.mem_append_left _ (hold hlt)
      · exact List.mem_append_right _ List.mem_cons_self

end Lined

end World

end ScriptCore
