import ScriptCore.Proofs.World.Accounts
import ScriptCore.Proofs.World.Operations

/-!
# Futures are set once

Any number of threads set, read and await one future, in any order and with collections in between.
Everything they see of it is a function of what has happened since the future was pending: the value
of the first write.

* `Act.setsTo?`, `firstSet`: the writes, by the host, by its helpers and by isolates, and the value
  of the first;
* `Act.object?_future`: what one act does to a future;
* `Onward.object?_future`: what the slot holds after everything that has happened;
* `futures_are_one_shot`: what follows for whoever writes, reads or waits.
-/

namespace ScriptCore

/-! ### Runs that go on -/

namespace Chronicle.Onward

variable {c₀ c c' : Chronicle} {since later : List (Hosted × Act)} {t : ThreadId}

theorem lasts (h : Onward Act.Proper c₀ since c) :
    c₀.world.store.heap.Lasts c.world.store.heap := by
  induction h with
  | here => exact .refl _
  | act _ ha ih => exact ih.trans (Act.lasts ha.1)

/-- A thread that does nothing keeps its control. -/
theorem control_eq (h : Onward Act.Proper c later c') (ht : t < c.world.threads.size)
    (hothers : ∀ p ∈ later, p.2.actor? ≠ some t) :
    t < c'.world.threads.size ∧ c'.world.control t = c.world.control t := by
  induction h with
  | here => exact ⟨ht, rfl⟩
  | @act later c' a _ ha ih =>
    obtain ⟨hlt, hcontrol⟩ := ih fun p hp => hothers p (List.mem_cons_of_mem _ hp)
    obtain ⟨n, hthread⟩ := a.bystander ha.1 (hothers _ List.mem_cons_self) hlt
    refine ⟨hlt.trans_le (a.size_le ha.1), ?_⟩
    rw [World.control, hthread]
    exact hcontrol

end Chronicle.Onward

/-! ### Writes -/

/-- The value with which an act sets the future. -/
def Act.setsTo? (h : Hosted) (f : CellId) (a : Act) : Option Value :=
  match a.sets? h with
  | some (_, g, v) => if g = f then some v else none
  | none => none

/-- The value with which the future was set first. -/
def firstSet (f : CellId) : List (Hosted × Act) → Option Value
  | [] => none
  | (h, a) :: earlier => (firstSet f earlier).or (a.setsTo? h f)

/-- Later writes do not change which was the first. -/
theorem firstSet_append {f : CellId} {since : List (Hosted × Act)} {v : Value}
    (h : firstSet f since = some v) (later : List (Hosted × Act)) :
    firstSet f (later ++ since) = some v := by
  induction later with
  | nil => exact h
  | cons p later ih => simp [firstSet, ih]

/-- Plain work touches no future and brings none back. -/
theorem Collector.Works.object?_future {g g' : Collector} {f : CellId} (h : g.Works g')
    (hf : f < g.heap.size) (hfuture : ∀ o, g.heap.object? f = some o → ∃ slot, o = .future slot) :
    g'.heap.object? f = g.heap.object? f := by
  suffices hboth : f < g'.heap.size ∧ g'.heap.object? f = g.heap.object? f from hboth.2
  induction h with
  | refl => exact ⟨hf, rfl⟩
  | @tail g₁ g₂ _ hop ih =>
    obtain ⟨op, hplain, rfl⟩ := hop
    obtain ⟨hlt, hobject⟩ := ih
    have halloc : ∀ cell : Cell, f < (g₁.heap.alloc cell).1.size ∧
        (g₁.heap.alloc cell).1.object? f = g.heap.object? f := fun cell =>
      ⟨hlt.trans_le ((Nat.le_succ _).trans_eq (Heap.size_alloc _ _).symm),
        by rw [Heap.object?_alloc, if_neg hlt.ne, hobject]⟩
    cases op with
    | make s o | makeImmortal o => exact halloc _
    | collect roots => cases hplain
    | write c o =>
      refine ⟨hlt.trans_eq (Heap.size_setObject _ c o).symm, ?_⟩
      show (g₁.heap.setObject c o).object? f = _
      rw [Heap.object?_setObject]
      split
      · rename_i hcf
        subst hcf
        cases ho : g₁.heap.object? c with
        | none => rw [← hobject, ho, Option.map_none]
        | some o' =>
          obtain ⟨slot, rfl⟩ := hfuture o' (hobject ▸ ho)
          exact absurd ho (hplain slot)
      · exact hobject
    | retire s =>
      rcases Operation.retire_cases g₁ s with hr | hr
      · obtain ⟨st, -, -, heq⟩ := Tidy.retire_cases hr
        rw [heq]
        exact ⟨hlt, hobject⟩
      · rw [hr]
        exact ⟨hlt, hobject⟩
    | removeRoot id =>
      rcases Operation.removeRoot_cases g₁ id with hr | hr <;> rw [Operation.apply, hr] <;>
        exact ⟨hlt, hobject⟩
    | enroll | setLimit | addRoot | setPinned | meet | clearRequest => exact ⟨hlt, hobject⟩

/-- A future that is set gets the value if it is pending. -/
theorem Store.object?_set {s : Store} {f g : CellId} {slot : Option Value} (v : Value)
    (ho : s.heap.object? f = some (.future slot)) :
    (s.set g v).heap.object? f =
      some (.future (slot.or (if g = f then some v else none))) := by
  by_cases hgf : g = f
  · subst hgf
    cases slot with
    | none =>
      have hset : s.set g v = s.withHeap (s.heap.setObject g (.future (some v))) := by
        simp only [set, Heap.resolve, ho]
      rw [hset]
      show (s.heap.setObject g (.future (some v))).object? g = _
      rw [Heap.object?_setObject, if_pos rfl, ho]
      simp
    | some u =>
      have hset : s.set g v = s := by simp only [set, Heap.resolve, ho]
      rw [hset, ho]
      simp
  · have hsame : (s.set g v).heap.object? f = s.heap.object? f := by
      unfold set
      split
      · rename_i hr
        rcases Heap.resolve_cases hr with rfl | ⟨-, rfl⟩
        · rfl
        · show (s.heap.setObject g (.future (some v))).object? f = _
          rw [Heap.object?_setObject, if_neg hgf]
      · rfl
    rw [hsame, ho]
    simp [hgf]

section future

variable {c : Chronicle} {a : Act} {f : CellId} {slot : Option Value}

theorem Act.object?_of_sets {s : Store} {g : CellId} {v : Value}
    (hsets : a.sets? c.toHosted = some (s, g, v))
    (ho : c.world.store.heap.object? f = some (.future slot)) :
    s.heap.object? f = some (.future slot) ∧ (a.record c).world.store.heap.object? f =
      some (.future (slot.or (a.setsTo? c.toHosted f))) := by
  obtain ⟨hworks, hset⟩ := works_sets hsets
  have hsame : s.heap.object? f = c.world.store.heap.object? f :=
    hworks.object?_future (Heap.lt_size_of_object? ho) fun o ho' =>
      ⟨slot, Option.some.inj (ho'.symm.trans ho)⟩
  refine ⟨hsame.trans ho, ?_⟩
  show (a.apply c.toHosted).world.store.heap.object? f = _
  rw [hset, Store.object?_set v (hsame.trans ho), setsTo?, hsets]

/-- What an act does to a future that it does not free: it may be set. -/
theorem Act.object?_future (htidy : c.world.store.collector.Tidy)
    (ho : c.world.store.heap.object? f = some (.future slot))
    (hlive : (a.record c).world.store.heap.Live f) :
    (a.record c).world.store.heap.object? f =
      some (.future (slot.or (a.setsTo? c.toHosted f))) := by
  have hlt := Heap.lt_size_of_object? ho
  have hfuture : ∀ o, c.world.store.heap.object? f = some o → ∃ slot, o = .future slot :=
    fun o ho' => ⟨slot, Option.some.inj (ho'.symm.trans ho)⟩
  by_cases hsweep : a.sweeps c.toHosted
  · obtain ⟨t, k, rfl, hcontrol⟩ := hsweep
    have hsets : (Act.step t).setsTo? c.toHosted f = none := by
      simp [setsTo?, sets?, World.sets?, show (c.world.thread t).control = _ from hcontrol]
    rw [hsets, Option.or_none]
    have hback : ∀ o, c.world.collect.store.heap.object? f = some o → o = .future slot :=
      fun o ho' => Option.some.inj ((htidy.object?_of_collect ho').symm.trans ho)
    have hsame : ((Act.step t).record c).world.store.heap.object? f =
        c.world.collect.store.heap.object? f :=
      (World.works_sweeping _ t hcontrol).object?_future
        (hlt.trans_eq (Collector.size_collect _ _).symm) fun o ho' => ⟨slot, hback o ho'⟩
    obtain ⟨o, ho'⟩ := Heap.live_iff_object?.1 hlive
    rw [ho', hback o (hsame ▸ ho')]
  cases hsets : a.sets? c.toHosted with
  | none =>
    have hsame : (a.record c).world.store.heap.object? f = c.world.store.heap.object? f :=
      (works hsweep hsets).object?_future hlt hfuture
    rw [hsame, ho]
    simp [setsTo?, hsets]
  | some p => exact (object?_of_sets hsets ho).2

end future

/-- What a future that was pending holds is the value of the first write since. -/
theorem Chronicle.Onward.object?_future {c₀ c : Chronicle} {since : List (Hosted × Act)}
    {f : CellId} (h : Onward Act.Proper c₀ since c) (hrun : Run Act.Proper c₀)
    (hnew : c₀.world.store.heap.object? f = some (.future none))
    (hlive : c.world.store.heap.Live f) :
    c.world.store.heap.object? f = some (.future (firstSet f since)) := by
  induction h with
  | here => exact hnew
  | @act since c a hsince ha ih =>
    obtain ⟨own, hsound, -⟩ := (hsince.run hrun).sound fun _ _ hok => hok.2
    have hlt : f < c.world.store.heap.size :=
      (Heap.lt_size_of_object? hnew).trans_le hsince.lasts.size_le
    obtain ⟨o, ho⟩ := Heap.live_iff_object?.1 hlive
    obtain ⟨o', ho', -⟩ := (Act.lasts ha.1).back f o hlt ho
    exact Act.object?_future hsound.tidy (ih (Heap.live_iff_object?.2 ⟨o', ho'⟩)) hlive

/-! ### What everybody sees -/

/-- The future a thread waits for. -/
def Wait.future? : Wait → Option CellId
  | .resolved f | .resolvedBy f _ => some f
  | _ => none

/-- What a wait for a future with that slot comes to. -/
def Outcome.ofSlot : Option Value → Outcome
  | some v => .value v
  | none => .absent

/-- What holds of a future after everything that has happened since it was pending. -/
structure OneShot (f : CellId) (since : List (Hosted × Act)) (c : Chronicle) : Prop where
  /-- Whether there is a result, and which, is what the first write says. -/
  read : c.world.store.heap.future? (.ref f) = some (firstSet f since)
  /-- The first write succeeds. -/
  accepted : firstSet f since = none → ∀ (a : Act) (s : Store) (v : Value), a.Proper c →
    a.sets? c.toHosted = some (s, f, v) → (∃ h, s.heap.resolve f v = .ok h) ∧
      (a.record c).world.store.heap.future? (.ref f) = some (some v)
  /-- Every later write fails and leaves the slot as it is. -/
  rejected : ∀ u, firstSet f since = some u → ∀ (a : Act) (s : Store) (v : Value), a.Proper c →
    a.sets? c.toHosted = some (s, f, v) →
      (∃ e, s.heap.resolve f v = .error e ∧ e.failure.kind = .state) ∧
      (a.record c).world.store.heap.future? (.ref f) = some (some u)
  /-- What has been seen once is seen ever after. -/
  stays : ∀ u, firstSet f since = some u → ∀ (later : List (Hosted × Act)) (c' : Chronicle),
    Chronicle.Onward Act.Proper c later c' → c'.world.store.heap.Live f →
      c'.world.store.heap.future? (.ref f) = some (some u)
  /-- The stored value is live. -/
  stored : ∀ u, firstSet f since = some u → c.world.store.heap.Holds u
  /-- A wait without a deadline is over only after a write. -/
  untimed : c.world.passable (.resolved f) = (firstSet f since).isSome
  timed : ∀ deadline, c.world.passable (.resolvedBy f deadline) =
    ((firstSet f since).isSome || decide (deadline ≤ c.world.store.now))
  /-- A thread that waits in a blocking region returns the value that has been written when it reads
  the slot, or nothing if there is none, however long it is held up afterwards. -/
  returned : ∀ t wait consumer, wait.future? = some f →
    c.world.control t = .blocked wait (.reply consumer) → (Act.step t).Proper c →
    ∀ (later : List (Hosted × Act)) (c' : Chronicle),
      Chronicle.Onward Act.Proper ((Act.step t).record c) later c' →
      (∀ p ∈ later, p.2.actor? ≠ some t) →
      c'.world.step t = (c'.world.unpark t).deliver t consumer (.ofSlot (firstSet f since))
  /-- Outside of a blocking region it returns at once. -/
  returnedAtOnce : ∀ t wait consumer, wait.future? = some f →
    c.world.control t = .waiting wait (.reply consumer) →
    c.world.step t = c.world.deliver t consumer (.ofSlot (firstSet f since))
  /-- The methods of scripts see the same. -/
  hasResult : ∀ me, Method.futureHasResult.call me f #[] c.world.store =
    (c.world.store, .value (.bool (firstSet f since).isSome))
  getResult : ∀ me, ∃ e : Cause, e.failure.kind = .state ∧
    Method.futureGetResult.call me f #[] c.world.store =
      (c.world.store, ((firstSet f since).map Reaction.value).getD (.failed e))
  waits : ∀ me t consumer, Method.futureWait.call me f #[] c.world.store =
      (c.world.store, .suspended (.await f)) ∧
    (t < c.world.threads.size → (c.world.request t (.await f) consumer).control t =
      .blocked (.resolved f) (.reply consumer))

namespace OneShot

variable {c₀ c : Chronicle} {since : List (Hosted × Act)} {f : CellId} {slot : Option Value}

theorem future?_eq {h : Heap} (ho : h.object? f = some (.future slot)) :
    h.future? (.ref f) = some slot := by
  simp only [Heap.future?, Heap.deref?, ho]

theorem resolved?_eq {h : Heap} (ho : h.object? f = some (.future slot)) :
    h.resolved? f = slot := by
  simp only [Heap.resolved?, ho]

theorem passWait_eq {w : World} (ho : w.store.heap.object? f = some (.future slot)) {wait : Wait}
    (hwait : wait.future? = some f) (t : ThreadId) :
    w.passWait t wait = (w, .inr (.ofSlot slot)) := by
  cases wait with
  | resolved g | resolvedBy g d =>
    obtain rfl : g = f := Option.some.inj hwait
    rw [World.passWait, resolved?_eq ho]
    cases slot <;> rfl
  | _ => cases hwait

theorem step_eq {w : World} (ho : w.store.heap.object? f = some (.future slot)) {wait : Wait}
    (hwait : wait.future? = some f) {t : ThreadId} {k : After} :
    (w.control t = .blocked wait k → w.step t = w.setControl t (.leaving (.ofSlot slot) k)) ∧
    (w.control t = .waiting wait k → w.step t = w.continueWith t k (.ofSlot slot)) := by
  constructor <;> intro hcontrol
  all_goals
    simp only [World.step, show (w.thread t).control = _ from hcontrol, passWait_eq ho hwait]

end OneShot

open OneShot in
/-- **Futures are set once.** Take a future that is pending and anything that happens from then on:
threads and host write, read and wait in any order, and collections come in between. As long as a
root reaches the future it is live, and as long as it is live the first write succeeds and every
later one fails without effect, and every reader and waiter sees the value of the first write, or
nothing if there was none before it looked. -/
theorem futures_are_one_shot {c₀ c : Chronicle} {since : List (Hosted × Act)} {f : CellId}
    (hrun : Run Act.Proper c₀) (hnew : c₀.world.store.heap.object? f = some (.future none))
    (hsince : Chronicle.Onward Act.Proper c₀ since c) :
    (c.world.store.heap.Reaches (c.world.store.collector.starts c.world.rootValues) f →
      c.world.store.heap.Live f) ∧
    (c.world.store.heap.Live f → OneShot f since c) := by
  obtain ⟨own, hsound, -⟩ := (hsince.run hrun).sound fun _ _ hok => hok.2
  refine ⟨hsound.closed.live_of_reaches
    (hsound.tidy.holds_starts hsound.closed hsound.holds_rootValues), fun hlive => ?_⟩
  have ho := hsince.object?_future hrun hnew hlive
  refine
    { read := future?_eq ho
      accepted := fun hnone a s v _ hsets => ?_
      rejected := fun u hu a s v _ hsets => ?_
      stays := fun u hu later c' hlater hlive' => ?_
      stored := fun u hu => hsound.closed.holds_resolved? ((resolved?_eq ho).trans hu)
      untimed := ?_
      timed := fun deadline => ?_
      returned := fun t wait consumer hwait hcontrol _ later c' hlater hothers => ?_
      returnedAtOnce := fun t wait consumer hwait hcontrol => (step_eq ho hwait).2 hcontrol
      hasResult := fun me => ?_
      getResult := fun me => ⟨.noResultYet, rfl, ?_⟩
      waits := fun me t consumer => ⟨?_, fun ht => ?_⟩ }
  · obtain ⟨hs, hafter⟩ := Act.object?_of_sets hsets ho
    rw [hnone] at hs hafter
    have hresolve : s.heap.resolve f v = .ok (s.heap.setObject f (.future (some v))) := by
      simp only [Heap.resolve, hs]
    refine ⟨⟨_, hresolve⟩, future?_eq ?_⟩
    rw [hafter]
    simp [Act.setsTo?, hsets]
  · obtain ⟨hs, hafter⟩ := Act.object?_of_sets hsets ho
    rw [hu] at hs hafter
    exact ⟨⟨.alreadyResolved, by simp only [Heap.resolve, hs], rfl⟩, future?_eq hafter⟩
  · refine future?_eq ?_
    rw [(hsince.trans hlater).object?_future hrun hnew hlive', firstSet_append hu]
  · rw [World.passable, resolved?_eq ho]
  · rw [World.passable, resolved?_eq ho]
  · have ht : t < c.world.threads.size :=
      World.lt_size_of_control (by rw [hcontrol]; exact nofun)
    have hstep := (step_eq ho hwait).1 hcontrol
    have hafter : ((Act.step t).record c).world =
        c.world.setControl t (.leaving (.ofSlot (firstSet f since)) (.reply consumer)) := hstep
    have hbecomes := World.becomes_setControl (w := c.world) rfl ht
      (.leaving (.ofSlot (firstSet f since)) (.reply consumer))
    have hleaving : c'.world.control t =
        .leaving (.ofSlot (firstSet f since)) (.reply consumer) := by
      rw [(hlater.control_eq (by rw [hafter, hbecomes.size]; exact ht) hothers).2, hafter,
        World.control, hbecomes.mine]
    simp only [World.step, show (c'.world.thread t).control = _ from hleaving]
    rfl
  · simp [Method.call, Method.arity, Arity.check, Arity.admits, Method.run, ho]
  · simp only [Method.call, Method.arity, Arity.check, Arity.admits, Method.run, ho]
    cases firstSet f since <;> rfl
  · simp [Method.call, Method.arity, Arity.check, Arity.admits, Method.run, ho]
  · have hparked := World.becomes_setControl (World.threads_park c.world t) ht
      (.blocked (.resolved f) (.reply consumer))
    exact congrArg Thread.control hparked.mine

/-! ### Two writers, a waiter and a collection -/

/-- A thread has a future that a root holds. -/
def Chronicle.unset : Chronicle :=
  [.spawn, .assign 0 .enroll, .step 0, .make 0 (.future none), .root #[.ref 11]].foldl Act.record
    .standard

theorem run_unset : Run Act.Proper .unset := by
  refine (Run.standard _).acts ⟨⟨trivial, trivial⟩,
    ⟨⟨⟨by decide, rfl, rfl⟩, trivial⟩, rfl, trivial⟩, ⟨rfl, trivial⟩,
    ⟨trivial, rfl, by simp [Object.edges]⟩, ⟨trivial, ?_⟩, trivial⟩
  rintro v hv
  obtain rfl : v = .ref 11 := by simpa using hv
  exact Heap.holds_ref.2 rfl

/-- Another thread waits for it, a helper sets it, the host tries to, and the first thread
collects. -/
def Act.contest : List Act :=
  [.spawn, .assign 1 .enroll, .step 1, .assign 1 (.request (.await 11)), .helper [(5, 11, .int 7)],
    .elapse 5, .step 2, .resolve 11 (.int 8), .assign 0 (.request .collect), .step 0, .step 0,
    .step 0]

def Chronicle.contested : Chronicle := Act.contest.foldl Act.record .unset

theorem proper_contest : Act.All Act.Proper .unset Act.contest := by
  have hagenda : ∀ {c : Chronicle}, c.world.ready 2 = true →
      c.world.control 2 = .resolving [(5, 11, .int 7)] → (Act.step 2).Proper c := by
    intro c hready hcontrol
    refine ⟨hready, ?_⟩
    show c.world.StepGiven 2
    rw [World.StepGiven, show (c.world.thread 2).control = _ from hcontrol]
    exact Heap.holds_int _ _
  have hstorage : ∀ {th : Thread}, th.storage.isSome →
      Task.Orderly th (.request .collect) := fun h => h
  refine ⟨⟨trivial, trivial⟩, ⟨⟨⟨?_, rfl, rfl⟩, trivial⟩, rfl, trivial⟩, Act.proper_step ?_ ?_,
    ⟨⟨⟨?_, rfl, rfl⟩, trivial⟩, rfl, trivial⟩, ⟨trivial, trivial⟩, ⟨trivial, trivial⟩,
    hagenda ?_ ?_, ⟨trivial, ?_, Heap.holds_int _ _⟩, ⟨⟨⟨?_, ?_, ?_⟩, hstorage ?_⟩, ?_, trivial⟩,
    Act.proper_step ?_ ?_, Act.proper_step ?_ ?_, Act.proper_step ?_ ?_, trivial⟩
  all_goals decide +kernel

theorem onward_contested :
    Chronicle.Onward Act.Proper .unset (Chronicle.contested.past.take 12) .contested :=
  Chronicle.Onward.acts proper_contest .here

/-- The value of the helper stays, the collection is over, and the thread that waits is handed that
value. -/
theorem futures_are_one_shot_contested :
    (Run Act.Proper .unset ∧ Chronicle.unset.world.store.heap.object? 11 = some (.future none) ∧
      Chronicle.Onward Act.Proper .unset (Chronicle.contested.past.take 12) .contested) ∧
    firstSet 11 (Chronicle.contested.past.take 12) = some (.int 7) ∧
    OneShot 11 (Chronicle.contested.past.take 12) .contested ∧
    Chronicle.contested.world.store.collector.collections = 1 ∧
    Chronicle.contested.world.control 1 = .blocked (.resolved 11) (.reply .host) ∧
    Chronicle.contested.world.ready 1 = true := by
  have hpending : Chronicle.unset.world.store.heap.object? 11 = some (.future none) := by
    decide +kernel
  have hlive : Chronicle.contested.world.store.heap.Live 11 := by decide +kernel
  refine ⟨⟨run_unset, hpending, onward_contested⟩, by decide +kernel,
    (futures_are_one_shot run_unset hpending onward_contested).2 hlive, ?_, ?_, ?_⟩
  all_goals decide +kernel

end ScriptCore
