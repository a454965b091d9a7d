import Mathlib
import ScriptCore.Proofs.Isolate.Report
import ScriptCore.Proofs.World.Accounts

/-!
# What becomes of isolates

Any number of isolates, with any interleaving of their steps, those of other threads and what the
host does.

* `Run.stage`: every isolate of a run is in one of the stages;
* `Isolate.Fate`: what follows for its future, for its next step and for what it leaves behind;
* `Launched`: what a request to start an isolate came to;
* `isolates_settle`: all of it, in every state of every run. If no isolate is live, every future
  that a start has handed over has a value.
-/

namespace ScriptCore

open World

variable {c : Chronicle} {a : Act} {t : ThreadId} {i : Isolate}

/-! ### Isolates of a run -/

namespace Run

/-- Whatever has happened, happened in a state of a run. -/
theorem of_past {ok : Chronicle → Act → Prop} (h : Run ok c) {before : Hosted}
    (hmem : (before, a) ∈ c.past) : ∃ past, Run ok ⟨before, past⟩ ∧ ok ⟨before, past⟩ a := by
  induction h with
  | new => cases hmem
  | @act c _ hrun ha ih =>
    rcases List.mem_cons.1 hmem with heq | hmem
    · cases heq
      exact ⟨c.past, hrun, ha⟩
    · exact ih hmem

/-- The host holds the names of the roots that it answers for. -/
theorem guards_of_guarded {ok : Chronicle → Act → Prop} (h : Run ok c) {id : RootId}
    (hid : id ∈ guarded c.past) : id ∈ c.guards := by
  induction h with
  | new => cases hid
  | @act c a _ _ ih =>
    cases a with
    | root vs =>
      rcases List.mem_cons.1 hid with rfl | hid
      · exact List.mem_cons_self
      · exact List.mem_cons_of_mem _ (ih hid)
    | unroot id' => exact ih (List.mem_of_mem_erase hid)
    | wait u what parked => cases parked <;> exact ih hid
    | resolve | setAttr | library =>
      simp only [Act.record, Act.apply]
      split <;> exact ih hid
    | _ => exact ih hid

variable (h : Run Act.Proper c)

include h

/-- A thread that is not there has published nothing. -/
theorem unpublished (ht : c.world.threads.size ≤ t) : publications t c.past = [] := by
  induction h with
  | new => rfl
  | @act c a hrun ha ih =>
    have hle := (Act.size_le ha.1).trans ht
    exact (publications_cons_of_size_le a hle).trans (ih hle)

/-- Every isolate of a run is in one of the stages. -/
theorem stage (hrole : (c.world.thread t).role = .isolate i) : Stage c t i := by
  induction h with
  | new =>
    rw [thread_of_size_le (Nat.zero_le t)] at hrole
    cases hrole
  | @act c a hrun ha ih =>
    by_cases ht : t < c.world.threads.size
    · have hbefore := (hrun.role_record ha ht).symm.trans hrole
      by_cases hactor : a.actor? = some t
      · -- the host gives tasks to threads of its own only
        have hstep : a = .step t := by
          by_contra hne
          rw [(Act.spare_of_actor ha.1 hactor hne).host] at hbefore
          cases hbefore
        subst hstep
        obtain ⟨own, hsound, -⟩ := hrun.hosted
        exact (ih hbefore).step hsound hbefore hrole
      · exact (ih hbefore).aside ha.1 hactor ht
    · have hle := Nat.not_lt.1 ht
      rcases Act.newcomer ha.1 hle with ⟨control, hnew, -⟩ | hnew
      · rw [hnew] at hrole
        cases hrole
      · obtain ⟨name, j, hfresh⟩ := hnew.fresh
        exact .early ((publications_cons_of_size_le a hle).trans (hrun.unpublished hle))
          (.inl (by rw [World.control, hfresh]))

/-- The future of an isolate is one as long as it is live. -/
theorem future (hrole : (c.world.thread t).role = .isolate i) :
    i.future < c.world.store.heap.size ∧
    ∀ o, c.world.store.heap.object? i.future = some o → ∃ slot, o = .future slot := by
  induction h with
  | new =>
    rw [thread_of_size_le (Nat.zero_le t)] at hrole
    cases hrole
  | @act c a hrun ha ih =>
    by_cases ht : t < c.world.threads.size
    · obtain ⟨hlt, hfuture⟩ := ih ((hrun.role_record ha ht).symm.trans hrole)
      have hlasts := Act.lasts ha.1
      refine ⟨hlt.trans_le hlasts.size_le, fun o ho => ?_⟩
      obtain ⟨o', ho', hgrows⟩ := hlasts.back _ _ hlt ho
      obtain ⟨slot, rfl⟩ := hfuture o' ho'
      exact hgrows.of_future
    · rcases Act.newcomer ha.1 (Nat.not_lt.1 ht) with ⟨control, hnew, -⟩ | hnew
      · rw [hnew] at hrole
        cases hrole
      · obtain ⟨slot, ho⟩ := hnew.future i hrole
        refine ⟨Heap.lt_size_of_object? ho, fun o ho' => ⟨slot, ?_⟩⟩
        exact Option.some.inj (ho'.symm.trans ho)

/-- The future of an isolate is live until the isolate lets go of it. -/
theorem exists_future (hrole : (c.world.thread t).role = .isolate i)
    (hreleased : (c.world.control t).released = false) :
    ∃ slot, c.world.store.heap.object? i.future = some (.future slot) := by
  obtain ⟨vs, hvs, hmem⟩ := h.accounted.carried t i hrole hreleased
  obtain ⟨own, hsound, -⟩ := h.hosted
  have hlive := Heap.holds_ref.1 (hsound.held _ _ hvs _ (Array.mem_toList_iff.2 hmem))
  obtain ⟨o, ho⟩ := Heap.live_iff_object?.1 hlive
  obtain ⟨slot, rfl⟩ := (h.future hrole).2 o ho
  exact ⟨slot, ho⟩

end Run

/-! ### What becomes of one -/

theorem Control.Closing.reported {th : Thread} {ctrl : Control} (h : ctrl.Closing th) :
    ctrl.reported = true := by
  unfold Control.Closing at h
  split at h <;> trivial

theorem Control.Follows.not_reported {role : Role} {signal : Signal} {ctrl : Control}
    (h : ctrl.Follows role signal) : ctrl.reported = false := by
  cases ctrl with
  | lingering k =>
    rcases h with ⟨rfl, -⟩ | ⟨_, _, _, -, hk⟩
    · rfl
    · cases k <;> trivial
  | _ => trivial

theorem Control.not_reported_of_ending? {ctrl : Control} {e : Ending} (h : ctrl.ending? = some e) :
    ctrl.reported = false := by
  unfold Control.ending? at h
  split at h <;> trivial

/-- An isolate has published, or it has not. -/
theorem Stage.reported_or (h : Stage c t i) :
    ((c.world.control t).reported = true ∧ i.Reported t c.past c.world.store.heap ∧
      (c.world.control t).Closing (c.world.thread t)) ∨
    (c.world.control t).reported = false ∧ publications t c.past = [] := by
  cases h with
  | early hpub hc => exact .inr ⟨by rcases hc with hc | hc <;> rw [hc] <;> rfl, hpub⟩
  | ready hpub hc => exact .inr ⟨by rw [hc]; rfl, hpub⟩
  | calling hpub _ hlive =>
    obtain ⟨signal, -, hfollows⟩ := hlive
    exact .inr ⟨hfollows.not_reported, hpub⟩
  | complete hpub hc => exact .inr ⟨by rw [hc]; rfl, hpub⟩
  | ended hpub hc => exact .inr ⟨Control.not_reported_of_ending? hc, hpub⟩
  | reported hclosing hreported => exact .inl ⟨hclosing.reported, hreported, hclosing⟩

/-- Once its call has ended, only a collection can hold an isolate up. -/
theorem World.ready_or_collecting {w : World} {n : Nat}
    (hn : (w.thread t).left? = some (n + 1)) : w.ready t = true ∨ w.collecting = true := by
  cases hcollecting : w.collecting with
  | true => exact .inr rfl
  | false =>
    left
    unfold Thread.left? at hn
    cases hc : (w.thread t).control <;> rw [hc] at hn <;> rw [ready, World.control, hc]
    case lingering =>
      rw [hcollecting]
      rfl
    case gone => cases hn
    all_goals trivial

/-- Once its call has ended, every step of an isolate brings it nearer to its end. -/
theorem World.left?_step {own : Ledger} {w : World} (hsound : w.Sound own none)
    (hrole : (w.thread t).role = .isolate i) {n : Nat} (hn : (w.thread t).left? = some (n + 1)) :
    ∃ m ≤ n, ((w.step t).thread t).left? = some m := by
  have hleft : ∀ {ctrl th m}, (w.thread t).control = ctrl → w.onward t ctrl = some th →
      th.left? = some m → m ≤ n → ∃ m ≤ n, ((w.step t).thread t).left? = some m :=
    fun hc hth hm hle => ⟨_, hle, (becomes_onward hsound hrole hc hth).mine ▸ hm⟩
  unfold Thread.left? at hn
  cases hc : (w.thread t).control <;> rw [hc] at hn
  case running =>
    simp only [Option.ite_none_right_eq_some, Option.some.injEq] at hn
    obtain ⟨hframes, hn⟩ := hn
    exact hleft hc (by rw [onward, hframes]; rfl) rfl (by omega)
  case pausing | retiring =>
    -- the step waits for a collection that is under way, or it does not
    cases hn
    cases hcollecting : w.collecting <;>
      exact hleft hc rfl (by rw [hcollecting]; rfl) (by omega)
  case lingering k =>
    cases k with
    | pause ending =>
      cases ending with
      | none => cases hn
      | some e =>
        cases hn
        exact hleft hc rfl rfl le_rfl
    | retire =>
      cases hn
      exact hleft hc rfl rfl le_rfl
    | _ => cases hn
  case publishing | resuming | releasing | unrooting =>
    cases hn
    exact hleft hc rfl rfl le_rfl
  all_goals cases hn

theorem Thread.of_left?_eq_none {th : Thread} (h : th.left? = none) :
    th.control.reported = false ∧ th.control.ending? = none := by
  unfold Thread.left? at h
  cases hc : th.control <;> rw [hc] at h
  case lingering k =>
    cases k with
    | pause ending => cases ending <;> trivial
    | _ => trivial
  all_goals trivial

/-- What holds of an isolate at any time. -/
structure Isolate.Fate (i : Isolate) (t : ThreadId) (c : Chronicle) : Prop where
  /-- Until its call has ended it is about to make it or in it. -/
  underway : (c.world.thread t).left? = none →
    c.world.control t = .enrolling ∨ c.world.control t = .equipping ∨
    c.world.control t = .entering ∨ ∃ me start, i.Starts t c.past me start ∧ c.Live t me start
  /-- Then only a collection can hold it up, and every step brings it nearer to its end. -/
  onward : ∀ n, (c.world.thread t).left? = some (n + 1) →
    ((Act.step t).Proper c ∨ c.world.collecting = true) ∧
    ∃ m ≤ n, ((c.world.step t).thread t).left? = some m
  unpublished : (c.world.control t).reported = false → publications t c.past = []
  published : (c.world.control t).reported = true → i.Published t c.past c.world.store.heap
  /-- Its future is live until the isolate lets go of it. -/
  held : (c.world.control t).released = false → c.world.store.heap.Live i.future
  /-- In the end it is not registered, answers for no root and pauses nothing. -/
  released : c.world.control t = .gone → (c.world.thread t).registered = false ∧
    (c.world.thread t).rootIds = [] ∧ (c.world.thread t).pauses = false ∧
    i.transfer ∉ c.world.rootIds

namespace Run

variable (h : Run Act.Proper c) (hrole : (c.world.thread t).role = .isolate i)

include h hrole

theorem underway (hleft : (c.world.thread t).left? = none) :
    c.world.control t = .enrolling ∨ c.world.control t = .equipping ∨
    c.world.control t = .entering ∨ ∃ me start, i.Starts t c.past me start ∧ c.Live t me start := by
  obtain ⟨hreported, hending⟩ := Thread.of_left?_eq_none hleft
  cases h.stage hrole with
  | early _ hc => exact hc.imp id .inl
  | ready _ hc => exact .inr (.inr (.inl hc))
  | calling _ hstarts hlive => exact .inr (.inr (.inr ⟨_, _, hstarts, hlive⟩))
  | complete _ hc hframes =>
    rw [Thread.left?, show (c.world.thread t).control = _ from hc, hframes] at hleft
    cases hleft
  | ended _ hc =>
    rw [World.control, hending] at hc
    cases hc
  | reported hclosing =>
    have hyes := hclosing.reported
    rw [World.control, hreported] at hyes
    cases hyes

/-- An isolate takes nothing from the host. -/
theorem proper_step (hready : c.world.ready t = true) : (Act.step t).Proper c := by
  obtain ⟨own, hsound, -⟩ := h.hosted
  have hstands := hsound.stands t (by simp)
  have hapt := h.accounted.apt t
  have hhost : (c.world.thread t).role ≠ .host := by simp [hrole]
  -- tasks are those of host threads
  have hhanded : ∀ k : After, k.Stands own t (c.world.thread t) →
      k.Handed c.world.store.heap := fun k hk => by
    unfold After.Handed
    split
    · exact absurd hk.1 hhost
    · trivial
  refine ⟨hready, ?_⟩
  show c.world.StepGiven t
  unfold StepGiven
  unfold Thread.Apt at hapt
  split
  · rename_i hc
    rw [hc] at hstands
    exact hhanded _ hstands.1
  · rename_i hc
    rw [hc] at hstands
    exact hhanded _ hstands.1
  · rename_i hc
    rw [hc] at hapt
    exact absurd hapt hhost
  · trivial

/-- An isolate that has published has put its result in its future. -/
theorem published (hreported : (c.world.control t).reported = true) :
    i.Published t c.past c.world.store.heap := by
  rcases (h.stage hrole).reported_or with ⟨-, hyes, -⟩ | ⟨hno, -⟩
  · obtain ⟨own, hsound, -⟩ := h.hosted
    refine hyes.published hsound.closed fun pub hpub hrole' hreleased => ?_
    obtain ⟨past, hrun, -⟩ := h.of_past (mem_past_of_publications hpub)
    exact hrun.exists_future hrole' hreleased
  · rw [hreported] at hno
    cases hno

/-- Nobody answers for what an isolate has carried when it is gone. -/
theorem transfer_not_mem_rootIds (hids : (c.world.thread t).rootIds = []) :
    i.transfer ∉ c.world.rootIds := by
  obtain ⟨own, hsound, hguards⟩ := h.hosted
  have hown := hsound.transfer t i hrole
  have hcount := h.accounted.count i.transfer
  have hhost : (1 :: guarded c.past).count i.transfer = 0 := by
    refine List.count_eq_zero.2 fun hmem => ?_
    rcases List.mem_cons.1 hmem with heq | hmem
    · rw [heq, hsound.globals.2] at hown
      cases hown
    · rw [hguards _ (h.guards_of_guarded hmem)] at hown
      cases hown
  have hthreads : (c.world.total fun th => th.rootIds.count i.transfer) = 0 := by
    refine Finset.sum_eq_zero fun u _ => List.count_eq_zero.2 fun hmem => ?_
    rcases hsound.owner_rootIds hmem with hu | hu | hu <;> rw [hown] at hu <;> cases hu
    rw [hids] at hmem
    cases hmem
  rw [hhost, hthreads] at hcount
  exact List.count_eq_zero.1 hcount

theorem fate : i.Fate t c where
  underway := h.underway hrole
  onward n hn := by
    obtain ⟨own, hsound, -⟩ := h.hosted
    exact ⟨(ready_or_collecting hn).imp_left (h.proper_step hrole), left?_step hsound hrole hn⟩
  unpublished hno := by
    rcases (h.stage hrole).reported_or with ⟨hyes, -⟩ | ⟨-, hpub⟩
    · rw [hno] at hyes
      cases hyes
    · exact hpub
  published := h.published hrole
  held hreleased := by
    obtain ⟨slot, ho⟩ := h.exists_future hrole hreleased
    exact Heap.live_iff_object?.2 ⟨_, ho⟩
  released hgone := by
    rcases (h.stage hrole).reported_or with ⟨-, -, hclosing⟩ | ⟨hno, -⟩
    · rw [hgone] at hclosing
      obtain ⟨hstorage, hroot⟩ := hclosing
      have hcontrol : (c.world.thread t).control = .gone := hgone
      have hids : (c.world.thread t).rootIds = [] := by
        simp only [Thread.rootIds, Thread.carried, hroot, hcontrol, hrole]
        rfl
      refine ⟨by rw [Thread.registered, hstorage]; rfl, hids, by rw [Thread.pauses, hcontrol]; rfl,
        h.transfer_not_mem_rootIds hrole hids⟩
    · rw [hgone] at hno
      cases hno

end Run

/-! ### All isolates -/

/-- What a request of thread `u` to start an isolate came to, when it was granted: an error if the
system had no thread to give, a panic, or the future of an isolate that is a thread from then on. -/
inductive Launched (w w' : World) (u : ThreadId) (function : Value) (args : Array Value)
    (k : Consumer) (role : Role) : Prop
  | refused {w₁ : World} {why : String} : w.store.shortage = some why →
      w' = w₁.deliver u k (.failed (.spawnFailed why)) → Launched w w' u function args k role
  | interrupted {w₁ : World} {p : Panic} : w' = w₁.interrupt u p →
      Launched w w' u function args k role
  | started {w₁ : World} {i : Isolate} : i.function = function → i.args = args →
      role = .isolate i → w' = w₁.deliver u k (.value (.ref i.future)) →
      Launched w w' u function args k role

theorem World.launched_step {w : World} {u : ThreadId} {o : Outcome} {function : Value}
    {args : Array Value} {k : Consumer} (hc : w.control u = .leaving o (.start function args k)) :
    Launched w (w.step u) u function args k ((w.step u).thread w.threads.size).role := by
  have hstep : w.step u = (w.unpark u).launch u function args k := by
    unfold World.step
    simp only [show (w.thread u).control = _ from hc]
    rfl
  have hsize : (w.unpark u).threads.size = w.threads.size := by rw [threads_unpark]
  have hu : u < (w.unpark u).threads.size := by
    rw [hsize]
    exact lt_size_of_control (by simp [hc])
  have hshortage : (w.unpark u).store.shortage = w.store.shortage := by
    unfold World.unpark
    split <;> rfl
  rw [hstep, ← hsize]
  generalize w.unpark u = w₁ at hu hshortage
  rcases launch_cases w₁ u function args k with ⟨why, hwhy, heq⟩ | ⟨q, heq⟩ | ⟨name, heq⟩
  · exact .refused (hshortage.symm.trans hwhy) heq
  · exact .interrupted heq
  · have hsize' := size_bearing w₁ u function args name
    have hrest : Sequel (fun _ _ => True) u _ _ _ (w₁.bearing u function args name) _ :=
      Sequel.deliver (hsize' ▸ Nat.lt_succ_of_lt hu) .collect k
        (o := .value (.ref (w₁.offspring function args).future)) trivial
    refine .started (i := w₁.offspring function args) rfl rfl ?_ heq
    rw [heq, hrest.others _ hu.ne' (hsize' ▸ Nat.lt_succ_self _), thread_bearing, if_pos rfl]

namespace Run

variable (h : Run Act.Proper c)

include h

theorem launched {before : Hosted} {u : ThreadId} {o : Outcome} {function : Value}
    {args : Array Value} {k : Consumer} (hmem : (before, .step u) ∈ c.past)
    (hc : before.world.control u = .leaving o (.start function args k)) :
    Launched before.world (before.world.step u) u function args k
      (c.world.thread before.world.threads.size).role := by
  induction h with
  | new => cases hmem
  | @act c a hrun ha ih =>
    rcases List.mem_cons.1 hmem with heq | hmem
    · cases heq
      exact launched_step hc
    · cases ih hmem with
      | refused hwhy hw => exact .refused hwhy hw
      | interrupted hw => exact .interrupted hw
      | started hfunction hargs hrole hw =>
        refine .started hfunction hargs ?_ hw
        exact (hrun.role_record ha (Accounted.lt_size_of_role hrole)).trans hrole

/-- There are as many roots as the host and the threads answer for, and that of the global names. -/
theorem rootCount : c.world.store.collector.rootCount =
    1 + (guarded c.past).length + c.world.total fun th => th.rootIds.length := by
  have hperm : c.world.rootIds.Perm (1 :: guarded c.past ++
      (List.range c.world.threads.size).flatMap fun t => (c.world.thread t).rootIds) := by
    refine List.perm_iff_count.2 fun id => ?_
    rw [h.accounted.count, List.count_append, List.count_flatMap]
    rfl
  have hlength := hperm.length_eq
  rw [List.length_append, List.length_cons, List.length_flatMap, World.rootIds, List.length_map,
    Nat.add_comm _ 1] at hlength
  exact hlength

/-- When no isolate is live all of them are gone. -/
theorem gone_of_live_eq_zero (hlive : c.world.store.live = 0)
    (hrole : (c.world.thread t).role = .isolate i) : c.world.control t = .gone := by
  by_contra hne
  have hactive : (c.world.thread t).active = true := by
    rw [Thread.active, hrole]
    exact decide_eq_true hne
  have hcount := one_le_count (Accounted.lt_size_of_role hrole) hactive
  rw [← h.accounted.live, hlive] at hcount
  cases hcount

end Run

/-- What becomes of isolates. Each has the fate of `Isolate.Fate`: its future gets its result, once,
unless it had a value before, and when it is gone nothing is left of it. Whoever is handed a future
by a start has started an isolate. Roots, registered threads, pauses and live isolates are as many
as the threads and the host have of them, and if no isolate is live every future that is live has a
value. -/
theorem isolates_settle (c : Chronicle) (h : Run Act.Proper c) :
    (∀ t i, (c.world.thread t).role = .isolate i → i.Fate t c) ∧
    (∀ before u o function args k, (before, .step u) ∈ c.past →
      before.world.control u = .leaving o (.start function args k) →
      Launched before.world (before.world.step u) u function args k
        (c.world.thread before.world.threads.size).role) ∧
    c.world.store.collector.rootCount =
      1 + (guarded c.past).length + (c.world.total fun th => th.rootIds.length) ∧
    c.world.sync.mutators = c.world.count Thread.registered ∧
    c.world.sync.paused = stops c.past + c.world.count Thread.pauses ∧
    c.world.store.live = c.world.count Thread.active ∧
    (c.world.store.live = 0 → ∀ t i, (c.world.thread t).role = .isolate i →
      c.world.control t = .gone ∧
      (c.world.store.heap.Live i.future →
        ∃ v, c.world.store.heap.resolved? i.future = some v)) := by
  have hbalanced := (h.mono fun _ _ ha => ha.1).balanced
  refine ⟨fun t i => h.fate, fun before u o function args k => h.launched, h.rootCount,
    hbalanced.mutators, hbalanced.paused, h.accounted.live, fun hlive t i hrole => ?_⟩
  have hgone := h.gone_of_live_eq_zero hlive hrole
  refine ⟨hgone, fun hfuture => ?_⟩
  obtain ⟨pub, slot, -, -, hresolved⟩ := h.published hrole (by rw [hgone]; rfl)
  obtain ⟨v, hv, -⟩ := hresolved hfuture
  exact ⟨v, by rw [Heap.resolved?, hv]⟩

/-! ### An isolate that answers, and two that panic -/

/-- A thread is ready for some steps, one after the other. -/
def World.readyFor (t : ThreadId) : Nat → World → Bool
  | 0, _ => true
  | n + 1, w => w.ready t && readyFor t n (w.step t)

theorem Run.steps (h : Run Act.Proper c) (hrole : (c.world.thread t).role = .isolate i) {n : Nat}
    (hn : c.world.readyFor t n = true) :
    Run Act.Proper ((List.replicate n (.step t)).foldl Act.record c) := by
  induction n generalizing c with
  | zero => exact h
  | succ n ih =>
    obtain ⟨hready, hrest⟩ := Bool.and_eq_true_iff.1 hn
    have hproper := h.proper_step hrole hready
    refine ih (h.act hproper) ?_ hrest
    exact (h.role_record hproper (Accounted.lt_size_of_role hrole)).trans hrole

/-- A host thread starts an isolate that calls a function which returns 42. -/
def Chronicle.asking : Chronicle :=
  [.spawn, .assign 0 .enroll, .step 0,
    .make 0 (.function ⟨"answer", 0, #[.int 42], #[.const 0, .ret]⟩),
    .assign 0 (.request (.start (.ref 11) #[])), .step 0, .step 0].foldl Act.record .standard

theorem run_asking : Run Act.Proper .asking :=
  (Run.standard _).acts ⟨⟨trivial, trivial⟩, ⟨⟨⟨by decide, rfl, rfl⟩, trivial⟩, rfl, trivial⟩,
    ⟨rfl, trivial⟩, ⟨trivial, rfl, by simp [Object.edges]⟩,
    ⟨⟨⟨by decide, rfl, rfl⟩, trivial⟩, rfl, rfl, Heap.holds_ref.2 rfl, by simp⟩, ⟨rfl, trivial⟩,
    ⟨rfl, Heap.holds_ref.2 rfl, by simp⟩, trivial⟩

/-- The isolate has made all its steps. -/
def Chronicle.answering : Chronicle := (List.replicate 12 (.step 1)).foldl Act.record .asking

theorem run_answering : Run Act.Proper .answering :=
  run_asking.steps (t := 1) (i := ⟨0, .ref 11, #[], 12, 3⟩) (by decide +kernel)
    (by decide +kernel)

/-- A host thread starts an isolate that calls a function of a library whose functions panic. -/
def Chronicle.booming (function : CellId) : Chronicle :=
  [.spawn, .assign 0 .enroll, .step 0, .library .boom,
    .assign 0 (.request (.start (.ref function) #[])), .step 0, .step 0].foldl Act.record .standard

/-- One of them panics with a text, and another one with something else. -/
theorem run_booming {function : CellId} (hfunction : function = 11 ∨ function = 13) :
    Run Act.Proper (.booming function) := by
  rcases hfunction with rfl | rfl
  all_goals
    exact (Run.standard _).acts ⟨⟨trivial, trivial⟩,
      ⟨⟨⟨by decide, rfl, rfl⟩, trivial⟩, rfl, trivial⟩, ⟨rfl, trivial⟩, ⟨trivial, trivial⟩,
      ⟨⟨⟨by decide, rfl, rfl⟩, trivial⟩, rfl, rfl, Heap.holds_ref.2 rfl, by simp⟩, ⟨rfl, trivial⟩,
      ⟨rfl, Heap.holds_ref.2 rfl, by simp⟩, trivial⟩

/-- The isolate has made all its steps; its call has panicked at once. -/
def Chronicle.boomed (function : CellId) : Chronicle :=
  (List.replicate 9 (.step 1)).foldl Act.record (.booming function)

theorem run_boomed {function : CellId} (hfunction : function = 11 ∨ function = 13) :
    Run Act.Proper (.boomed function) := by
  have hrole : ((Chronicle.booming function).world.thread 1).role =
      .isolate ⟨0, .ref function, #[], 15, 3⟩ := by
    rcases hfunction with rfl | rfl <;> decide +kernel
  refine (run_booming hfunction).steps hrole ?_
  rcases hfunction with rfl | rfl <;> decide +kernel

/-- The isolate of thread 1 is gone. Its future has got a result, and the only root and the only
registered thread are those of the host. -/
structure Chronicle.Rests (c : Chronicle) (i : Isolate) (isError : Bool) (payload : Value) :
    Prop where
  gone : c.world.control 1 = .gone
  published : i.Published 1 c.past c.world.store.heap
  result : ∃ r, c.world.store.heap.object? i.future = some (.future (some (.ref r))) ∧
    c.world.store.heap.object? r = some (.result isError payload)
  rootIds : (c.world.thread 1).rootIds = []
  rootCount : c.world.store.collector.rootCount = 1
  sync : c.world.sync.mutators = 1 ∧ c.world.sync.paused = 0
  live : c.world.store.live = 0

theorem Isolate.Fate.rests {c : Chronicle} {i : Isolate} {isError : Bool} {payload : Value}
    {r : CellId} (hfate : i.Fate 1 c) (hgone : c.world.control 1 = .gone)
    (hresult : c.world.store.heap.object? i.future = some (.future (some (.ref r))) ∧
      c.world.store.heap.object? r = some (.result isError payload))
    (hcounts : c.world.store.collector.rootCount = 1 ∧
      (c.world.sync.mutators = 1 ∧ c.world.sync.paused = 0) ∧ c.world.store.live = 0) :
    c.Rests i isError payload where
  gone := hgone
  published := hfate.published (by rw [hgone]; rfl)
  result := ⟨r, hresult⟩
  rootIds := (hfate.released hgone).2.1
  rootCount := hcounts.1
  sync := hcounts.2.1
  live := hcounts.2.2

/-- A value, a panic with a text, and a panic with something else. -/
theorem isolates_settle_answering :
    let quoting (c : Chronicle) (text : String) :=
      c.world.store.heap.object? 16 = some (.error ⟨.thread, text⟩)
    Chronicle.answering.Rests ⟨0, .ref 11, #[], 12, 3⟩ false (.int 42) ∧
      (Chronicle.boomed 11).Rests ⟨0, .ref 11, #[], 15, 3⟩ true (.ref 16) ∧
      quoting (.boomed 11) "isolate panicked: native exploded" ∧
      (Chronicle.boomed 13).Rests ⟨0, .ref 13, #[], 15, 3⟩ true (.ref 16) ∧
      quoting (.boomed 13) "isolate panicked: unknown panic" := by
  have hanswered := (isolates_settle .answering run_answering).1 1 ⟨0, .ref 11, #[], 12, 3⟩
    (by decide +kernel)
  have htext := (isolates_settle (.boomed 11) (run_boomed (.inl rfl))).1 1
    ⟨0, .ref 11, #[], 15, 3⟩ (by decide +kernel)
  have hother := (isolates_settle (.boomed 13) (run_boomed (.inr rfl))).1 1
    ⟨0, .ref 13, #[], 15, 3⟩ (by decide +kernel)
  refine ⟨hanswered.rests (r := 13) ?_ ?_ ?_, htext.rests (r := 17) ?_ ?_ ?_, ?_,
    hother.rests (r := 17) ?_ ?_ ?_, ?_⟩
  all_goals decide +kernel

end ScriptCore
