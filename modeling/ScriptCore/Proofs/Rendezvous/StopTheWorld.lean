import ScriptCore.Proofs.Rendezvous.Balance
import ScriptCore.Proofs.World.Chronicle

/-!
# Stopping the world

Every step of a thread and every operation of the host keeps the counters of the rendezvous in
balance, so they are in balance in every state of every run. While a collection sweeps, everyone
registered is parked, and it stays like that until the collection ends.

* `Balanced.step`, `Balanced.assign`, `Balanced.act`, `Run.balanced`: the balance is kept;
* `World.Frozen`: no thread registers or leaves, and the coordinator stays where it is;
* `stop_the_world`: what a collection can rely on.
-/

namespace ScriptCore

namespace World

namespace Balanced

variable {stops stops' : Nat} {w w' : World} {t : ThreadId}

/-! ### A step -/

/-- A thread goes on after a wait. -/
theorem afterWait (h : Balanced stops (w.setControl t .idle)) (ht : t < w.threads.size) {k : After}
    (hk : k.Waiting (w.thread t).registered) (o : Outcome) :
    Balanced stops (w.continueWith t k o) := by
  obtain ⟨consumer, hconsumer, hregistered⟩ := hk
  refine h.sequel ht (Sequel.continueWith (G := fun _ _ => True) ht .collect hconsumer o
    fun _ _ _ _ => trivial) ?_
  cases consumer with
  | host => trivial
  | call callee outermost => exact hregistered (by simp)

/-- A thread goes on after a collection. -/
theorem rejoin (h : Balanced stops (w.setControl t .idle)) (ht : t < w.threads.size) {k : After}
    (hk : k.Rejoining (w.thread t).registered) (o : Outcome) :
    Balanced stops (w.continueWith t k o) := by
  cases k with
  | instruction => exact h.turn ht rfl rfl rfl hk
  | reply consumer =>
    refine h.afterWait ht ⟨consumer, rfl, fun hne => ?_⟩ o
    cases consumer with
    | host => exact absurd rfl hne
    | call callee outermost => exact hk
  | _ => exact hk.elim

theorem execute (h : Balanced stops (w.setControl t .idle)) (ht : t < w.threads.size)
    (hregistered : (w.thread t).registered = true) : Balanced stops (w.execute t) := by
  let r := (w.thread t).vm.step ((w.thread t).caller t) w.store
  have hsync : r.2.1.collector.sync = w.sync := (Vm.quiet_step _ _ _).sync
  exact sequel (w := { w with store := r.2.1 }) (h.congr rfl hsync) ht
    (Sequel.execute (G := fun _ _ => True) ht fun _ _ _ _ => trivial) hregistered

theorem enter (h : Balanced stops (w.setControl t .idle)) (ht : t < w.threads.size)
    (hregistered : (w.thread t).registered = true) (function : Value) (args : Array Value) :
    Balanced stops (w.enter t function args) := by
  let r := (w.thread t).vm.enter ((w.thread t).caller t) function args w.store
  have hsync : r.2.1.collector.sync = w.sync := (Vm.quiet_enter _ _ _ _ _).sync
  exact sequel (w := { w with store := r.2.1 }) (h.congr rfl hsync) ht
    (Sequel.enter (G := fun _ _ => True) ht function args fun _ _ _ _ => trivial) hregistered

/-- A thread goes on after a collection of others. -/
theorem afterLingering (h : Balanced stops (w.setControl t .idle)) (ht : t < w.threads.size)
    {k : After} (hk : (Control.lingering k).InOrder (w.thread t).registered (w.thread t).role)
    (hcollecting : w.sync.collecting = false) (o : Outcome) :
    Balanced (if k = .pause none then stops + 1 else stops) (w.continueWith t k o) := by
  cases k with
  | pause ending =>
    cases ending with
    | none => exact h.pauses ht hcollecting rfl rfl (Nat.add_comm _ _) trivial
    | some e => exact h.pauses ht hcollecting rfl rfl (Nat.add_comm _ _) (hk rfl)
  | retire => exact h.leave ht
  | start | join => exact hk.elim
  | instruction => exact h.rejoin (k := .instruction) ht hk o
  | reply consumer => exact h.rejoin (k := .reply consumer) ht hk o

/-- A wait goes on to another or to its end. -/
theorem passWait (h : Balanced stops w) (ht : t < w.threads.size) (wait : Wait) {c : Control}
    (hparked : c.parked = (w.control t).parked)
    (hcoordinates : c.coordinates = (w.control t).coordinates)
    (hpauses : c.pauses = (w.control t).pauses) (hself : ∀ k, c ≠ .sweeping k)
    (horder : c.InOrder (w.thread t).registered (w.thread t).role) :
    Balanced stops ((w.passWait t wait).1.setControl t c) :=
  h.swap ht (becomes_setControl (threads_passWait w t wait) ht c)
    (congrArg Collector.sync (collector_passWait w t wait)) rfl hparked hcoordinates hpauses
    (fun k hk => absurd hk (hself k)) horder

/-- The thread that has gathered all others begins to sweep. -/
theorem gather (h : Balanced stops w) {k : After} (hcontrol : w.control t = .gathering k)
    (hparked : w.sync.mutators ≤ w.sync.parked) :
    Balanced stops (w.setControl t (.sweeping k)) := by
  have ht : t < w.threads.size := lt_size_of_control (by simp [hcontrol])
  have horder : (w.control t).InOrder (w.thread t).registered (w.thread t).role := h.inOrder t
  rw [hcontrol] at horder
  exact h.swap ht (becomes_setControl rfl ht _) rfl rfl (hcontrol ▸ rfl) (hcontrol ▸ rfl)
    (hcontrol ▸ rfl) (fun _ _ => hparked) horder

/-- An isolate that has published its result goes on to end its pause. -/
theorem publish (h : Balanced stops w) {ending : Ending}
    (hcontrol : w.control t = .publishing ending) (i : Isolate) :
    Balanced stops (w.publish t i ending) := by
  have ht : t < w.threads.size := lt_size_of_control (by simp [hcontrol])
  have hsync : (w.publish t i ending).sync = w.sync := by
    rw [publish_eq]
    exact (published_same w t i ending).1
  exact h.swap ht (becomes_publish ht i ending) hsync rfl (hcontrol ▸ rfl) (hcontrol ▸ rfl)
    (hcontrol ▸ rfl) (fun _ hk => by cases hk) trivial

/-- A pause of an isolate ends. -/
theorem resume (h : Balanced stops w) (hcontrol : w.control t = .resuming) :
    Balanced stops ((w.modifySync fun r => r.resume?.getD r).setControl t .releasing) := by
  have ht : t < w.threads.size := lt_size_of_control (by simp [hcontrol])
  have hbecomes : Becomes t { w.thread t with control := .releasing } w
      ((w.modifySync fun r => r.resume?.getD r).setControl t .releasing) :=
    becomes_setControl (by rfl) ht _
  have hpauses : (w.thread t).pauses = true := by
    rw [Thread.pauses, ← control, hcontrol]
    rfl
  have hpos : 1 ≤ w.sync.paused := by
    have hone := one_le_count ht hpauses
    have hpaused := h.paused
    omega
  have hresume : w.sync.resume?.getD w.sync = { w.sync with paused := w.sync.paused - 1 } := by
    rw [Rendezvous.resume?, if_neg (by omega)]
    rfl
  refine h.change ht hbecomes hresume rfl ?_ ?_ ?_ ?_ (fun _ _ _ _ => ⟨le_rfl, le_rfl⟩)
    (fun _ hk => by cases hk) trivial
  · rw [Thread.parked, Thread.parked, ← control, hcontrol]
    rfl
  · rw [hpauses]
    show w.sync.paused - 1 + stops + 1 = w.sync.paused + stops + 0
    omega
  · rw [Thread.coordinates, ← control, hcontrol]
    rfl
  · exact fun hcollecting => congrArg (· - 1) (h.unpaused hcollecting)

/-- A step of a thread that is ready keeps the balance. -/
theorem step (h : Balanced stops w) (hready : w.ready t = true) :
    Balanced (if w.control t = .lingering (.pause none) then stops + 1 else stops) (w.step t) := by
  have hidle : w.control t ≠ .idle := fun hidle => by
    rw [ready, hidle] at hready
    cases hready
  have ht : t < w.threads.size := lt_size_of_control hidle
  have haside : (w.control t).parked = false → (w.control t).coordinates = false →
      (w.control t).pauses = false → Balanced stops (w.setControl t .idle) := h.aside ht
  have hunpark : (w.control t).parked = true → (w.control t).coordinates = false →
      (w.control t).pauses = false → ((w.thread t).registered = true → w.sync.collecting = false) →
      Balanced stops ((w.unpark t).setControl t .idle) := h.unpark ht
  have hlt : t < (w.unpark t).threads.size := by rwa [threads_unpark]
  have horder : (w.control t).InOrder (w.thread t).registered (w.thread t).role := h.inOrder t
  unfold World.step
  simp only
  rw [ready] at hready
  cases hc : w.control t <;> rw [hc] at hready haside hunpark horder <;>
    simp only [show (w.thread t).control = _ from hc, reduceCtorEq, ↓reduceIte,
      Control.lingering.injEq]
  case idle | finished | gone => cases hready
  case running =>
    have hrest := haside rfl rfl rfl
    split
    · rw [endRun_eq]
      refine hrest.turn ht ?_ ?_ ?_ (Role.inOrder_ended _ _) <;> cases (w.thread t).role <;> rfl
    split
    · exact hrest.turn ht rfl rfl rfl ⟨horder, horder⟩
    · exact hrest.execute ht horder
  case stepping => exact (haside rfl rfl rfl).execute ht horder
  case rendezvous force k =>
    have hrest := haside rfl rfl rfl
    split
    · refine hrest.linger ht ?_
      cases k with
      | pause ending | retire => exact horder.2.elim
      | _ => exact horder.2
    rename_i hcollecting
    have hclear : Balanced stops ((w.modifyStore (·.clearRequest)).setControl t .idle) :=
      hrest.congr rfl rfl
    split
    · exact hclear.rejoin ht horder.2 _
    · rename_i hpaused
      simp only [Bool.or_eq_true, decide_eq_true_eq, not_or, Nat.not_lt, Nat.le_zero] at hpaused
      exact hclear.convene ht (Bool.eq_false_iff.2 hcollecting) hpaused.1 horder.1 horder.2
  case lingering k =>
    have hcollecting : w.sync.collecting = false := by
      rwa [Bool.not_eq_true', World.collecting] at hready
    have hcalm : (w.unpark t).sync.collecting = false := by
      rw [sync_unpark]
      exact hcollecting
    refine (hunpark rfl rfl rfl fun _ => hcollecting).afterLingering hlt ?_ hcalm _
    rwa [thread_unpark]
  case gathering k => exact h.gather hc (of_decide_eq_true hready)
  case sweeping k => exact (h.dismiss hc).rejoin ht horder.2 _
  case blocked wait k =>
    have hpass : ∀ c : Control, c.parked = true → c.coordinates = false → c.pauses = false →
        (∀ k, c ≠ .sweeping k) → c.InOrder (w.thread t).registered (w.thread t).role →
        Balanced stops ((w.passWait t wait).1.setControl t c) :=
      fun c hparked hcoordinates hpauses =>
        h.passWait ht wait (hc ▸ hparked) (hc ▸ hcoordinates) (hc ▸ hpauses)
    split
    · rename_i w₁ wait' heq
      have hw : (w.passWait t wait).1 = w₁ := congrArg Prod.fst heq
      exact hw ▸ hpass (.blocked wait' k) rfl rfl rfl (by simp) horder
    · rename_i w₁ o heq
      have hw : (w.passWait t wait).1 = w₁ := congrArg Prod.fst heq
      exact hw ▸ hpass (.leaving o k) rfl rfl rfl (by simp) horder
  case waiting wait k =>
    have hrest := haside rfl rfl rfl
    have hthreads := threads_passWait w t wait
    have hpass : Balanced stops ((w.passWait t wait).1.setControl t .idle) := by
      refine hrest.congr ?_ (congrArg Collector.sync (collector_passWait w t wait))
      rw [setControl, modifyThread, hthreads]
      rfl
    rcases hp : w.passWait t wait with ⟨w₁, wait' | o⟩ <;> rw [hp] at hthreads hpass <;> simp only
    · refine hpass.turn (hthreads ▸ ht) rfl rfl rfl ?_
      rw [thread_congr hthreads]
      exact horder
    · refine hpass.afterWait (hthreads ▸ ht) ?_ o
      rw [thread_congr hthreads]
      exact horder
  case leaving o k =>
    have hcalm : (w.thread t).registered = true → w.sync.collecting = false := by
      intro hregistered
      rw [Bool.or_eq_true, Bool.not_eq_true', World.collecting] at hready
      refine hready.resolve_right fun hnone => ?_
      rw [Thread.registered, Option.isSome_iff_ne_none] at hregistered
      exact hregistered (Option.isNone_iff_eq_none.1 hnone)
    refine (hunpark rfl rfl rfl hcalm).afterWait hlt ?_ _
    rwa [thread_unpark]
  case enrolling =>
    have hcollecting : w.sync.collecting = false := by
      rwa [Bool.not_eq_true', World.collecting] at hready
    refine (haside rfl rfl rfl).register ht horder hcollecting ?_ ?_ ?_ ?_
    · cases (w.thread t).role <;> rfl
    · cases (w.thread t).role <;> rfl
    · cases (w.thread t).role <;> rfl
    · cases (w.thread t).role <;> simp [Control.InOrder]
  case equipping =>
    refine (haside rfl rfl rfl).become ht ((becomes_equip ht).setControl ht _) rfl rfl ?_ ?_ ?_ ?_
    · cases (w.thread t).role <;> rfl
    · cases (w.thread t).role <;> rfl
    · cases (w.thread t).role <;> rfl
    · cases hrole : (w.thread t).role with
      | host => trivial
      | isolate i => exact horder (by simp [hrole])
  case entering =>
    split
    · exact (haside rfl rfl rfl).turn ht rfl rfl rfl trivial
    · exact (haside rfl rfl rfl).enter ht horder _ _
  case pausing ending =>
    split
    · exact (haside rfl rfl rfl).linger ht fun _ => horder
    · rename_i hcollecting
      exact (haside rfl rfl rfl).pauses ht (Bool.eq_false_iff.2 hcollecting) rfl rfl
        (Nat.add_comm _ _) horder
  case publishing ending =>
    split
    · rename_i hrole
      exact absurd hrole horder
    · exact h.publish hc _
  case resuming => exact h.resume hc
  case releasing =>
    split
    · exact (haside rfl rfl rfl).turn ht rfl rfl rfl trivial
    · exact (haside rfl rfl rfl).become ht (becomes_setControl (threads_dropRoot w _) ht _)
        (dropRoot_same w _).1 rfl rfl rfl rfl trivial
  case retiring =>
    split
    · exact (haside rfl rfl rfl).linger ht trivial
    · exact (haside rfl rfl rfl).leave ht
  case unrooting =>
    have hsync : (w.unroot t).sync = w.sync := by
      rw [unroot_eq]
      exact (uproot_same w t).1
    refine (haside rfl rfl rfl).become ht (becomes_unroot ht) hsync rfl ?_ ?_ ?_ ?_ <;>
      cases (w.thread t).role <;> trivial
  case littering n =>
    cases n with
    | zero => exact (haside rfl rfl rfl).turn ht rfl rfl rfl trivial
    | succ n =>
      exact (haside rfl rfl rfl).become ht (becomes_setControl (by rfl) ht _) rfl rfl rfl rfl rfl
        trivial
  case resolving agenda =>
    cases agenda with
    | nil => exact (haside rfl rfl rfl).turn ht rfl rfl rfl trivial
    | cons task rest =>
      obtain ⟨d, f, v⟩ := task
      refine (haside rfl rfl rfl).become ht (becomes_setControl ?_ ht _) ?_ rfl rfl rfl rfl trivial
      · split <;> rfl
      · cases hr : w.store.heap.resolve f v <;> simp only [hr] <;> rfl

/-! ### The host -/

/-- A thread that is new and counts for nothing. -/
theorem add (h : Balanced stops w) {th : Thread} (hstorage : th.storage = none)
    (hcoordinates : th.control.coordinates = false) (hpauses : th.control.pauses = false)
    (horder : th.InOrder) : Balanced stops (w.add th).1 := by
  have hthread := thread_add (w := w) th
  have hcount : ∀ p : Thread → Bool, p th = false → (w.add th).1.count p = w.count p := by
    intro p hp
    rw [count_eq_total, total_add, hp, ← count_eq_total]
    rfl
  refine ⟨?_, ?_, ?_, ?_, h.unpaused, ?_, ?_⟩
  · rw [hcount _ (by rw [Thread.registered, hstorage]; rfl)]
    exact h.mutators
  · rw [hcount _ (by rw [Thread.parked, hstorage]; rfl)]
    exact h.parked
  · rw [hcount _ hpauses]
    exact h.paused
  · rw [hcount _ hcoordinates]
    exact h.coordinators
  · intro t k hk
    rw [control, hthread] at hk
    split at hk
    · rw [hk] at hcoordinates
      cases hcoordinates
    · exact h.gathered t k hk
  · intro t
    rw [hthread]
    split
    · exact horder
    · exact h.inOrder t

theorem setVm (h : Balanced stops w) (t : ThreadId) (vm : Vm) : Balanced stops (w.setVm t vm) := by
  refine h.of_counted (size_modifyThread _) rfl fun u => ?_
  rcases thread_setVm (w := w) (t := t) vm u with heq | heq <;> rw [heq] <;> exact ⟨rfl, rfl, rfl⟩

/-- The host ends a pause that it has begun. -/
theorem hostResumes (h : Balanced stops w) (hpos : 0 < stops) :
    Balanced (stops - 1) (w.modifySync fun r => r.resume?.getD r) := by
  have hpaused := h.paused
  have hresume : w.sync.resume?.getD w.sync = { w.sync with paused := w.sync.paused - 1 } := by
    rw [Rendezvous.resume?, if_neg (by omega)]
    rfl
  have hsync : (w.modifySync fun r => r.resume?.getD r).sync = _ := hresume
  refine ⟨?_, ?_, ?_, ?_, ?_, ?_, h.inOrder⟩
  · rw [hsync]
    exact h.mutators
  · rw [hsync]
    exact h.parked
  · rw [hsync]
    show w.sync.paused - 1 = stops - 1 + w.count Thread.pauses
    omega
  · rw [hsync]
    exact h.coordinators
  · rw [hsync]
    exact fun hcollecting => congrArg (· - 1) (h.unpaused hcollecting)
  · rw [hsync]
    exact h.gathered

/-- A thread that rests counts for nothing but its registration. -/
theorem spare (h : Balanced stops w) (ht : w.Spare t) : Balanced stops (w.setControl t .idle) := by
  rcases control_of_atRest ht.rests with hc | ⟨o, hc⟩ | hc <;>
    exact h.aside ht.known (hc ▸ rfl) (hc ▸ rfl) (hc ▸ rfl)

/-- The host gives a task to a thread that rests. -/
theorem assign (h : Balanced stops w) (ht : w.Spare t) {task : Task}
    (htask : task.Orderly (w.thread t)) :
    Balanced (if task = .pause ∧ w.collecting = false then stops + 1 else stops)
      (w.assign t task) := by
  have hrest := h.spare ht
  have hhost : (After.reply .host).Waiting (w.thread t).registered :=
    ⟨.host, rfl, fun hne => absurd rfl hne⟩
  cases task <;> simp only [reduceCtorEq, false_and, true_and, ↓reduceIte] <;>
    simp only [World.assign]
  case enroll =>
    split
    · exact hrest.turn ht.known rfl rfl rfl trivial
    · rename_i hstorage
      exact hrest.turn ht.known rfl rfl rfl (Bool.eq_false_iff.2 hstorage)
  case equip => exact hrest.turn ht.known rfl rfl rfl fun hne => absurd ht.host hne
  case retire => exact hrest.turn ht.known rfl rfl rfl trivial
  case pause =>
    by_cases hcollecting : w.collecting = true
    · rw [if_pos hcollecting, if_neg (by simp [hcollecting])]
      exact hrest.linger ht.known fun hsome => by cases hsome
    · rw [if_neg hcollecting, if_pos (Bool.eq_false_iff.2 hcollecting)]
      exact hrest.pauses ht.known (Bool.eq_false_iff.2 hcollecting) rfl rfl (Nat.add_comm _ _)
        trivial
  case safepoint =>
    split
    · exact hrest.turn ht.known rfl rfl rfl ⟨htask, trivial⟩
    · exact hrest.turn ht.known rfl rfl rfl trivial
  case call function args => exact hrest.enter ht.known htask function args
  case run => exact hrest.turn ht.known rfl rfl rfl htask
  case litter n => exact hrest.turn ht.known rfl rfl rfl trivial
  case lock l => exact hrest.turn ht.known rfl rfl rfl hhost
  case nest =>
    refine hrest.parks ht.known (becomes_nest ht.known) ?_ rfl rfl rfl hhost
    rw [nest_eq ht.known]
    rfl
  case request r =>
    by_cases hr : r = .collect
    · subst hr
      exact hrest.turn ht.known rfl rfl rfl ⟨htask, trivial⟩
    · exact hrest.sequel ht.known (Sequel.request (G := fun _ _ => True) (k := .host) ht.known r r
        (fun _ => hr) fun _ _ _ _ => trivial) trivial

/-- Everything that happens in order keeps the balance. -/
theorem act {c : Chronicle} {a : Act} (h : Balanced (ScriptCore.stops c.past) c.world)
    (ha : a.Orderly c) : Balanced (ScriptCore.stops (a.record c).past) (a.record c).world := by
  show Balanced (a.stops c.toHosted (ScriptCore.stops c.past)) (a.apply c.toHosted).world
  by_cases htends : a.tends = true
  · have htended := Act.tended htends c.toHosted
    have hstops : a.stops c.toHosted (ScriptCore.stops c.past) = ScriptCore.stops c.past := by
      cases a <;> trivial
    rw [hstops]
    exact h.congr htended.threads htended.sync
  cases a with
  | step t => exact h.step ha
  | elapse now =>
    have hthread : ∀ t, (c.world.beginRound now).thread t = { c.world.thread t with spent := 0 } :=
      thread_beginRound c.world now
    refine h.of_counted (Array.size_map ..) rfl fun t => ?_
    rw [show (Act.apply c.toHosted (.elapse now)).world = c.world.beginRound now from rfl, hthread]
    exact ⟨rfl, rfl, rfl⟩
  | spawn => exact h.add rfl rfl rfl trivial
  | helper agenda => exact h.add rfl rfl rfl trivial
  | assign t task =>
    obtain ⟨hspare, htask⟩ := ha
    have hassign := h.assign hspare htask
    cases task with
    | pause =>
      show Balanced (if c.world.collecting then _ else _) (c.world.assign t .pause)
      cases hcollecting : c.world.collecting <;> simpa [hcollecting] using hassign
    | _ =>
      rw [if_neg (by simp)] at hassign
      exact hassign
  | wait t what parked =>
    have hhost : (After.reply .host).Waiting (c.world.thread t).registered :=
      ⟨.host, rfl, fun hne => absurd rfl hne⟩
    cases parked with
    | true =>
      exact (h.spare ha).parks ha.known (becomes_setControl (threads_park _ t) ha.known _)
        rfl rfl rfl rfl hhost
    | false => exact (h.spare ha).turn ha.known rfl rfl rfl hhost
  | dismiss t =>
    exact ((h.spare ha).turn ha.known (c := .gone) rfl rfl rfl trivial).congr rfl rfl
  | push t v => exact h.setVm t _
  | pop t => exact h.setVm t _
  | resume => exact h.hostResumes ha
  | _ => exact absurd rfl htends

end Balanced

end World

/-- In every state of every orderly run the counters are the numbers of threads. -/
theorem Run.balanced {c : Chronicle} (h : Run Act.Orderly c) :
    World.Balanced (stops c.past) c.world := by
  induction h with
  | @new _ _ s hs =>
    have hempty := World.tended_new hs
    have hthread : ∀ t, World.thread { store := s } t = {} := fun t =>
      World.thread_of_size_le (Nat.zero_le t)
    refine ⟨?_, ?_, ?_, ?_, ?_, ?_, ?_⟩
    · exact congrArg Rendezvous.mutators hempty.sync
    · exact congrArg Rendezvous.parked hempty.sync
    · exact congrArg Rendezvous.paused hempty.sync
    · exact congrArg (Bool.toNat ∘ Rendezvous.collecting) hempty.sync.symm
    · exact fun _ => congrArg Rendezvous.paused hempty.sync
    · intro t k hk
      rw [World.control, hthread] at hk
      cases hk
    · intro t
      rw [hthread]
      trivial
  | act _ ha ih => exact ih.act ha

/-! ### While a collection sweeps -/

namespace World

/-- Thread `t` stays where it is, and no thread registers or leaves. -/
structure Frozen (t : ThreadId) (w w' : World) : Prop where
  mine : w'.control t = w.control t
  storage : ∀ u, (w'.thread u).storage = (w.thread u).storage
  storages : w'.storageIds = w.storageIds

namespace Frozen

variable {G : Outcome → Store → Prop} {t u : ThreadId} {w w₁ w' : World}

theorem refl (t : ThreadId) (w : World) : Frozen t w w := ⟨rfl, fun _ => rfl, rfl⟩

theorem trans (h : Frozen t w w₁) (h' : Frozen t w₁ w') : Frozen t w w' :=
  ⟨h'.mine.trans h.mine, fun u => (h'.storage u).trans (h.storage u), h'.storages.trans h.storages⟩

/-- Another thread changes and keeps its registration. -/
theorem of_becomes (hu : u ≠ t) {th : Thread} (h : Becomes u th w w')
    (hstorage : th.storage = (w.thread u).storage) (hstorages : w'.storageIds = w.storageIds) :
    Frozen t w w' where
  mine := by rw [control, control, h.others t hu.symm]
  storage v := by
    by_cases hv : v = u
    · rw [hv, h.mine, hstorage]
    · rw [h.others v hv]
  storages := hstorages

/-- Another thread is at work. -/
theorem of_sequel (hu : u ≠ t) (ht : t < w.threads.size) {p : Pending} {vm : Vm}
    {held : List RootId} (h : Sequel G u p vm held w w') : Frozen t w w' where
  mine := by rw [control, control, h.others t hu.symm ht]
  storage v := by
    obtain ⟨vm', c, hmine, -⟩ := h.mine
    by_cases hv : v = u
    · rw [hv, hmine]
    by_cases hlt : v < w.threads.size
    · rw [h.others v hv hlt]
    rw [thread_of_size_le (Nat.not_lt.1 hlt)]
    rcases h.born.newborn (Nat.not_lt.1 hlt) with hnone | ⟨-, hnew⟩
    · rw [hnone]
    · obtain ⟨name, i, heq⟩ := hnew.fresh
      rw [heq]
  storages := h.storages

/-- The store changes before. -/
theorem before (h : Frozen t w₁ w') (hthreads : w₁.threads = w.threads)
    (hstorages : w₁.storageIds = w.storageIds) : Frozen t w w' :=
  ⟨by rw [h.mine, control, control, thread_congr hthreads],
    fun u => by rw [h.storage u, thread_congr hthreads], h.storages.trans hstorages⟩

theorem setControl (hu : u ≠ t) (hlt : u < w.threads.size) (c : Control) :
    Frozen t w (w.setControl u c) :=
  of_becomes hu (becomes_setControl rfl hlt c) rfl rfl

theorem execute (hu : u ≠ t) (ht : t < w.threads.size) (hlt : u < w.threads.size) :
    Frozen t w (w.execute u) := by
  have hrest := Sequel.execute (G := fun _ _ => True) hlt fun _ _ _ _ => trivial
  exact (of_sequel hu (by exact ht) hrest).before rfl (Vm.step_safe _ _ _).edited.storages

theorem enter (hu : u ≠ t) (ht : t < w.threads.size) (hlt : u < w.threads.size) (function : Value)
    (args : Array Value) : Frozen t w (w.enter u function args) := by
  have hrest := Sequel.enter (G := fun _ _ => True) hlt function args fun _ _ _ _ => trivial
  exact (of_sequel hu (by exact ht) hrest).before rfl (Vm.enter_safe _ _ _ _ _).edited.storages

/-- Another thread goes on, unless it leaves the collector. -/
theorem continueWith (hu : u ≠ t) (ht : t < w.threads.size) (hlt : u < w.threads.size) {k : After}
    (hk : k ≠ .retire) (o : Outcome) : Frozen t w (w.continueWith u k o) := by
  have hsequel : ∀ consumer, k.consumer? = some consumer → Frozen t w (w.continueWith u k o) :=
    fun consumer hc => of_sequel hu ht
      (Sequel.continueWith (G := fun _ _ => True) hlt .collect hc o fun _ _ _ _ => trivial)
  cases k with
  | instruction => exact setControl hu hlt _
  | pause ending => exact of_becomes hu (becomes_setControl (by rfl) hlt _) rfl rfl
  | retire => exact absurd rfl hk
  | reply consumer => exact hsequel _ rfl
  | start function args consumer => exact hsequel _ rfl
  | join j consumer => exact hsequel _ rfl

/-- During a collection no step of another thread registers it or lets it leave. -/
theorem step (hu : u ≠ t) (ht : t < w.threads.size) (hready : w.ready u = true)
    (hcollecting : w.collecting = true) (horder : (w.thread u).InOrder) :
    Frozen t w (w.step u) := by
  have hidle : w.control u ≠ .idle := fun hidle => by
    rw [ready, hidle] at hready
    cases hready
  have hlt : u < w.threads.size := lt_size_of_control hidle
  have hlater : ∀ w₁ : World, w₁.threads = w.threads → w₁.storageIds = w.storageIds →
      ∀ k o, k ≠ .retire → Frozen t w (w₁.continueWith u k o) := fun w₁ hthreads hstorages k o hk =>
    (continueWith hu (hthreads ▸ ht) (hthreads ▸ hlt) hk o).before hthreads hstorages
  have hturn : ∀ w₁ : World, w₁.threads = w.threads → w₁.storageIds = w.storageIds →
      ∀ c, Frozen t w (w₁.setControl u c) := fun w₁ hthreads hstorages c =>
    of_becomes hu (becomes_setControl hthreads hlt c) rfl hstorages
  have hwait : ∀ wait, (w.passWait u wait).1.storageIds = w.storageIds := fun wait => by
    rw [storageIds, collector_passWait]
    rfl
  have hpark : ∀ c, Frozen t w ((w.park u).setControl u c) :=
    hturn _ (threads_park w u) (park_same w u).1
  rw [Thread.InOrder, ← control] at horder
  rw [ready] at hready
  unfold World.step
  simp only
  cases hc : w.control u <;> rw [hc] at hready horder <;>
    simp only [show (w.thread u).control = _ from hc]
  case idle | finished | gone => cases hready
  case running =>
    split
    · rw [endRun_eq]
      exact hturn w rfl rfl _
    split
    · exact hturn w rfl rfl _
    · exact execute hu ht hlt
  case stepping => exact execute hu ht hlt
  case rendezvous force k =>
    rw [if_pos (show w.store.collector.sync.collecting = true from hcollecting)]
    exact hpark _
  -- a thread that waits for the collection to end is not ready
  case lingering | enrolling =>
    rw [hcollecting] at hready
    cases hready
  case gathering k => exact hturn w rfl rfl _
  case sweeping k =>
    exact hlater _ (by rfl) (by exact Collector.Tidy.ids_collect _ _) _ _ horder.2.ne_retire
  case blocked wait k =>
    have hthreads := threads_passWait w u wait
    have hstorages := hwait wait
    split <;> rename_i heq <;> rw [heq] at hthreads hstorages <;> exact hturn _ hthreads hstorages _
  case waiting wait k =>
    have hthreads := threads_passWait w u wait
    have hstorages := hwait wait
    split <;> rename_i heq <;> rw [heq] at hthreads hstorages
    · exact hturn _ hthreads hstorages _
    · exact hlater _ hthreads hstorages _ _ horder.ne_retire
  case leaving o k =>
    exact hlater _ (threads_unpark w u) (unpark_same w u).1 _ _ horder.ne_retire
  case equipping =>
    exact of_becomes hu ((becomes_equip hlt).setControl hlt _) rfl rfl
  case entering =>
    split
    · exact hturn w rfl rfl _
    · exact enter hu ht hlt _ _
  case pausing ending =>
    rw [if_pos hcollecting]
    exact hpark _
  case publishing ending =>
    split
    · exact hturn w rfl rfl _
    · refine of_becomes hu (becomes_publish hlt _ ending) rfl ?_
      rw [publish_eq]
      exact (published_same w u _ ending).2.2.1
  case resuming => exact hturn _ (by rfl) (by rfl) _
  case releasing =>
    split
    · exact hturn w rfl rfl _
    · exact hturn _ (threads_dropRoot w _) (dropRoot_same w _).2.1 _
  case retiring =>
    rw [if_pos hcollecting]
    exact hpark _
  case unrooting =>
    refine of_becomes hu (becomes_unroot hlt) rfl ?_
    rw [unroot_eq]
    exact (uproot_same w u).2.1
  case littering n =>
    cases n with
    | zero => exact hturn w rfl rfl _
    | succ n => exact hturn _ (by rfl) (by exact Collector.Tidy.ids_make _ _ _) _
  case resolving agenda =>
    cases agenda with
    | nil => exact hturn w rfl rfl _
    | cons task rest =>
      obtain ⟨d, f, v⟩ := task
      cases hr : w.store.heap.resolve f v <;> simp only [hr] <;> exact hturn _ (by rfl) (by rfl) _

theorem add (ht : t < w.threads.size) {th : Thread} (hstorage : th.storage = none) :
    Frozen t w (w.add th).1 where
  mine := by rw [control, control, thread_add, if_neg ht.ne]
  storage u := by
    rw [thread_add]
    split
    · rename_i hu
      rw [hstorage, thread_of_size_le hu.ge]
    · rfl
  storages := rfl

/-- The host gives a task to another thread. -/
theorem assign (hu : u ≠ t) (ht : t < w.threads.size) (hlt : u < w.threads.size) (task : Task) :
    Frozen t w (w.assign u task) := by
  have hturn : ∀ c, Frozen t w (w.setControl u c) := setControl hu hlt
  have hpark := becomes_setControl (threads_park w u) hlt
  cases task <;> simp only [World.assign]
  case enroll | safepoint => split <;> exact hturn _
  case equip | retire | run | litter | lock => exact hturn _
  case pause =>
    split
    · exact of_becomes hu (hpark _) rfl (park_same w u).1
    · exact of_becomes hu (becomes_setControl (by rfl) hlt _) rfl rfl
  case call function args => exact enter hu ht hlt function args
  case nest =>
    refine of_becomes hu (becomes_nest hlt) rfl ?_
    rw [nest_eq hlt]
    exact (park_same w u).1
  case request r =>
    by_cases hr : r = .collect
    · subst hr
      exact hturn _
    · exact of_sequel hu ht (Sequel.request (G := fun _ _ => True) (k := .host) hlt r r
        (fun _ => hr) fun _ _ _ _ => trivial)

end Frozen

/-- The step that ends a collection. -/
theorem collecting_step_of_sweeping {w : World} {t : ThreadId} {k : After}
    (hc : w.control t = .sweeping k) (horder : (w.thread t).InOrder) :
    (w.step t).collecting = false := by
  have ht : t < w.threads.size := lt_size_of_control (by simp [hc])
  rw [Thread.InOrder, ← control, hc] at horder
  let w₁ := w.collect.modifySync (·.dismiss)
  have hstep : w.step t = w₁.continueWith t k (.value (.bool true)) := by
    unfold World.step
    simp only [show (w.thread t).control = _ from hc, w₁]
  rw [hstep]
  cases k with
  | instruction => rfl
  | reply consumer =>
    have hrest : Sequel (fun _ _ => True) t _ _ _ w₁
        (w₁.continueWith t (.reply consumer) (.value (.bool true))) :=
      Sequel.continueWith (w := w₁) ht .collect rfl _ fun _ _ _ _ => trivial
    have hsync := hrest.sync
    rw [sync_park] at hsync
    show (World.sync _).collecting = false
    rw [hsync]
    split <;> rfl
  | _ => exact horder.2.elim

/-- While a collection sweeps, nothing that happens registers a thread or lets one leave. -/
theorem Frozen.act {c : Chronicle} {a : Act} {t : ThreadId} {k : After}
    (h : Balanced (ScriptCore.stops c.past) c.world) (ha : a.Orderly c)
    (hsweeping : c.world.control t = .sweeping k) (hafter : (a.record c).world.collecting = true) :
    Frozen t c.world (a.record c).world := by
  have ht : t < c.world.threads.size := lt_size_of_control (by simp [hsweeping])
  have hcollecting : c.world.collecting = true := h.collecting_of_sweeping hsweeping
  -- the host has no task for the coordinator, which does not rest
  have hspare : ∀ u, c.world.Spare u → u ≠ t := by
    rintro u hu rfl
    rcases control_of_atRest hu.rests with hc | ⟨o, hc⟩ | hc <;> rw [hsweeping] at hc <;> cases hc
  show Frozen t c.world (a.apply c.toHosted).world
  by_cases htends : a.tends = true
  · have htended := Act.tended htends c.toHosted
    exact ⟨by rw [control, control, thread_congr htended.threads],
      fun u => by rw [thread_congr htended.threads], htended.storages⟩
  cases a with
  | step u =>
    by_cases hu : u = t
    · subst hu
      have hclear := collecting_step_of_sweeping hsweeping (h.inOrder u)
      rw [show (Act.record c (.step u)).world = c.world.step u from rfl, hclear] at hafter
      cases hafter
    · exact Frozen.step hu ht ha hcollecting (h.inOrder u)
  | elapse now =>
    refine ⟨?_, fun u => ?_, rfl⟩
    · show ((c.world.beginRound now).thread t).control = _
      rw [thread_beginRound]
      rfl
    · show ((c.world.beginRound now).thread u).storage = _
      rw [thread_beginRound]
  | spawn => exact Frozen.add ht rfl
  | helper agenda => exact Frozen.add ht rfl
  | assign u task => exact Frozen.assign (hspare u ha.1) ht ha.1.known task
  | wait u what parked =>
    cases parked with
    | true =>
      exact Frozen.of_becomes (hspare u ha) (becomes_setControl (threads_park _ u) ha.known _) rfl
        (park_same _ u).1
    | false => exact Frozen.setControl (hspare u ha) ha.known _
  | dismiss u =>
    have hgone := Frozen.setControl (hspare u ha) ha.known .gone
    exact ⟨hgone.mine, hgone.storage, hgone.storages⟩
  | push u v | pop u =>
    exact Frozen.of_becomes (hspare u ha) (becomes_modifyThread rfl ha.known _) rfl rfl
  | resume => exact ⟨rfl, fun _ => rfl, rfl⟩
  | _ => exact absurd rfl htends

/-- Everyone registered is parked, and no pause is active. -/
structure Stopped (w : World) : Prop where
  parked : ∀ u, (w.thread u).registered = true → (w.thread u).parked = true
  unpaused : w.sync.paused = 0

theorem Balanced.stopped {stops : Nat} {w : World} (h : Balanced stops w) {t : ThreadId} {k : After}
    (hsweeping : w.control t = .sweeping k) : w.Stopped := by
  have hparked : ∀ th : Thread, th.parked = true → th.registered = true := fun th hth =>
    (Bool.and_eq_true_iff.1 hth).1
  have hle : w.count Thread.registered ≤ w.count Thread.parked := by
    rw [← h.mutators, ← h.parked]
    exact h.gathered t k hsweeping
  exact ⟨fun u hu => of_count_le hparked hle (lt_size_of_storage hu) hu,
    h.unpaused (h.collecting_of_sweeping hsweeping)⟩

end World

/-- From the moment a collection sweeps until it ends. -/
theorem During.frozen {c c' : Chronicle} (h : During Act.Orderly c c') (hc : Run Act.Orderly c)
    {t : ThreadId} {k : After} (hsweeping : c.world.control t = .sweeping k) :
    World.Frozen t c.world c'.world := by
  induction h with
  | refl => exact .refl t _
  | @tail c₁ c₂ hbefore hstep ih =>
    obtain ⟨a, ha, rfl, hafter⟩ := hstep
    exact ih.trans (.act (During.run hbefore hc).balanced ha (ih.mine.trans hsweeping) hafter)

/-- **A collection stops the world.** In every state of every run the counter of parked threads is
the number of registered threads that are in a blocking region, wait for a collection or coordinate
one; it is at most the number of registered threads, and at most one thread coordinates. Whatever
frees a cell is the sweep of the coordinator. From when it may sweep until its collection ends,
everyone registered is parked, no pause is active, no thread registers or leaves, and the
coordinator stays where it is. -/
theorem stop_the_world (c : Chronicle) (h : Run Act.Orderly c) :
    let w := c.world
    w.sync.parked = w.count Thread.parked ∧ w.sync.mutators = w.count Thread.registered ∧
    w.sync.parked ≤ w.sync.mutators ∧
    (∀ t u, (w.thread t).coordinates = true → (w.thread u).coordinates = true → t = u) ∧
    (∀ a : Act, a.Orderly c →
      (∃ cell, w.store.heap.Live cell ∧ ¬ (a.record c).world.store.heap.Live cell) →
      ∃ t k, a = .step t ∧ w.control t = .sweeping k) ∧
    ∀ t k, w.control t = .sweeping k → ∀ c', During Act.Orderly c c' →
      c'.world.Stopped ∧ World.Frozen t w c'.world := by
  have hbalanced := h.balanced
  refine ⟨hbalanced.parked, hbalanced.mutators, ?_, fun t u => hbalanced.unique, ?_, ?_⟩
  · rw [hbalanced.parked, hbalanced.mutators]
    exact World.count_le_count fun th hth => (Bool.and_eq_true_iff.1 hth).1
  · rintro a ha ⟨cell, hlive, hfreed⟩
    by_contra hsweep
    refine hfreed ((Act.evolves ha fun t k hstep hk => hsweep ⟨t, k, hstep, hk⟩).live hlive)
  · intro t k hsweeping c' hduring
    have hfrozen := hduring.frozen h hsweeping
    exact ⟨(hduring.run h).balanced.stopped (hfrozen.mine.trans hsweeping), hfrozen⟩

/-- One host thread is in a blocking region while another, which coordinates a collection, is about
to sweep. -/
def Chronicle.sweeping : Chronicle :=
  [.spawn, .spawn, .assign 0 .enroll, .step 0, .assign 1 .enroll, .step 1, .wait 1 (.until 5) true,
    .assign 0 (.request .collect), .step 0, .step 0].foldl Act.record .standard

theorem run_sweeping : Run Act.Orderly .sweeping :=
  (Run.standard _).acts ⟨trivial, trivial, ⟨⟨by decide, rfl, rfl⟩, trivial⟩, rfl,
    ⟨⟨by decide, rfl, rfl⟩, trivial⟩, rfl, ⟨by decide, rfl, rfl⟩, ⟨⟨by decide, rfl, rfl⟩, rfl⟩, rfl,
    rfl, trivial⟩

/-- The blocked thread reaches the end of its region and does not leave it. -/
theorem stop_the_world_sweeping :
    let c := Act.record (Act.record .sweeping (.elapse 5)) (.step 1)
    During Act.Orderly .sweeping c ∧ c.world.sync.mutators = 2 ∧ c.world.Stopped := by
  have hduring : During Act.Orderly .sweeping
      (Act.record (Act.record .sweeping (.elapse 5)) (.step 1)) :=
    .tail (.single ⟨.elapse 5, trivial, rfl, rfl⟩)
      ⟨.step 1, show World.ready _ 1 = true by decide +kernel, rfl, by decide +kernel⟩
  exact ⟨hduring, by decide +kernel,
    ((stop_the_world .sweeping run_sweeping).2.2.2.2.2 0 (.reply .host) rfl _ hduring).1⟩

end ScriptCore
