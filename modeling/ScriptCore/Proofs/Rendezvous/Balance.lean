import Mathlib.Algebra.BigOperators.Intervals
import Mathlib.Algebra.Order.BigOperators.Group.Finset
import ScriptCore.Proofs.World.Others

/-!
# The counters of the rendezvous count threads

Threads register, park, pause and collect in many routines, each of which moves the shared counters
by one. The counters are right because every routine moves a thread by as much as it moves them.

* `World.count`: the number of threads of a kind;
* `Control.InOrder`: which threads can be where. Who takes part in a collection is registered;
* `World.Balanced`: the counters are the numbers of threads, and a collection sweeps only when
  everyone registered is parked;
* `Balanced.update`: a thread that changes by as much as the counters keeps that, with one lemma for
  each way to move a counter.
-/

namespace ScriptCore

/-! ### Counting threads -/

/-- The thread is counted by the collector. -/
def Thread.registered (th : Thread) : Bool := th.storage.isSome

/-- The thread is registered and in a blocking region, waits for a collection or coordinates one. -/
def Thread.parked (th : Thread) : Bool := th.storage.isSome && th.control.parked

def Control.coordinates : Control → Bool
  | .gathering _ | .sweeping _ => true
  | _ => false

/-- The thread coordinates a collection. -/
def Thread.coordinates (th : Thread) : Bool := th.control.coordinates

def Control.pauses : Control → Bool
  | .publishing _ | .resuming => true
  | _ => false

/-- The thread has begun a pause of its own. -/
def Thread.pauses (th : Thread) : Bool := th.control.pauses

namespace World

/-- The number of threads of a kind. -/
def count (p : Thread → Bool) (w : World) : Nat :=
  ((Finset.range w.threads.size).filter fun t => p (w.thread t)).card

/-- What threads have of something, all in all. -/
def total (f : Thread → Nat) (w : World) : Nat :=
  ∑ t ∈ Finset.range w.threads.size, f (w.thread t)

section count

variable {p q : Thread → Bool} {w w' : World} {t : ThreadId}

/-- One thread changes, and threads are added. -/
theorem total_turn {f : Thread → Nat} (ht : t < w.threads.size)
    (hsize : w.threads.size ≤ w'.threads.size)
    (hothers : ∀ u, u ≠ t → u < w.threads.size → w'.thread u = w.thread u) :
    w'.total f + f (w.thread t) = w.total f + f (w'.thread t) +
      ∑ u ∈ Finset.Ico w.threads.size w'.threads.size, f (w'.thread u) := by
  have hmem : t ∈ Finset.range w.threads.size := Finset.mem_range.2 ht
  have hnew := Finset.add_sum_erase _ (fun u : Nat => f (w'.thread u)) hmem
  have hold := Finset.add_sum_erase _ (fun u : Nat => f (w.thread u)) hmem
  rw [Finset.sum_congr rfl fun u hu => by rw [hothers u (Finset.ne_of_mem_erase hu)
    (Finset.mem_range.1 (Finset.mem_of_mem_erase hu))]] at hnew
  rw [total, total, ← Finset.sum_range_add_sum_Ico _ hsize]
  omega

theorem total_add (f : Thread → Nat) (w : World) (th : Thread) :
    (w.add th).1.total f = w.total f + f th := by
  have hsize : (w.add th).1.threads.size = w.threads.size + 1 := Array.size_push _
  rw [total, hsize, Finset.sum_range_succ, thread_add, if_pos rfl]
  congr 1
  refine Finset.sum_congr rfl fun t ht => ?_
  rw [thread_add, if_neg (Finset.mem_range.1 ht).ne]

theorem total_congr {f : Thread → Nat} (hsize : w'.threads.size = w.threads.size)
    (hf : ∀ t, f (w'.thread t) = f (w.thread t)) : w'.total f = w.total f := by
  simp only [total, hsize, hf]

theorem count_eq_total (p : Thread → Bool) (w : World) :
    w.count p = w.total fun th => (p th).toNat := by
  rw [count, total, Finset.card_filter]
  refine Finset.sum_congr rfl fun t _ => ?_
  cases p (w.thread t) <;> rfl

theorem count_turn (ht : t < w.threads.size) (hsize : w.threads.size ≤ w'.threads.size)
    (hothers : ∀ u, u ≠ t → u < w.threads.size → w'.thread u = w.thread u) :
    w'.count p + (p (w.thread t)).toNat = w.count p + (p (w'.thread t)).toNat +
      ∑ u ∈ Finset.Ico w.threads.size w'.threads.size, (p (w'.thread u)).toNat := by
  rw [count_eq_total, count_eq_total]
  exact total_turn ht hsize hothers

theorem count_le_count (hpq : ∀ th, p th = true → q th = true) : w.count p ≤ w.count q :=
  Finset.card_le_card fun _ ht =>
    Finset.mem_filter.2 ⟨(Finset.mem_filter.1 ht).1, hpq _ (Finset.mem_filter.1 ht).2⟩

/-- A kind that is as numerous as a wider one is no narrower. -/
theorem of_count_le (hpq : ∀ th, p th = true → q th = true) (hle : w.count q ≤ w.count p)
    (ht : t < w.threads.size) (hq : q (w.thread t) = true) : p (w.thread t) = true := by
  have hsub : (Finset.range w.threads.size).filter (fun t => p (w.thread t)) ⊆
      (Finset.range w.threads.size).filter fun t => q (w.thread t) := fun _ ht =>
    Finset.mem_filter.2 ⟨(Finset.mem_filter.1 ht).1, hpq _ (Finset.mem_filter.1 ht).2⟩
  have heq := Finset.eq_of_subset_of_card_le hsub hle
  have hmem : t ∈ (Finset.range w.threads.size).filter fun t => p (w.thread t) := by
    rw [heq]
    exact Finset.mem_filter.2 ⟨Finset.mem_range.2 ht, hq⟩
  exact (Finset.mem_filter.1 hmem).2

theorem one_le_count (ht : t < w.threads.size) (hp : p (w.thread t) = true) : 1 ≤ w.count p :=
  Finset.card_pos.2 ⟨t, Finset.mem_filter.2 ⟨Finset.mem_range.2 ht, hp⟩⟩

theorem eq_of_count_le_one {u : ThreadId} (hle : w.count p ≤ 1) (ht : t < w.threads.size)
    (hu : u < w.threads.size) (hpt : p (w.thread t) = true) (hpu : p (w.thread u) = true) :
    t = u :=
  Finset.card_le_one.1 hle t (Finset.mem_filter.2 ⟨Finset.mem_range.2 ht, hpt⟩) u
    (Finset.mem_filter.2 ⟨Finset.mem_range.2 hu, hpu⟩)

theorem count_congr (hsize : w'.threads.size = w.threads.size)
    (hp : ∀ t, p (w'.thread t) = p (w.thread t)) : w'.count p = w.count p := by
  simp only [count, hsize, hp]

end count

end World

/-! ### Threads in order -/

/-- What a thread does after a collection: a machine goes on, and its thread is registered. -/
def After.Rejoining (registered : Bool) : After → Prop
  | .instruction | .reply (.call _ _) => registered = true
  | .reply .host => True
  | _ => False

/-- What a thread does after a wait. -/
def After.Waiting (registered : Bool) (k : After) : Prop :=
  ∃ consumer, k.consumer? = some consumer ∧ (consumer ≠ .host → registered = true)

/-- Nobody leaves after a collection of its own or after a wait. -/
theorem After.Rejoining.ne_retire {registered : Bool} {k : After} (hk : k.Rejoining registered) :
    k ≠ .retire := by
  rintro rfl
  exact hk

theorem After.Waiting.ne_retire {registered : Bool} {k : After} (hk : k.Waiting registered) :
    k ≠ .retire := by
  rintro rfl
  obtain ⟨_, hnone, -⟩ := hk
  cases hnone

/-- Machines belong to registered threads, only these take part in collections, and only isolates
publish. -/
def Control.InOrder (registered : Bool) (role : Role) : Control → Prop
  | .running | .stepping | .entering => registered = true
  | .rendezvous _ k | .gathering k | .sweeping k => registered = true ∧ k.Rejoining registered
  | .lingering (.pause ending) => ending.isSome → role ≠ .host
  | .lingering .retire => True
  | .lingering k => k.Rejoining registered
  | .blocked _ k | .waiting _ k | .leaving _ k => k.Waiting registered
  | .enrolling => registered = false
  | .equipping => role ≠ .host → registered = true
  | .pausing _ | .publishing _ => role ≠ .host
  | _ => True

def Thread.InOrder (th : Thread) : Prop := th.control.InOrder th.registered th.role

/-- A machine is in hand only of a registered thread. -/
def Pending.InOrder (registered : Bool) : Pending → Prop
  | .machine _ _ => registered = true
  | .host => True

theorem Role.inOrder_entered {registered : Bool} (hr : registered = true) (role : Role) :
    role.entered.InOrder registered role := by
  cases role with
  | host => trivial
  | isolate i => exact hr

theorem Role.inOrder_ended (registered : Bool) (role : Role) :
    role.ended.InOrder registered role := by
  cases role with
  | host => trivial
  | isolate i => simp [Role.ended, Control.InOrder]

theorem Role.inOrder_interrupted (registered : Bool) (role : Role) (p : Panic) :
    (role.interrupted p).InOrder registered role := by
  cases role with
  | host => trivial
  | isolate i => simp [Role.interrupted, Control.InOrder]

/-- Where a thread at work comes to rest: in order, not as a coordinator, and not in a pause. -/
theorem Leads.inOrder {G : Outcome → Store → Prop} {me : Caller} {role : Role} {p : Pending}
    {x y : Vm × Store} {c : Control} (h : Leads G me role p x y c) {registered : Bool}
    (hp : p.InOrder registered) : c.InOrder registered role := by
  induction h with
  | @next _ _ outermost =>
    cases outermost with
    | false => exact hp
    | true => exact Role.inOrder_entered hp role
  | @failed _ _ _ outermost =>
    cases outermost with
    | false => exact Role.inOrder_ended _ role
    | true => exact Role.inOrder_entered hp role
  | panicked | hostPanics => exact Role.inOrder_interrupted _ role _
  | collects => exact ⟨hp, hp⟩
  | blocks hk => exact ⟨_, hk, fun _ => hp⟩
  | receives _ _ _ ih => exact ih hp
  | finishes => trivial
  | hostBlocks hk => exact ⟨_, hk, fun hne => absurd rfl hne⟩

theorem Leads.free {G : Outcome → Store → Prop} {me : Caller} {role : Role} {p : Pending}
    {x y : Vm × Store} {c : Control} (h : Leads G me role p x y c) :
    c.coordinates = false ∧ c.pauses = false := by
  induction h with
  | @next _ _ outermost | @failed _ _ _ outermost =>
    cases outermost <;> cases role <;> exact ⟨rfl, rfl⟩
  | panicked | hostPanics => cases role <;> exact ⟨rfl, rfl⟩
  | receives _ _ _ ih => exact ih
  | _ => exact ⟨rfl, rfl⟩

namespace World

/-- The counters are the numbers of threads. -/
structure Balanced (stops : Nat) (w : World) : Prop where
  mutators : w.sync.mutators = w.count Thread.registered
  parked : w.sync.parked = w.count Thread.parked
  paused : w.sync.paused = stops + w.count Thread.pauses
  coordinators : w.count Thread.coordinates = w.sync.collecting.toNat
  /-- A collection begins without a pause. -/
  unpaused : w.sync.collecting = true → w.sync.paused = 0
  /-- A collection sweeps when everyone registered is parked. -/
  gathered : ∀ t k, w.control t = .sweeping k → w.sync.mutators ≤ w.sync.parked
  inOrder : ∀ t, (w.thread t).InOrder

/-- A newborn isolate is in order, and no counter knows it. -/
theorem Newborn.uncounted {th : Thread} {w : World} (h : Newborn th w) :
    th.registered = false ∧ th.parked = false ∧ th.pauses = false ∧ th.coordinates = false ∧
      th.InOrder := by
  obtain ⟨name, i, rfl⟩ := h.fresh
  exact ⟨rfl, rfl, rfl, rfl, rfl⟩

theorem sync_park (w : World) (t : ThreadId) : (w.park t).sync =
    { w.sync with parked := w.sync.parked + (w.thread t).registered.toNat } := by
  unfold park Thread.registered
  cases (w.thread t).storage.isSome <;> rfl

theorem sync_unpark (w : World) (t : ThreadId) : (w.unpark t).sync =
    { w.sync with parked := w.sync.parked - (w.thread t).registered.toNat } := by
  unfold unpark Thread.registered
  cases (w.thread t).storage.isSome <;> rfl

namespace Balanced

variable {stops stops' : Nat} {w w' : World} {t : ThreadId}

/-- No more than one thread coordinates a collection. -/
theorem unique (h : Balanced stops w) {u : ThreadId} (ht : (w.thread t).coordinates = true)
    (hu : (w.thread u).coordinates = true) : t = u := by
  have hlt : ∀ v, (w.thread v).coordinates = true → v < w.threads.size := by
    intro v hv
    refine lt_size_of_control fun hidle => ?_
    rw [control] at hidle
    simp [Thread.coordinates, hidle, Control.coordinates] at hv
  refine eq_of_count_le_one ?_ (hlt t ht) (hlt u hu) ht hu
  rw [h.coordinators]
  cases w.sync.collecting <;> decide

theorem collecting_of_coordinates (h : Balanced stops w) (ht : t < w.threads.size)
    (hc : (w.thread t).coordinates = true) : w.sync.collecting = true := by
  have hpos := one_le_count ht hc
  rw [h.coordinators] at hpos
  cases hcol : w.sync.collecting
  · rw [hcol] at hpos
    exact absurd hpos (by decide)
  · rfl

theorem collecting_of_sweeping (h : Balanced stops w) {k : After} (hk : w.control t = .sweeping k) :
    w.sync.collecting = true := by
  refine h.collecting_of_coordinates (t := t) (lt_size_of_control (by simp [hk])) ?_
  rw [Thread.coordinates, ← control, hk]
  rfl

/-- A thread changes by as much as the counters do. -/
theorem update (h : Balanced stops w) (ht : t < w.threads.size)
    (hothers : ∀ u, u ≠ t → u < w.threads.size → w'.thread u = w.thread u) (hborn : Bears w w')
    (hmutators : w'.sync.mutators + (w.thread t).registered.toNat =
      w.sync.mutators + (w'.thread t).registered.toNat)
    (hparked : w'.sync.parked + (w.thread t).parked.toNat =
      w.sync.parked + (w'.thread t).parked.toNat)
    (hpaused : w'.sync.paused + stops + (w.thread t).pauses.toNat =
      w.sync.paused + stops' + (w'.thread t).pauses.toNat)
    (hcollecting : w'.sync.collecting.toNat + (w.thread t).coordinates.toNat =
      w.sync.collecting.toNat + (w'.thread t).coordinates.toNat)
    (hunpaused : w'.sync.collecting = true → w'.sync.paused = 0)
    (hcalm : ∀ u k, u ≠ t → w.control u = .sweeping k →
      w'.sync.mutators ≤ w.sync.mutators ∧ w.sync.parked ≤ w'.sync.parked)
    (hself : ∀ k, w'.control t = .sweeping k → w'.sync.mutators ≤ w'.sync.parked)
    (horder : (w'.thread t).InOrder) : Balanced stops' w' := by
  have hnew : ∀ p : Thread → Bool, (∀ th, Newborn th w' → p th = false) →
      ∑ u ∈ Finset.Ico w.threads.size w'.threads.size, (p (w'.thread u)).toNat = 0 := by
    intro p hp
    refine Finset.sum_eq_zero fun u hu => ?_
    obtain ⟨hle, hlt⟩ := Finset.mem_Ico.1 hu
    rcases hborn.newborn hle with hnone | ⟨-, hnew⟩
    · rcases hborn with hsize | ⟨hsize, hnew⟩
      · omega
      · obtain rfl : u = w.threads.size := by omega
        rw [hp _ hnew]
        rfl
    · rw [hp _ hnew]
      rfl
  have hcount : ∀ p : Thread → Bool, (∀ th, Newborn th w' → p th = false) →
      w'.count p + (p (w.thread t)).toNat = w.count p + (p (w'.thread t)).toNat := fun p hp => by
    rw [count_turn ht hborn.size_le hothers, hnew p hp, Nat.add_zero]
  have hreg := hcount Thread.registered fun th hth => hth.uncounted.1
  have hpark := hcount Thread.parked fun th hth => hth.uncounted.2.1
  have hpause := hcount Thread.pauses fun th hth => hth.uncounted.2.2.1
  have hcoord := hcount Thread.coordinates fun th hth => hth.uncounted.2.2.2.1
  have hm := h.mutators
  have hp := h.parked
  have hz := h.paused
  have hc := h.coordinators
  refine ⟨by omega, by omega, by omega, by omega, hunpaused, ?_, ?_⟩
  · intro u k hu
    by_cases hut : u = t
    · subst hut
      exact hself k hu
    by_cases hlt : u < w.threads.size
    · rw [control, hothers u hut hlt] at hu
      obtain ⟨hle, hle'⟩ := hcalm u k hut hu
      exact hle.trans ((h.gathered u k hu).trans hle')
    · rw [control] at hu
      rcases hborn.newborn (Nat.not_lt.1 hlt) with hnone | ⟨-, hnew⟩
      · rw [hnone] at hu
        cases hu
      · obtain ⟨name, i, heq⟩ := hnew.fresh
        rw [heq] at hu
        cases hu
  · intro u
    by_cases hut : u = t
    · exact hut ▸ horder
    by_cases hlt : u < w.threads.size
    · rw [hothers u hut hlt]
      exact h.inOrder u
    · rcases hborn.newborn (Nat.not_lt.1 hlt) with hnone | ⟨-, hnew⟩
      · rw [hnone]
        trivial
      · exact hnew.uncounted.2.2.2.2

/-- A thread becomes another one, and the counters change by as much. -/
theorem change (h : Balanced stops w) (ht : t < w.threads.size) {th : Thread} {r : Rendezvous}
    (hbecomes : Becomes t th w w') (hsync : w'.sync = r)
    (hmutators : r.mutators + (w.thread t).registered.toNat =
      w.sync.mutators + th.registered.toNat)
    (hparked : r.parked + (w.thread t).parked.toNat = w.sync.parked + th.parked.toNat)
    (hpaused : r.paused + stops + (w.thread t).pauses.toNat =
      w.sync.paused + stops' + th.pauses.toNat)
    (hcollecting : r.collecting.toNat + (w.thread t).coordinates.toNat =
      w.sync.collecting.toNat + th.coordinates.toNat)
    (hunpaused : r.collecting = true → r.paused = 0)
    (hcalm : ∀ u k, u ≠ t → w.control u = .sweeping k →
      r.mutators ≤ w.sync.mutators ∧ w.sync.parked ≤ r.parked)
    (hself : ∀ k, th.control = .sweeping k → r.mutators ≤ r.parked) (horder : th.InOrder) :
    Balanced stops' w' := by
  obtain rfl := hsync
  obtain rfl := hbecomes.mine
  exact h.update ht (fun u hu _ => hbecomes.others u hu) (.inl hbecomes.size) hmutators hparked
    hpaused hcollecting hunpaused hcalm hself horder

/-! ### Changes of one thread -/

/-- Threads change in nothing that is counted. -/
theorem of_counted (h : Balanced stops w) (hsize : w'.threads.size = w.threads.size)
    (hsync : w'.sync = w.sync) (hcounted : ∀ t, (w'.thread t).storage = (w.thread t).storage ∧
      (w'.thread t).control = (w.thread t).control ∧ (w'.thread t).role = (w.thread t).role) :
    Balanced stops w' := by
  have hcount : ∀ p : Thread → Bool, (∀ th th' : Thread, th'.storage = th.storage →
      th'.control = th.control → p th' = p th) → w'.count p = w.count p := fun p hp =>
    count_congr hsize fun t => hp _ _ (hcounted t).1 (hcounted t).2.1
  refine ⟨?_, ?_, ?_, ?_, hsync ▸ h.unpaused, ?_, ?_⟩
  · rw [hsync, h.mutators, hcount]
    exact fun _ _ hstorage _ => congrArg Option.isSome hstorage
  · rw [hsync, h.parked, hcount]
    exact fun _ _ hstorage hcontrol => by rw [Thread.parked, Thread.parked, hstorage, hcontrol]
  · rw [hsync, h.paused, hcount]
    exact fun _ _ _ hcontrol => congrArg Control.pauses hcontrol
  · rw [hsync, ← h.coordinators, hcount]
    exact fun _ _ _ hcontrol => congrArg Control.coordinates hcontrol
  · intro t k hk
    rw [control, (hcounted t).2.1] at hk
    rw [hsync]
    exact h.gathered t k hk
  · intro t
    obtain ⟨hstorage, hcontrol, hrole⟩ := hcounted t
    rw [Thread.InOrder, Thread.registered, hstorage, hcontrol, hrole]
    exact h.inOrder t

/-- The counters are read off threads and rendezvous only. -/
theorem congr (h : Balanced stops w) (hthreads : w'.threads = w.threads)
    (hsync : w'.sync = w.sync) : Balanced stops w' := by
  refine h.of_counted (congrArg Array.size hthreads) hsync fun t => ?_
  rw [thread_congr hthreads]
  exact ⟨rfl, rfl, rfl⟩

/-- The thread becomes one that counts for as much as before. -/
theorem swap (h : Balanced stops w) (ht : t < w.threads.size) {th : Thread}
    (hbecomes : Becomes t th w w') (hsync : w'.sync = w.sync)
    (hstorage : th.storage = (w.thread t).storage)
    (hparked : th.control.parked = (w.control t).parked)
    (hcoordinates : th.control.coordinates = (w.control t).coordinates)
    (hpauses : th.control.pauses = (w.control t).pauses)
    (hself : ∀ k, th.control = .sweeping k → w.sync.mutators ≤ w.sync.parked)
    (horder : th.InOrder) : Balanced stops w' := by
  unfold control at hparked hcoordinates hpauses
  refine h.change ht hbecomes hsync ?_ ?_ ?_ ?_ h.unpaused (fun _ _ _ _ => ⟨le_rfl, le_rfl⟩) hself
    horder
  · rw [Thread.registered, Thread.registered, hstorage]
  · rw [Thread.parked, Thread.parked, hstorage, hparked]
  · rw [Thread.pauses, Thread.pauses, hpauses]
  · rw [Thread.coordinates, Thread.coordinates, hcoordinates]

/-- A thread that counts for nothing but its registration can be put aside. -/
theorem aside (h : Balanced stops w) (ht : t < w.threads.size)
    (hparked : (w.control t).parked = false) (hcoordinates : (w.control t).coordinates = false)
    (hpauses : (w.control t).pauses = false) : Balanced stops (w.setControl t .idle) :=
  h.swap ht (becomes_setControl rfl ht .idle) rfl rfl hparked.symm hcoordinates.symm hpauses.symm
    (fun _ hk => by cases hk) trivial

/-- A thread that was put aside comes back. -/
theorem back (h : Balanced stops (w.setControl t .idle)) (ht : t < w.threads.size)
    (hothers : ∀ u, u ≠ t → u < w.threads.size → w'.thread u = w.thread u) (hborn : Bears w w')
    (hmutators : w'.sync.mutators + (w.thread t).registered.toNat =
      w.sync.mutators + (w'.thread t).registered.toNat)
    (hparked : w'.sync.parked = w.sync.parked + (w'.thread t).parked.toNat)
    (hpaused : w'.sync.paused + stops = w.sync.paused + stops' + (w'.thread t).pauses.toNat)
    (hcollecting : w'.sync.collecting.toNat =
      w.sync.collecting.toNat + (w'.thread t).coordinates.toNat)
    (hunpaused : w'.sync.collecting = true → w'.sync.paused = 0)
    (hcalm : w.sync.collecting = true → w'.sync.mutators ≤ w.sync.mutators)
    (hself : (w'.control t).coordinates = true → ∃ k, w'.control t = .gathering k)
    (horder : (w'.thread t).InOrder) : Balanced stops' w' := by
  have hturned := becomes_setControl rfl ht .idle
  have hsize : t < (w.setControl t .idle).threads.size := by rwa [hturned.size]
  refine h.update hsize ?_ ?_ ?_ ?_ ?_ ?_ hunpaused ?_ ?_ horder
  · intro u hu hlt
    rw [hothers u hu (hturned.size ▸ hlt), hturned.others u hu]
  · simpa only [Bears, hturned.size] using hborn
  · rw [hturned.mine]
    exact hmutators
  · rw [hturned.mine, hparked, Thread.parked, Thread.parked]
    simp [Control.parked]
    rfl
  · rw [hturned.mine]
    exact hpaused
  · rw [hturned.mine]
    exact hcollecting
  · intro u k hu hsweeping
    exact ⟨hcalm (h.collecting_of_sweeping hsweeping), hparked ▸ Nat.le_add_right _ _⟩
  · intro k hk
    obtain ⟨k', hk'⟩ := hself (by rw [hk]; rfl)
    rw [hk] at hk'
    cases hk'

/-- A thread that was put aside comes back as another one, and the counters change by as much. -/
theorem backAs (h : Balanced stops (w.setControl t .idle)) (ht : t < w.threads.size) {th : Thread}
    {r : Rendezvous} (hbecomes : Becomes t th w w') (hsync : w'.sync = r)
    (hmutators : r.mutators + (w.thread t).registered.toNat =
      w.sync.mutators + th.registered.toNat)
    (hparked : r.parked = w.sync.parked + th.parked.toNat)
    (hpaused : r.paused + stops = w.sync.paused + stops' + th.pauses.toNat)
    (hcollecting : r.collecting.toNat = w.sync.collecting.toNat + th.coordinates.toNat)
    (hunpaused : r.collecting = true → r.paused = 0)
    (hcalm : w.sync.collecting = true → r.mutators ≤ w.sync.mutators)
    (hself : th.control.coordinates = true → ∃ k, th.control = .gathering k)
    (horder : th.InOrder) : Balanced stops' w' := by
  obtain rfl := hsync
  obtain rfl := hbecomes.mine
  exact h.back ht (fun u hu _ => hbecomes.others u hu) (.inl hbecomes.size) hmutators hparked
    hpaused hcollecting hunpaused hcalm hself horder

/-- A thread that was put aside goes where it counts for nothing but its registration. -/
theorem settle (h : Balanced stops (w.setControl t .idle)) (ht : t < w.threads.size)
    (hothers : ∀ u, u ≠ t → u < w.threads.size → w'.thread u = w.thread u) (hborn : Bears w w')
    (hsync : w'.sync = w.sync) (hstorage : (w'.thread t).storage = (w.thread t).storage)
    (hparked : (w'.control t).parked = false) (hcoordinates : (w'.control t).coordinates = false)
    (hpauses : (w'.control t).pauses = false) (horder : (w'.thread t).InOrder) :
    Balanced stops w' := by
  refine h.back ht hothers hborn ?_ ?_ ?_ ?_ ?_ ?_ ?_ horder
  · rw [hsync, Thread.registered, Thread.registered, hstorage]
  · rw [hsync, Thread.parked, ← control, hparked, Bool.and_false]
    rfl
  · rw [hsync, Thread.pauses, ← control, hpauses]
    rfl
  · rw [hsync, Thread.coordinates, ← control, hcoordinates]
    rfl
  · rw [hsync]
    exact h.unpaused
  · exact fun _ => hsync ▸ le_rfl
  · rw [hcoordinates]
    exact fun hfalse => by cases hfalse

theorem become (h : Balanced stops (w.setControl t .idle)) (ht : t < w.threads.size) {th : Thread}
    (hbecomes : Becomes t th w w') (hsync : w'.sync = w.sync)
    (hstorage : th.storage = (w.thread t).storage) (hparked : th.control.parked = false)
    (hcoordinates : th.control.coordinates = false) (hpauses : th.control.pauses = false)
    (horder : th.InOrder) : Balanced stops w' := by
  obtain rfl := hbecomes.mine
  exact h.settle ht (fun u hu _ => hbecomes.others u hu) (.inl hbecomes.size) hsync hstorage hparked
    hcoordinates hpauses horder

theorem turn (h : Balanced stops (w.setControl t .idle)) (ht : t < w.threads.size) {c : Control}
    (hparked : c.parked = false) (hcoordinates : c.coordinates = false)
    (hpauses : c.pauses = false)
    (horder : c.InOrder (w.thread t).registered (w.thread t).role) :
    Balanced stops (w.setControl t c) :=
  h.become ht (becomes_setControl rfl ht c) rfl rfl hparked hcoordinates hpauses horder

/-- A thread at work comes to rest. -/
theorem sequel {G : Outcome → Store → Prop} {p : Pending} {vm : Vm} {held : List RootId}
    (h : Balanced stops (w.setControl t .idle)) (ht : t < w.threads.size)
    (hs : Sequel G t p vm held w w') (hp : p.InOrder (w.thread t).registered) :
    Balanced stops w' := by
  obtain ⟨vm', c, hmine, hleads⟩ := hs.mine
  obtain ⟨hcoordinates, hpauses⟩ := hleads.free
  have hcontrol : w'.control t = c := by rw [control, hmine]
  have hsync := hs.sync
  rw [hcontrol] at hsync
  have horder : (w'.thread t).InOrder := by
    rw [hmine]
    exact hleads.inOrder hp
  cases hparked : c.parked with
  | false =>
    rw [hparked, if_neg Bool.false_ne_true] at hsync
    exact h.settle ht hs.others hs.born hsync (by rw [hmine]) (hcontrol ▸ hparked)
      (hcontrol ▸ hcoordinates) (hcontrol ▸ hpauses) horder
  | true =>
    rw [hparked, if_pos rfl, sync_park] at hsync
    refine h.back ht hs.others hs.born ?_ ?_ ?_ ?_ ?_ ?_ ?_ horder
    · rw [hsync, hmine]
      rfl
    · rw [hsync, hmine, Thread.parked, hparked, Bool.and_true]
      rfl
    · rw [hsync, hmine, Thread.pauses, hpauses]
      rfl
    · rw [hsync, hmine, Thread.coordinates, hcoordinates]
      rfl
    · rw [hsync]
      exact h.unpaused
    · exact fun _ => hsync ▸ le_rfl
    · rw [hcontrol, hcoordinates]
      exact fun hfalse => by cases hfalse

/-- A thread parks. -/
theorem parks (h : Balanced stops (w.setControl t .idle)) (ht : t < w.threads.size) {c : Control}
    (hbecomes : Becomes t { w.thread t with control := c } w w')
    (hsync : w'.sync = (w.park t).sync) (hparked : c.parked = true)
    (hcoordinates : c.coordinates = false) (hpauses : c.pauses = false)
    (horder : c.InOrder (w.thread t).registered (w.thread t).role) : Balanced stops w' := by
  rw [sync_park] at hsync
  refine h.backAs ht hbecomes hsync rfl ?_ ?_ ?_ h.unpaused (fun _ => le_rfl) ?_ horder
  · rw [Thread.parked, hparked, Bool.and_true]
    rfl
  · rw [Thread.pauses, hpauses]
    rfl
  · rw [Thread.coordinates, hcoordinates]
    rfl
  · rw [hcoordinates]
    exact fun hfalse => by cases hfalse

/-- A thread waits for a collection to end. -/
theorem linger (h : Balanced stops (w.setControl t .idle)) (ht : t < w.threads.size) {k : After}
    (horder : (Control.lingering k).InOrder (w.thread t).registered (w.thread t).role) :
    Balanced stops ((w.park t).setControl t (.lingering k)) :=
  h.parks ht (becomes_setControl (threads_park w t) ht _) rfl rfl rfl rfl horder

/-- A registered thread begins a collection. -/
theorem convene (h : Balanced stops (w.setControl t .idle)) (ht : t < w.threads.size) {k : After}
    (hcollecting : w.sync.collecting = false) (hpaused : w.sync.paused = 0)
    (hregistered : (w.thread t).registered = true)
    (horder : k.Rejoining (w.thread t).registered) :
    Balanced stops ((w.modifySync (·.convene)).setControl t (.gathering k)) := by
  have hbecomes : Becomes t { w.thread t with control := .gathering k } w
      ((w.modifySync (·.convene)).setControl t (.gathering k)) :=
    becomes_setControl (by rfl) ht _
  refine h.backAs ht hbecomes rfl rfl ?_ rfl ?_ (fun _ => hpaused) ?_ (fun _ => ⟨k, rfl⟩)
    ⟨hregistered, horder⟩
  · have hstorage : (w.thread t).storage.isSome = true := hregistered
    rw [Thread.parked, hstorage]
    rfl
  · rw [hcollecting]
    rfl
  · rw [hcollecting]
    exact fun hfalse => by cases hfalse

/-- A pause begins. -/
theorem pauses (h : Balanced stops (w.setControl t .idle)) (ht : t < w.threads.size)
    (hcollecting : w.sync.collecting = false) {c : Control} (hparked : c.parked = false)
    (hcoordinates : c.coordinates = false) (hstops : 1 + stops = stops' + c.pauses.toNat)
    (horder : c.InOrder (w.thread t).registered (w.thread t).role) :
    Balanced stops' ((w.modifySync (·.pause)).setControl t c) := by
  have hbecomes : Becomes t { w.thread t with control := c } w
      ((w.modifySync (·.pause)).setControl t c) :=
    becomes_setControl (by rfl) ht c
  refine h.backAs ht hbecomes (r := w.sync.pause) rfl rfl ?_ ?_ ?_ ?_ ?_ ?_ horder
  · rw [Thread.parked, hparked, Bool.and_false]
    rfl
  · show w.sync.paused + 1 + stops = w.sync.paused + stops' + c.pauses.toNat
    omega
  · rw [Thread.coordinates, hcoordinates]
    rfl
  · rw [Rendezvous.pause, hcollecting]
    exact fun hfalse => by cases hfalse
  · rw [hcollecting]
    exact fun hfalse => by cases hfalse
  · rw [hcoordinates]
    exact fun hfalse => by cases hfalse

/-- A parked thread goes on, one that is registered outside of a collection. -/
theorem unpark (h : Balanced stops w) (ht : t < w.threads.size)
    (hparked : (w.control t).parked = true) (hcoordinates : (w.control t).coordinates = false)
    (hpauses : (w.control t).pauses = false)
    (hcalm : (w.thread t).registered = true → w.sync.collecting = false) :
    Balanced stops ((w.unpark t).setControl t .idle) := by
  have hself : (w.thread t).parked = (w.thread t).registered := by
    rw [Thread.parked, ← control, hparked, Bool.and_true]
    rfl
  have hle : (w.thread t).registered.toNat ≤ w.sync.parked := by
    cases hreg : (w.thread t).registered with
    | false => exact Nat.zero_le _
    | true =>
      rw [h.parked]
      exact one_le_count ht (hself.trans hreg)
  refine h.change ht (becomes_setControl (threads_unpark w t) ht .idle) (sync_unpark w t) rfl ?_ ?_
    ?_ h.unpaused ?_ (fun _ hk => by cases hk) trivial
  · rw [hself, Thread.parked]
    simp only [Control.parked, Bool.and_false, Bool.toNat_false]
    omega
  · rw [Thread.pauses, ← control, hpauses]
    rfl
  · rw [Thread.coordinates, ← control, hcoordinates]
    rfl
  · intro u k _ hsweeping
    have hcollecting := h.collecting_of_sweeping hsweeping
    have hreg : (w.thread t).registered = false := by
      by_contra hne
      rw [hcalm (Bool.eq_true_of_not_eq_false hne)] at hcollecting
      cases hcollecting
    rw [hreg]
    exact ⟨le_rfl, le_rfl⟩

/-- A collection ends. -/
theorem dismiss (h : Balanced stops w) {k : After} (hk : w.control t = .sweeping k) :
    Balanced stops ((w.collect.modifySync (·.dismiss)).setControl t .idle) := by
  have ht : t < w.threads.size := lt_size_of_control (by simp [hk])
  have hbecomes : Becomes t { w.thread t with control := .idle } w
      ((w.collect.modifySync (·.dismiss)).setControl t .idle) :=
    becomes_setControl (by rfl) ht .idle
  have hcoordinates : (w.thread t).coordinates = true := by
    rw [Thread.coordinates, ← control, hk]
    rfl
  have hcollecting := h.collecting_of_sweeping hk
  have horder := h.inOrder t
  rw [Thread.InOrder, ← control, hk] at horder
  have hself : (w.thread t).parked = true := by
    rw [Thread.parked, ← control, hk]
    exact (Bool.and_true _).trans horder.1
  have hpos : 1 ≤ w.sync.parked := h.parked ▸ one_le_count ht hself
  refine h.change ht hbecomes (r := w.sync.dismiss) rfl rfl ?_ ?_ ?_ ?_ ?_ (fun _ hk => by cases hk)
    trivial
  · rw [hself, Thread.parked]
    show w.sync.parked - 1 + 1 = w.sync.parked + (_ && false).toNat
    rw [Bool.and_false, Nat.sub_add_cancel hpos]
    rfl
  · rw [Thread.pauses, ← control, hk]
    rfl
  · rw [hcoordinates, hcollecting]
    rfl
  · exact fun hfalse => by cases hfalse
  · intro u k' hu hsweeping
    refine absurd (h.unique ?_ hcoordinates) hu
    rw [Thread.coordinates, ← control, hsweeping]
    rfl

/-- A thread registers, outside of a collection. -/
theorem register (h : Balanced stops (w.setControl t .idle)) (ht : t < w.threads.size)
    (hregistered : (w.thread t).registered = false) (hcollecting : w.sync.collecting = false)
    {c : Control} (hparked : c.parked = false) (hcoordinates : c.coordinates = false)
    (hpauses : c.pauses = false) (horder : c.InOrder true (w.thread t).role) :
    Balanced stops ((w.register t).setControl t c) := by
  have hbecomes := (becomes_register ht).setControl ht c
  refine h.backAs ht hbecomes (r := w.sync.enroll) rfl ?_ ?_ ?_ ?_ ?_ ?_ ?_ horder
  · rw [hregistered]
    rfl
  · rw [Thread.parked, hparked, Bool.and_false]
    rfl
  · rw [Thread.pauses, hpauses]
    rfl
  · rw [Thread.coordinates, hcoordinates]
    rfl
  · rw [Rendezvous.enroll, hcollecting]
    exact fun hfalse => by cases hfalse
  · rw [hcollecting]
    exact fun hfalse => by cases hfalse
  · rw [hcoordinates]
    exact fun hfalse => by cases hfalse

/-- A registered thread gives its allocation list up. -/
theorem retire (h : Balanced stops (w.setControl t .idle)) (ht : t < w.threads.size) (w₁ : World)
    (hregistered : (w.thread t).registered = true) (hthreads : w₁.threads = w.threads)
    (hretire : w₁.sync = w.sync.retire) : Balanced stops
      ((w₁.modifyThread t fun th => { th with storage := none }).setControl t .unrooting) := by
  have hbecomes : Becomes t { w.thread t with storage := none, control := .unrooting } w
      ((w₁.modifyThread t fun th => { th with storage := none }).setControl t .unrooting) :=
    (becomes_modifyThread hthreads ht fun th => { th with storage := none }).setControl ht _
  have hpos : 1 ≤ w.sync.mutators := by
    have hidle := becomes_setControl rfl ht .idle
    rw [← show (w.setControl t .idle).sync = w.sync from rfl, h.mutators]
    refine one_le_count (hidle.size ▸ ht) ?_
    rw [hidle.mine]
    exact hregistered
  refine h.backAs ht hbecomes hretire ?_ rfl rfl rfl h.unpaused (fun _ => Nat.sub_le _ _)
    (fun hfalse => by cases hfalse) trivial
  rw [hregistered]
  exact Nat.sub_add_cancel hpos

/-- A thread leaves the collector. -/
theorem leave (h : Balanced stops (w.setControl t .idle)) (ht : t < w.threads.size) :
    Balanced stops (w.leave t) := by
  rcases w.leave_eq t with ⟨-, heq⟩ | ⟨id, g, hid, hg, heq⟩ | ⟨id, p, -, -, heq⟩ <;> rw [heq]
  · exact h.turn ht rfl rfl rfl trivial
  · obtain ⟨st, -, -, rfl⟩ := Collector.Tidy.retire_cases hg
    exact h.retire ht _ (by rw [Thread.registered, hid]; rfl) rfl rfl
  · refine h.turn ht ?_ ?_ ?_ (Role.inOrder_interrupted _ _ _) <;>
      cases (w.thread t).role <;> rfl

end Balanced

end World

end ScriptCore
