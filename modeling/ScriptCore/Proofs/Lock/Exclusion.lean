import ScriptCore.Proofs.Lock.Frame

/-!
# Locks exclude

Any number of threads take one lock and give it back, by methods of mutex objects or as tasks of the
host. Taking it is three steps of the wait for it, and giving it back is one; everything else that
threads do may come between them.

* `Contest`: a run seen from one lock, with who has taken it natively and whose calls have
  succeeded;
* `Deed`: something that happens, or a thread of the host gives a lock back;
* `Contested`: the states of all runs from one in which the lock is free;
* `Lock.Fair`: the invariant. The owner is the thread that has taken the lock natively, unless that
  thread is about to store itself;
* `Contested.fair`: it holds in all of these states;
* `Contested.owner_ne_of_acquire`: nobody waits for a lock that it owns;
* `lock_excludes`: what follows for whoever takes the lock or gives it back, which is
  `Contest.Excludes`.
-/

namespace ScriptCore

/-! ### The invariant -/

/-- Who has taken a lock natively, whose calls have succeeded, and who has taken it and is about to
store itself as the owner. -/
structure Lock.Fair (lock : Lock) (holder : Option ThreadId) (inside : List ThreadId)
    (claims : ThreadId → Prop) : Prop where
  held : lock.held = holder.isSome
  owner : ∀ t, lock.owner = some t → holder = some t
  claiming : ∀ t, claims t → holder = some t ∧ lock.owner = none
  covered : ∀ t, holder = some t → lock.owner = some t ∨ claims t
  inside : ∀ t, t ∈ inside ↔ lock.owner = some t

namespace Lock.Fair

variable {lock lock' : Lock} {holder : Option ThreadId} {inside : List ThreadId}
  {claims claims' : ThreadId → Prop} {t : ThreadId}

/-- Nobody comes to claim a free lock or stops claiming it. -/
theorem congr (h : lock.Fair holder inside claims) (hclaims : ∀ u, claims' u ↔ claims u) :
    lock.Fair holder inside claims' where
  held := h.held
  owner := h.owner
  claiming u hu := h.claiming u ((hclaims u).1 hu)
  covered u hu := (h.covered u hu).imp_right (hclaims u).2
  inside := h.inside

/-- A free lock has no holder, no owner, and nobody claims it. -/
theorem eq_none_of_not_held (h : lock.Fair holder inside claims) (hheld : lock.held = false) :
    holder = none ∧ lock.owner = none ∧ ∀ u, ¬ claims u := by
  have hholder : holder = none := by
    rw [h.held] at hheld
    simpa using hheld
  refine ⟨hholder, ?_, fun u hu => ?_⟩
  · cases howner : lock.owner with
    | none => rfl
    | some u => exact absurd (h.owner u howner) (by rw [hholder]; simp)
  · exact absurd (h.claiming u hu).1 (by rw [hholder]; simp)

/-- A thread takes a free lock and is about to claim it. -/
theorem acquire (h : lock.Fair holder inside claims) (hheld : lock.held = false)
    (hclaims : ∀ u, claims' u ↔ u = t ∨ claims u) :
    { lock with held := true }.Fair (some t) inside claims' := by
  obtain ⟨-, howner, hnone⟩ := h.eq_none_of_not_held hheld
  refine ⟨rfl, ?_, fun u hu => ?_, fun u hu => ?_, h.inside⟩
  · intro u hu
    exact absurd hu (by rw [howner]; simp)
  · rcases (hclaims u).1 hu with rfl | hu
    · exact ⟨rfl, howner⟩
    · exact absurd hu (hnone u)
  · cases hu
    exact .inr ((hclaims t).2 (.inl rfl))

/-- The thread that has taken the lock stores itself as its owner. -/
theorem claim (h : lock.Fair holder inside claims) (ht : claims t)
    (hclaims : ∀ u, claims' u ↔ claims u ∧ u ≠ t) :
    { lock with owner := some t }.Fair holder (t :: inside) claims' := by
  obtain ⟨hholder, howner⟩ := h.claiming t ht
  have honly : ∀ u, holder = some u → u = t := fun u hu => by
    rw [hholder] at hu
    exact (Option.some.inj hu).symm
  refine ⟨h.held, fun u hu => ?_, fun u hu => ?_, fun u hu => ?_, fun u => ?_⟩
  · cases hu
    exact hholder
  · obtain ⟨hu, hne⟩ := (hclaims u).1 hu
    exact absurd (honly u (h.claiming u hu).1) hne
  · rw [honly u hu]
    exact .inl rfl
  · rw [List.mem_cons, h.inside, howner]
    simp [eq_comm]

/-- The owner gives the lock back. -/
theorem release (h : lock.Fair holder inside claims) (howner : lock.owner = some t) :
    ({} : Lock).Fair none (inside.filter (some · ≠ some t)) claims := by
  have hnone : ∀ u, ¬ claims u := by
    intro u hu
    rw [(h.claiming u hu).2] at howner
    cases howner
  refine ⟨rfl, (by simp), fun u hu => absurd hu (hnone u), (by simp), fun u => ?_⟩
  refine ⟨fun hu => ?_, (by simp)⟩
  obtain ⟨hmem, hne⟩ := List.mem_filter.1 hu
  have hu : lock.owner = some u := (h.inside u).1 hmem
  rw [howner] at hu
  simp [hu] at hne

end Lock.Fair

/-! ### Runs seen from a lock -/

/-- Something that happens, or a thread of the host gives a lock back. -/
inductive Deed
  | act (a : Act)
  | unlock (t : ThreadId) (l : LockId)

/-- A run with what threads have done with one lock. -/
structure Contest extends Chronicle where
  /-- Whoever has taken the native lock and not given it back. -/
  holder : Option ThreadId := none
  /-- The threads whose call of `lock` has succeeded and that have not given it back since. -/
  inside : List ThreadId := []

/-- A wait for a lock that the host begins, begins with the look at the owner. -/
def Act.BeginsWaits : Act → Prop
  | .wait _ (.lock _ p) _ => p = .check
  | _ => True

namespace Deed

def actor? : Deed → Option ThreadId
  | .act a => a.actor?
  | .unlock t _ => some t

/-- What it does to the world. A lock that cannot be given back stays as it is. -/
def perform (c : Chronicle) : Deed → Chronicle
  | .act a => a.record c
  | .unlock t l =>
      match (c.world.store.lock l).unlock t with
      | .ok lock =>
          { c with world := { c.world with store := c.world.store.setLock l lock } }
      | .error _ => c

/-- What happens is in order, and the host has a thread give a lock back only while it rests. -/
def Allowed (c : Chronicle) : Deed → Prop
  | .act a => a.Orderly c ∧ a.BeginsWaits
  | .unlock t _ => c.world.Spare t

/-- The thread whose call of `lock` succeeds by it. -/
def locks? (l : LockId) (c : Chronicle) : Deed → Option ThreadId
  | .act (.step t) =>
      if (c.world.control t).wait? = some (.lock l .claim) then some t else none
  | _ => none

/-- Something happens. Whoever makes the lock held has taken it, and whoever makes it free has given
it back. -/
def apply (l : LockId) (k : Contest) (d : Deed) : Contest :=
  let c := d.perform k.toChronicle
  let before := (k.world.store.lock l).held
  let after := (c.world.store.lock l).held
  { c with
    holder := if after then (if before then k.holder else d.actor?) else none
    inside := match d.locks? l k.toChronicle with
      | some t => t :: k.inside
      | none => if before && !after then k.inside.filter (some · ≠ d.actor?) else k.inside }

end Deed

/-- A thread has taken a lock and is about to store itself as its owner. -/
def World.Claims (w : World) (l : LockId) (t : ThreadId) : Prop :=
  (w.control t).wait? = some (.lock l .claim)

/-- A lock that is there and free, and that nobody has begun to take. -/
structure World.Unclaimed (w : World) (l : LockId) : Prop where
  known : l < w.store.locks.size
  free : w.store.lock l = {}
  waits : ∀ t, (w.control t).Starting

/-- The states of all runs from one in which the lock is free. -/
inductive Contested (l : LockId) : Contest → Prop
  | new {c : Chronicle} : c.world.Unclaimed l → Contested l { c with }
  | deed {k : Contest} {d : Deed} : Contested l k → d.Allowed k.toChronicle →
      Contested l (d.apply l k)

/-! ### Everything that happens is fair -/

/-- No call of `lock` gets any further; locks may be given back by whoever owns them. -/
structure Deed.Calm (c : Chronicle) (d : Deed) : Prop where
  locks : (d.perform c).world.store.locks = c.world.store.locks ∨
    ∃ t, d.actor? = some t ∧ Store.Releases t c.world.store (d.perform c).world.store
  waits : ∀ l p u, p ≠ .check → (((d.perform c).world.control u).wait? = some (.lock l p) ↔
    (c.world.control u).wait? = some (.lock l p))
  locks? : ∀ l, d.locks? l c = none

theorem Deed.Calm.claims {c : Chronicle} {d : Deed} (h : d.Calm c) (l : LockId) (u : ThreadId) :
    (d.perform c).world.Claims l u ↔ c.world.Claims l u :=
  h.waits l .claim u (by simp)

/-- What others do does not bring a thread to a phase of its wait for a lock. -/
theorem Act.waits_iff {c : Chronicle} {a : Act} {u : ThreadId} (ha : a.Orderly c)
    (hactor : a.actor? ≠ some u) (l : LockId) (p : LockPhase) :
    ((a.record c).world.control u).wait? = some (.lock l p) ↔
      (c.world.control u).wait? = some (.lock l p) := by
  rw [wait?_of_actor? ha hactor]

/-- What a thread does outside of a wait for a lock, or the host does to it. -/
theorem Act.calm {c : Chronicle} {a : Act} {t : ThreadId} (ha : a.Orderly c)
    (hbegins : a.BeginsWaits) (hactor : a.actor? = some t)
    (hstep : a = .step t → ∀ m p, (c.world.control t).wait? ≠ some (.lock m p)) :
    (Deed.act a).Calm c := by
  have hreleases := Act.releases ha hactor hstep (by
    rintro m p parked rfl
    exact hbegins)
  refine ⟨.inr ⟨t, hactor, hreleases.store⟩, fun l p u hp => ?_, fun l => ?_⟩
  · by_cases hu : u = t
    · subst hu
      refine iff_of_false (fun hc => hp (hreleases.control l p hc)) fun hc => ?_
      by_cases heq : a = .step u
      · exact hstep heq _ _ hc
      · rcases World.control_of_atRest (Act.spare_of_actor ha hactor heq).rests with
          hrest | ⟨o, hrest⟩ | hrest <;> rw [hrest] at hc <;> cases hc
    · exact waits_iff ha (fun heq => hu (Option.some.inj (heq.symm.trans hactor))) l p
  · cases a with
    | step u =>
      cases hactor
      simp [Deed.locks?, hstep rfl]
    | _ => rfl

/-- A thread makes a step of its wait for a lock, or no call of `lock` gets any further. -/
theorem Deed.Allowed.turns {c : Chronicle} {d : Deed} (hd : d.Allowed c) :
    (∃ t, d.actor? = some t ∧ ∃ m p, d = .act (.step t) ∧
      (c.world.control t).wait? = some (.lock m p)) ∨ d.Calm c := by
  cases d with
  | unlock t m =>
    refine .inr ⟨.inr ⟨t, rfl, ?_⟩, fun l p u hp => ?_, fun l => rfl⟩
    · simp only [Deed.perform]
      split
      · exact Store.releases_unlock ‹_›
      · exact .refl _ _
    · simp only [Deed.perform]
      split <;> rfl
  | act a =>
    obtain ⟨ha, hbegins⟩ := hd
    cases hactor : a.actor? with
    | none =>
      refine .inr ⟨.inl (Act.locks_of_actor? hactor _), fun l p u hp => ?_, fun l => ?_⟩
      · exact Act.waits_iff ha (by rw [hactor]; simp) l p
      · cases a <;> first | rfl | cases hactor
    | some t =>
      by_cases hlock : a = .step t ∧ ∃ m p, (c.world.control t).wait? = some (.lock m p)
      · obtain ⟨rfl, m, p, hwait⟩ := hlock
        exact .inl ⟨t, rfl, m, p, rfl, hwait⟩
      · exact .inr (Act.calm ha hbegins hactor fun heq m p hwait => hlock ⟨heq, m, p, hwait⟩)

/-- The lock is there, and the invariant holds. -/
structure Contest.Fair (l : LockId) (k : Contest) : Prop where
  known : l < k.world.store.locks.size
  lock : (k.world.store.lock l).Fair k.holder k.inside (k.world.Claims l)

namespace Contest.Fair

variable {l : LockId} {k : Contest} {d : Deed} {t : ThreadId}

/-- Nothing happens to the lock, and nobody comes to claim it. -/
theorem of_lock_eq (h : k.Fair l)
    (hsize : k.world.store.locks.size ≤ (d.perform k.toChronicle).world.store.locks.size)
    (hlock : (d.perform k.toChronicle).world.store.lock l = k.world.store.lock l)
    (hclaims : ∀ u, (d.perform k.toChronicle).world.Claims l u ↔ k.world.Claims l u)
    (hlocks : d.locks? l k.toChronicle = none) : (d.apply l k).Fair l := by
  refine ⟨h.known.trans_le hsize, ?_⟩
  have hholder : (d.apply l k).holder = k.holder := by
    simp only [Deed.apply, hlock]
    cases hheld : (k.world.store.lock l).held with
    | true => rfl
    | false => exact (h.lock.eq_none_of_not_held hheld).1.symm
  have hinside : (d.apply l k).inside = k.inside := by
    simp [Deed.apply, hlocks, hlock]
  rw [hholder, hinside]
  show ((d.perform k.toChronicle).world.store.lock l).Fair _ _
    ((d.perform k.toChronicle).world.Claims l)
  rw [hlock]
  exact h.lock.congr hclaims

/-- A thread may have given the lock back. -/
theorem of_releases (h : k.Fair l) (hactor : d.actor? = some t)
    (hs : Store.Releases t k.world.store (d.perform k.toChronicle).world.store)
    (hclaims : ∀ u, (d.perform k.toChronicle).world.Claims l u ↔ k.world.Claims l u)
    (hlocks : d.locks? l k.toChronicle = none) : (d.apply l k).Fair l := by
  rcases hs.lock l with hlock | ⟨howner, hlock⟩
  · exact h.of_lock_eq hs.size hlock hclaims hlocks
  · have hheld : (k.world.store.lock l).held = true := by
      rw [h.lock.held, h.lock.owner t howner]
      rfl
    have hholder : (d.apply l k).holder = none := by simp [Deed.apply, hlock]
    have hinside : (d.apply l k).inside = k.inside.filter (some · ≠ some t) := by
      simp [Deed.apply, hlocks, hlock, hheld, hactor]
    refine ⟨h.known.trans_le hs.size, ?_⟩
    rw [hholder, hinside]
    show ((d.perform k.toChronicle).world.store.lock l).Fair _ _
      ((d.perform k.toChronicle).world.Claims l)
    rw [hlock]
    exact (h.lock.release howner).congr hclaims

/-- The lock after a step of a wait for it. -/
theorem lock_step (h : k.Fair l) {p : LockPhase}
    (hwait : (k.world.control t).wait? = some (.lock l p)) :
    (k.world.step t).store.lock l = ((k.world.store.lock l).advance t p).1 := by
  rw [Store.lock_congr (World.lock_step hwait), World.lock_passWait, if_pos ⟨rfl, h.known⟩]

/-- A step of a wait for this lock: where the thread stands afterwards decides whether it claims the
lock, and nobody else comes to claim it. -/
theorem of_advance (h : k.Fair l) {p : LockPhase} (ha : (Act.step t).Orderly k.toChronicle)
    (hwait : (k.world.control t).wait? = some (.lock l p)) {inside : List ThreadId}
    (hinside : ((Deed.act (.step t)).apply l k).inside = inside)
    (hfair : ∀ claims : ThreadId → Prop,
      (claims t ↔ ((k.world.store.lock l).advance t p).2 = .next .claim) →
      (∀ u, u ≠ t → (claims u ↔ k.world.Claims l u)) →
      ((k.world.store.lock l).advance t p).1.Fair ((Deed.act (.step t)).apply l k).holder inside
        claims) :
    ((Deed.act (.step t)).apply l k).Fair l := by
  obtain ⟨hnext, hover⟩ := World.control_lock_step hwait
  refine ⟨h.known.trans_le (World.size_lock_step hwait).ge, ?_⟩
  rw [hinside]
  show ((k.world.step t).store.lock l).Fair _ _ ((k.world.step t).Claims l)
  rw [h.lock_step hwait]
  refine hfair _ ?_ fun u hu => ?_
  · cases hadvance : ((k.world.store.lock l).advance t p).2 with
    | next p' => simp [World.Claims, hnext p' hadvance]
    | taken | refused =>
      refine iff_of_false (fun hclaims => ?_) (by simp)
      have hphase := hover (by rw [hadvance]; simp) l .claim hclaims
      cases hphase
  · exact Act.waits_iff ha (fun heq => hu (Option.some.inj heq).symm) l .claim

/-- The holder after a step of a wait for this lock. -/
theorem holder_step (h : k.Fair l) {p : LockPhase}
    (hwait : (k.world.control t).wait? = some (.lock l p)) :
    ((Deed.act (.step t)).apply l k).holder =
      if ((k.world.store.lock l).advance t p).1.held then
        (if (k.world.store.lock l).held then k.holder else some t)
      else none := by
  rw [← h.lock_step hwait]
  rfl

/-- The look at the owner changes nothing, whatever it finds. -/
theorem check (h : k.Fair l) (ha : (Act.step t).Orderly k.toChronicle)
    (hwait : (k.world.control t).wait? = some (.lock l .check)) :
    ((Deed.act (.step t)).apply l k).Fair l := by
  have hsame : ((k.world.store.lock l).advance t .check).1 = k.world.store.lock l := by
    simp only [Lock.advance]
    split <;> rfl
  have hholder : ((Deed.act (.step t)).apply l k).holder = k.holder := by
    rw [h.holder_step hwait, hsame]
    cases hheld : (k.world.store.lock l).held with
    | true => rfl
    | false => exact (h.lock.eq_none_of_not_held hheld).1.symm
  have hinside : ((Deed.act (.step t)).apply l k).inside = k.inside := by
    have hlock : (k.world.step t).store.lock l = k.world.store.lock l :=
      (h.lock_step hwait).trans hsame
    have hperform : ((Deed.act (.step t)).perform k.toChronicle).world = k.world.step t := rfl
    simp [Deed.apply, Deed.locks?, hwait, hperform, hlock]
  refine h.of_advance ha hwait hinside fun claims hmine hothers => ?_
  rw [hsame, hholder]
  refine h.lock.congr fun u => ?_
  by_cases hu : u = t
  · subst hu
    refine iff_of_false (fun hclaims => ?_) fun hclaims => ?_
    · have hnext := hmine.1 hclaims
      simp only [Lock.advance] at hnext
      split at hnext <;> cases hnext
    · rw [World.Claims, hwait] at hclaims
      cases hclaims
  · exact hothers u hu

/-- A thread takes the lock, which is free. -/
theorem acquire (h : k.Fair l) (ha : (Act.step t).Orderly k.toChronicle)
    (hwait : (k.world.control t).wait? = some (.lock l .acquire)) :
    ((Deed.act (.step t)).apply l k).Fair l := by
  have hready : k.world.ready t = true := ha
  have hfree : (k.world.store.lock l).held = false := by
    simp only [World.ready] at hready
    cases hc : k.world.control t with
    | blocked wait after | waiting wait after =>
      rw [hc] at hwait hready
      cases hwait
      simpa [World.passable, Lock.canAdvance] using hready
    | _ => rw [hc] at hwait; cases hwait
  have hholder : ((Deed.act (.step t)).apply l k).holder = some t := by
    rw [h.holder_step hwait]
    simp [Lock.advance, hfree]
  have hinside : ((Deed.act (.step t)).apply l k).inside = k.inside := by
    simp [Deed.apply, Deed.locks?, hwait, hfree]
  refine h.of_advance ha hwait hinside fun claims hmine hothers => ?_
  rw [hholder]
  refine h.lock.acquire hfree fun u => ?_
  by_cases hu : u = t
  · subst hu
    exact iff_of_true (hmine.2 rfl) (.inl rfl)
  · rw [hothers u hu]
    simp [hu]

/-- The thread that has taken the lock becomes its owner. -/
theorem claim (h : k.Fair l) (ha : (Act.step t).Orderly k.toChronicle)
    (hwait : (k.world.control t).wait? = some (.lock l .claim)) :
    ((Deed.act (.step t)).apply l k).Fair l := by
  have hclaims : k.world.Claims l t := hwait
  have hheld : (k.world.store.lock l).held = true := by
    rw [h.lock.held, (h.lock.claiming t hclaims).1]
    rfl
  have hholder : ((Deed.act (.step t)).apply l k).holder = k.holder := by
    rw [h.holder_step hwait]
    simp [Lock.advance, hheld]
  have hinside : ((Deed.act (.step t)).apply l k).inside = t :: k.inside := by
    simp [Deed.apply, Deed.locks?, hwait]
  refine h.of_advance ha hwait hinside fun claims hmine hothers => ?_
  rw [hholder]
  refine h.lock.claim hclaims fun u => ?_
  by_cases hu : u = t
  · subst hu
    exact iff_of_false (fun hc => by cases hmine.1 hc) fun hc => hc.2 rfl
  · rw [hothers u hu]
    simp [hu]

/-- A step of a wait for another lock. -/
theorem elsewhere (h : k.Fair l) (ha : (Act.step t).Orderly k.toChronicle) {m : LockId}
    {p : LockPhase} (hwait : (k.world.control t).wait? = some (.lock m p)) (hm : m ≠ l) :
    ((Deed.act (.step t)).apply l k).Fair l := by
  obtain ⟨hnext, hover⟩ := World.control_lock_step hwait
  have hlock : (k.world.step t).store.lock l = k.world.store.lock l := by
    rw [Store.lock_congr (World.lock_step hwait), World.lock_passWait, if_neg fun heq => hm heq.1]
  refine h.of_lock_eq (World.size_lock_step hwait).ge hlock (fun u => ?_)
    (by simp [Deed.locks?, hwait, hm])
  show (k.world.step t).Claims l u ↔ _
  by_cases hu : u = t
  · subst hu
    refine iff_of_false (fun hc => ?_) fun hc => ?_
    · cases hadvance : ((k.world.store.lock m).advance u p).2 with
      | next p' =>
        rw [World.Claims, hnext p' hadvance] at hc
        cases hc
        exact hm rfl
      | taken | refused =>
        have hphase := hover (by rw [hadvance]; simp) l .claim hc
        cases hphase
    · rw [World.Claims, hwait] at hc
      cases hc
      exact hm rfl
  · exact Act.waits_iff ha (fun heq => hu (Option.some.inj heq).symm) l .claim

/-- A thread makes a step of its wait for a lock. -/
theorem lockStep (h : k.Fair l) (ha : (Act.step t).Orderly k.toChronicle) {m : LockId}
    {p : LockPhase} (hwait : (k.world.control t).wait? = some (.lock m p)) :
    ((Deed.act (.step t)).apply l k).Fair l := by
  by_cases hm : m = l
  · subst hm
    cases p with
    | check => exact h.check ha hwait
    | acquire => exact h.acquire ha hwait
    | claim => exact h.claim ha hwait
  · exact h.elsewhere ha hwait hm

/-- Whatever happens keeps the invariant. -/
theorem deed (h : k.Fair l) (hd : d.Allowed k.toChronicle) : (d.apply l k).Fair l := by
  rcases hd.turns with ⟨t, hactor, m, p, rfl, hwait⟩ | hcalm
  · exact h.lockStep hd.1 hwait
  · rcases hcalm.locks with hlocks | ⟨t, hactor, hreleases⟩
    · exact h.of_lock_eq (congrArg Array.size hlocks).ge (Store.lock_congr hlocks l)
        (hcalm.claims l) (hcalm.locks? l)
    · exact h.of_releases hactor hreleases (hcalm.claims l) (hcalm.locks? l)

end Contest.Fair

/-- In every state of a contest the invariant holds. -/
theorem Contested.fair {l : LockId} {k : Contest} (h : Contested l k) : k.Fair l := by
  induction h with
  | @new c hc =>
    refine ⟨hc.known, ?_⟩
    show (c.world.store.lock l).Fair none [] (c.world.Claims l)
    rw [hc.free]
    refine ⟨rfl, (by simp), fun t ht => ?_, (by simp), fun t => by simp⟩
    have hphase := hc.waits t l .claim ht
    cases hphase
  | deed _ hd ih => exact ih.deed hd

/-- A step of a wait for a lock leaves another lock's owner and stores nobody but the thread. -/
theorem World.owner_lock_step {w : World} {t : ThreadId} {l m : LockId} {p : LockPhase}
    (hwait : (w.control t).wait? = some (.lock m p)) :
    ((w.step t).store.lock l).owner = (w.store.lock l).owner ∨
      p = .claim ∧ ((w.step t).store.lock l).owner = some t := by
  rw [Store.lock_congr (World.lock_step hwait), World.lock_passWait]
  split
  · cases p with
    | check =>
      simp only [Lock.advance]
      split <;> exact .inl rfl
    | acquire => exact .inl rfl
    | claim => exact .inr ⟨rfl, rfl⟩
  · exact .inl rfl

/-- Nobody waits for a lock that it owns: the owner is refused before it begins to wait. -/
theorem Contested.owner_ne_of_acquire {l : LockId} {k : Contest} (h : Contested l k) {t : ThreadId}
    (hwait : (k.world.control t).wait? = some (.lock l .acquire)) :
    (k.world.store.lock l).owner ≠ some t := by
  induction h with
  | new hc => cases hc.waits t l .acquire hwait
  | @deed k d _ hd ih =>
    rcases hd.turns with ⟨u, -, m, p, rfl, hu⟩ | hcalm
    · have hwait : ((k.world.step u).control t).wait? = some (.lock l .acquire) := hwait
      show ((k.world.step u).store.lock l).owner ≠ some t
      by_cases hut : t = u
      · -- its own last step was the look at the owner
        subst hut
        obtain ⟨hnext, hover⟩ := World.control_lock_step hu
        cases hadvance : ((k.world.store.lock m).advance t p).2 with
        | next p' =>
          have hp' := (hnext p' hadvance).symm.trans hwait
          cases hp'
          cases p with
          | check =>
            rcases World.owner_lock_step (l := l) hu with heq | ⟨hp, -⟩
            · intro howner
              rw [heq] at howner
              simp [Lock.advance, howner] at hadvance
            · cases hp
          | acquire | claim => cases hadvance
        | taken | refused =>
          cases hover (by rw [hadvance]; simp) l .acquire hwait
      · have hbefore : (k.world.control t).wait? = some (.lock l .acquire) :=
          (Act.waits_iff hd.1 (fun heq => hut (Option.some.inj heq).symm) l .acquire).1 hwait
        rcases World.owner_lock_step (l := l) hu with heq | ⟨-, heq⟩ <;> rw [heq]
        · exact ih hbefore
        · exact fun heq => hut (Option.some.inj heq).symm
    · have hbefore := ih ((hcalm.waits l .acquire t (by simp)).1 hwait)
      show ((d.perform k.toChronicle).world.store.lock l).owner ≠ some t
      rcases hcalm.locks with hlocks | ⟨u, -, hreleases⟩
      · rw [Store.lock_congr hlocks l]
        exact hbefore
      · rcases hreleases.lock l with heq | ⟨-, heq⟩ <;> rw [heq]
        · exact hbefore
        · simp

/-! ### What threads can rely on -/

/-- Whoever holds a lock and does not claim it has stored itself as its owner. -/
theorem Contest.Fair.owner_of_holder {l : LockId} {k : Contest} {t : ThreadId} (h : k.Fair l)
    (ht : k.holder = some t) (hclaims : ¬ k.world.Claims l t) :
    (k.world.store.lock l).owner = some t :=
  (h.lock.covered t ht).resolve_right hclaims

/-- A lock becomes free by what its owner does. -/
theorem Deed.Allowed.owner_of_freed {l : LockId} {k : Contest} {d : Deed}
    (hd : d.Allowed k.toChronicle) (hheld : (k.world.store.lock l).held = true)
    (hfreed : ((d.apply l k).world.store.lock l).held = false) :
    ∃ t, d.actor? = some t ∧ (k.world.store.lock l).owner = some t := by
  have hchanged : (d.perform k.toChronicle).world.store.lock l ≠ k.world.store.lock l := by
    intro heq
    have hsame : ((d.apply l k).world.store.lock l).held = true := by
      rw [← hheld]
      exact congrArg Lock.held heq
    rw [hsame] at hfreed
    cases hfreed
  rcases hd.turns with ⟨t, -, m, p, rfl, hwait⟩ | hcalm
  · -- a step of a call of `lock` frees no lock
    have hlock : (k.world.step t).store.lock l = if m = l ∧ l < k.world.store.locks.size then
        ((k.world.store.lock l).advance t p).1 else k.world.store.lock l := by
      rw [Store.lock_congr (World.lock_step hwait), World.lock_passWait]
    have hfreed : ((k.world.step t).store.lock l).held = false := hfreed
    rw [hlock] at hfreed
    split at hfreed
    · cases p with
      | check =>
        simp only [Lock.advance] at hfreed
        split at hfreed <;> simp [hheld] at hfreed
      | acquire | claim => simp [Lock.advance, hheld] at hfreed
    · rw [hheld] at hfreed
      cases hfreed
  · rcases hcalm.locks with hlocks | ⟨t, hactor, hreleases⟩
    · exact absurd (Store.lock_congr hlocks l) hchanged
    · rcases hreleases.lock l with heq | ⟨howner, -⟩
      · exact absurd heq hchanged
      · exact ⟨t, hactor, howner⟩

/-- The owner is refused at once, and nothing else happens. -/
theorem World.passWait_refused {w : World} {l : LockId} {t : ThreadId}
    (howner : (w.store.lock l).owner = some t) :
    w.passWait t (.lock l .check) = (w, .inr (.failed .lockedByThisThread)) := by
  have hadvance : (w.store.lock l).advance t .check = (w.store.lock l, .refused) :=
    Lock.advance_eq_refused_iff.2 ⟨rfl, howner, rfl⟩
  simp only [World.passWait, hadvance, World.modifyStore, Store.setLock_lock]

/-- What a lock promises to the threads that use it. -/
structure Contest.Excludes (l : LockId) (k : Contest) : Prop where
  /-- At most one thread is between a call of `lock` that has succeeded and giving the lock back. -/
  alone : ∀ t u, t ∈ k.inside → u ∈ k.inside → t = u
  /-- The owner has taken the native lock, and is that thread. -/
  owner : ∀ t, (k.world.store.lock l).owner = some t →
    k.holder = some t ∧ (k.world.store.lock l).held = true ∧ t ∈ k.inside
  /-- Whatever makes the lock free is done by the thread that has taken it. -/
  freed : ∀ d : Deed, d.Allowed k.toChronicle → (k.world.store.lock l).held = true →
    ((d.apply l k).world.store.lock l).held = false →
    ∃ t, d.actor? = some t ∧ k.holder = some t ∧ t ∈ k.inside
  /-- Nobody waits for itself. -/
  never : ∀ t, (k.world.control t).wait? = some (.lock l .acquire) → k.holder ≠ some t
  /-- Whoever has taken the lock and calls `lock` is refused in its first step, which it can make at
  once and which changes neither lock nor owner. -/
  again : ∀ t after, k.holder = some t →
    (k.world.control t = .blocked (.lock l .check) after → k.world.ready t = true ∧
      k.world.step t = k.world.setControl t (.leaving (.failed .lockedByThisThread) after)) ∧
    (k.world.control t = .waiting (.lock l .check) after → k.world.ready t = true ∧
      k.world.step t = k.world.continueWith t after (.failed .lockedByThisThread) ∧
      (k.world.step t).store.locks = k.world.store.locks)
  /-- Whoever is inside can give the lock back. -/
  unlock : ∀ t ∈ k.inside, (k.world.store.lock l).unlock t = .ok {}
  /-- Whoever has not taken the lock cannot give it back, by any handle or as a task of the host,
  and nothing changes by trying. -/
  refused : ∀ t, k.holder ≠ some t →
    (Deed.unlock t l).perform k.toChronicle = k.toChronicle ∧
    (k.world.store.lock l).unlock t = .error .notLockedByThisThread ∧
    ∀ me : Caller, me.thread = t → ∀ receiver,
      k.world.store.heap.object? receiver = some (.mutex l) →
      Method.call .mutexUnlock me receiver #[] k.world.store =
        (k.world.store, .failed .notLockedByThisThread)

namespace Contest.Fair

variable {l : LockId} {k : Contest} {t : ThreadId}

/-- Whoever has taken a lock and begins to take it again is refused. -/
theorem refused_again (h : k.Fair l) (ht : k.holder = some t) (after : After) :
    (k.world.control t = .blocked (.lock l .check) after → k.world.ready t = true ∧
      k.world.step t = k.world.setControl t (.leaving (.failed .lockedByThisThread) after)) ∧
    (k.world.control t = .waiting (.lock l .check) after → k.world.ready t = true ∧
      k.world.step t = k.world.continueWith t after (.failed .lockedByThisThread) ∧
      (k.world.step t).store.locks = k.world.store.locks) := by
  have hrefused : ∀ c, k.world.control t = c → c.wait? = some (.lock l .check) →
      k.world.passWait t (.lock l .check) = (k.world, .inr (.failed .lockedByThisThread)) := by
    rintro c rfl hwait
    refine World.passWait_refused (h.owner_of_holder ht fun hclaims => ?_)
    rw [World.Claims, hwait] at hclaims
    cases hclaims
  refine ⟨fun hc => ⟨?_, ?_⟩, fun hc => ⟨?_, ?_, ?_⟩⟩
  · simp [World.ready, hc, World.passable, Lock.canAdvance]
  · have hcontrol : (k.world.thread t).control = _ := hc
    simp only [World.step, hcontrol, hrefused _ hc rfl]
  · simp [World.ready, hc, World.passable, Lock.canAdvance]
  · have hcontrol : (k.world.thread t).control = _ := hc
    simp only [World.step, hcontrol, hrefused _ hc rfl]
  · have hlocks := World.lock_step (t := t) (by rw [hc]; rfl)
    rw [hlocks, hrefused _ hc rfl]

/-- Whoever has not taken a lock cannot give it back. -/
theorem unlock_eq_error (h : k.Fair l) (ht : k.holder ≠ some t) :
    (k.world.store.lock l).unlock t = .error .notLockedByThisThread :=
  if_neg fun howner => ht (h.lock.owner t howner)

/-- In every fair state the lock keeps its promises, if nobody waits for itself. -/
theorem excludes (h : k.Fair l)
    (hnever : ∀ t, (k.world.control t).wait? = some (.lock l .acquire) →
      (k.world.store.lock l).owner ≠ some t) : k.Excludes l where
  alone t u ht hu := by
    have howner := (h.lock.inside t).1 ht
    rw [(h.lock.inside u).1 hu] at howner
    exact (Option.some.inj howner).symm
  owner t ht := by
    have hholder := h.lock.owner t ht
    exact ⟨hholder, by rw [h.lock.held, hholder]; rfl, (h.lock.inside t).2 ht⟩
  freed d hd hheld hfreed := by
    obtain ⟨t, hactor, howner⟩ := hd.owner_of_freed hheld hfreed
    exact ⟨t, hactor, h.lock.owner t howner, (h.lock.inside t).2 howner⟩
  never t hwait ht := by
    refine hnever t hwait (h.owner_of_holder ht fun hclaims => ?_)
    rw [World.Claims, hwait] at hclaims
    cases hclaims
  again t after ht := h.refused_again ht after
  unlock t ht := if_pos ((h.lock.inside t).1 ht)
  refused t ht := by
    have hunlock := h.unlock_eq_error ht
    refine ⟨by simp only [Deed.perform, hunlock], hunlock, ?_⟩
    rintro me rfl receiver hreceiver
    have harity : Method.mutexUnlock.arity.check Method.mutexUnlock.name 0 = .ok () := rfl
    simp only [Method.call, Array.size_empty, harity, Method.run, hreceiver, hunlock]

end Contest.Fair

/-- Any number of threads take one lock and give it back, by any of its handles, with anything else
happening in between: in every state the lock keeps its promises, and refusals are errors about the
state. -/
theorem lock_excludes (l : LockId) (k : Contest) (h : Contested l k) :
    k.Excludes l ∧ Cause.lockedByThisThread.failure.kind = .state ∧
      Cause.notLockedByThisThread.failure.kind = .state :=
  ⟨h.fair.excludes fun _ => h.owner_ne_of_acquire, rfl, rfl⟩

/-! ### Two threads and a lock -/

/-- Deeds one after the other, each of them allowed. -/
def Deed.AllAllowed (l : LockId) (k : Contest) : List Deed → Prop
  | [] => True
  | d :: rest => d.Allowed k.toChronicle ∧ AllAllowed l (d.apply l k) rest

theorem Contested.deeds {l : LockId} {k : Contest} (h : Contested l k) {ds : List Deed}
    (hds : Deed.AllAllowed l k ds) : Contested l (ds.foldl (Deed.apply l) k) := by
  induction ds generalizing k with
  | nil => exact h
  | cons d ds ih => exact ih (h.deed hds.1) hds.2

/-- A machine with one lock and no threads. -/
def Contest.locked : Contest := { world := { store := Store.standard.newLock.1 } }

theorem contested_locked : Contested 0 .locked :=
  .new (c := { world := { store := Store.standard.newLock.1 } })
    ⟨by decide, rfl, fun _ => Control.starting_of_wait? rfl⟩

/-- One thread takes the lock, another one waits for it, and the first begins to take it again. -/
def Contest.crowded : Contest :=
  [.act .spawn, .act .spawn, .act (.wait 0 (.lock 0 .check) true), .act (.step 0),
    .act (.step 0), .act (.step 0), .act (.step 0), .act (.wait 1 (.lock 0 .check) true),
    .act (.step 1), .act (.wait 0 (.lock 0 .check) true)].foldl (Deed.apply 0) .locked

theorem contested_crowded : Contested 0 .crowded :=
  contested_locked.deeds ⟨⟨trivial, trivial⟩, ⟨trivial, trivial⟩, ⟨⟨by decide, rfl, rfl⟩, rfl⟩,
    ⟨rfl, trivial⟩, ⟨rfl, trivial⟩, ⟨rfl, trivial⟩, ⟨rfl, trivial⟩,
    ⟨⟨by decide, rfl, rfl⟩, rfl⟩, ⟨rfl, trivial⟩, ⟨⟨by decide, rfl, rfl⟩, rfl⟩, trivial⟩

/-- The first thread is inside and is refused, and the other one, which waits, cannot give the lock
back. -/
theorem lock_excludes_crowded :
    let k := Contest.crowded
    k.inside = [0] ∧ (k.world.store.lock 0).owner = some 0 ∧
      (k.world.control 1).wait? = some (.lock 0 .acquire) ∧ k.world.ready 1 = false ∧
      k.world.step 0 =
        k.world.setControl 0 (.leaving (.failed .lockedByThisThread) (.reply .host)) ∧
      (k.world.store.lock 0).unlock 1 = .error .notLockedByThisThread := by
  intro k
  have hinside : k.inside = [0] := by decide
  have hholder : k.holder = some 0 := by decide
  have howner : (k.world.store.lock 0).owner = some 0 := by decide
  have hwait : (k.world.control 1).wait? = some (.lock 0 .acquire) := by decide
  have hready : k.world.ready 1 = false := by decide
  have hcontrol : k.world.control 0 = .blocked (.lock 0 .check) (.reply .host) := by rfl
  obtain ⟨hexcludes, -⟩ := lock_excludes 0 k contested_crowded
  refine ⟨hinside, howner, hwait, hready, ((hexcludes.again 0 _ hholder).1 hcontrol).2, ?_⟩
  exact (hexcludes.refused 1 (by rw [hholder]; simp)).2.1

end ScriptCore
