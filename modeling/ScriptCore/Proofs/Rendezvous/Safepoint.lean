import ScriptCore.Proofs.Rendezvous.StopTheWorld

/-!
# Safepoints during a collection

A thread polls a safepoint before each instruction, and the host may ask it to. What it looks at is
the request for a collection, which the coordinator has taken back when it begins to wait for the
others.

* `Polls`: an act brings a thread to a safepoint;
* `World.Detained`: a thread is at the safepoint, parked or about to park, and its machine rests;
* `safepoint_during_collection`: a thread stays at the safepoint until the collection has ended if
  there is a new request, and goes on at once if there is none;
* `not_detained_unrequested`: a thread that goes on while a collection waits for it.
-/

namespace ScriptCore

/-- An act brings a thread to a safepoint. Afterwards it goes on with its instruction or with what
the host told it to do. -/
inductive Polls (w : World) (t : ThreadId) : Act → After → Prop
  | instruction : w.control t = .running → (w.thread t).vm.frames ≠ [] →
      Polls w t (.step t) .instruction
  | task : w.Spare t → Polls w t (.assign t .safepoint) (.reply .host)

/-- A registered thread is at a safepoint, parked or about to park; its machine is `vm`. -/
structure World.Detained (t : ThreadId) (k : After) (vm : Vm) (w : World) : Prop where
  registered : (w.thread t).registered = true
  machine : (w.thread t).vm = vm
  control : w.control t = .rendezvous false k ∨ w.control t = .lingering k

namespace World.Detained

variable {t : ThreadId} {k : After} {vm : Vm} {w : World}

theorem known (h : Detained t k vm w) : t < w.threads.size := lt_size_of_storage h.registered

/-- A parked thread stays where it is as long as the collection is under way. -/
theorem ready (h : Detained t k vm w) (hcollecting : w.collecting = true)
    (hready : w.ready t = true) : w.control t = .rendezvous false k := by
  refine h.control.resolve_right fun hc => ?_
  rw [World.ready, hc, hcollecting] at hready
  cases hready

/-- During a collection the next step of the thread parks it. -/
theorem step (h : Detained t k vm w) (hcollecting : w.collecting = true)
    (hready : w.ready t = true) :
    Detained t k vm (w.step t) ∧ ((w.step t).thread t).parked = true := by
  have hbecomes := becomes_setControl (threads_park w t) h.known (.lingering k)
  have hstep : w.step t = (w.park t).setControl t (.lingering k) := by
    unfold World.step
    simp only [show (w.thread t).control = _ from h.ready hcollecting hready]
    exact if_pos hcollecting
  rw [hstep]
  refine ⟨⟨?_, ?_, .inr hbecomes.control⟩, ?_⟩
  · rw [hbecomes.mine]
    exact h.registered
  · rw [hbecomes.mine]
    exact h.machine
  · rw [hbecomes.mine]
    exact (Bool.and_true _).trans h.registered

/-- Whatever happens during a collection, the thread stays at its safepoint. -/
theorem act {c : Chronicle} {a : Act} (h : Detained t k vm c.world) (ha : a.Orderly c)
    (hcollecting : c.world.collecting = true) : Detained t k vm (a.record c).world := by
  by_cases hactor : a.actor? = some t
  · by_cases hstep : a = .step t
    · subst hstep
      exact (h.step hcollecting ha).1
    -- the host has no task for it
    · have hrest := control_of_atRest (Act.spare_of_actor ha hactor hstep).rests
      rcases h.control with hc | hc <;> rw [hc] at hrest <;> simp at hrest
  · obtain ⟨n, hthread⟩ := Act.bystander ha hactor h.known
    refine ⟨?_, ?_, ?_⟩
    · rw [hthread]
      exact h.registered
    · rw [hthread]
      exact h.machine
    · rw [World.control, hthread]
      exact h.control

theorem during {c c' : Chronicle} (h : Detained t k vm c.world)
    (hcollecting : c.world.collecting = true) (hduring : During Act.Orderly c c') :
    Detained t k vm c'.world ∧ c'.world.collecting = true := by
  induction hduring with
  | refl => exact ⟨h, hcollecting⟩
  | tail _ hstep ih =>
    obtain ⟨a, ha, rfl, hafter⟩ := hstep
    exact ⟨ih.1.act ha ih.2, hafter⟩

end World.Detained

/-- What a thread does that a safepoint does not hold up. -/
def World.unhindered (w : World) (t : ThreadId) : After → World
  | .instruction => w.execute t
  | _ => w.setControl t (.finished .done)

/-- A safepoint holds a thread up if a collection is requested. -/
theorem Polls.world_eq {c : Chronicle} {t : ThreadId} {a : Act} {k : After}
    (h : Polls c.world t a k) : (a.record c).world =
      if c.world.store.collector.requested then c.world.setControl t (.rendezvous false k)
      else c.world.unhindered t k := by
  cases h with
  | instruction hrunning hframes =>
    show c.world.step t = _
    unfold World.step
    simp only [show (c.world.thread t).control = _ from hrunning]
    exact if_neg (by simpa using hframes)
  | task => rfl

theorem Polls.detained {c : Chronicle} {t : ThreadId} {a : Act} {k : After}
    (h : Polls c.world t a k) (hregistered : (c.world.thread t).registered = true)
    (hrequested : c.world.store.collector.requested = true) :
    World.Detained t k (c.world.thread t).vm (a.record c).world := by
  have ht : t < c.world.threads.size := World.lt_size_of_storage hregistered
  have hbecomes := World.becomes_setControl (w := c.world) rfl ht (.rendezvous false k)
  rw [h.world_eq, if_pos hrequested]
  refine ⟨?_, ?_, .inl hbecomes.control⟩
  · rw [hbecomes.mine]
    exact hregistered
  · rw [hbecomes.mine]

/-- **A safepoint during a collection.** If a collection has been requested anew, a registered
thread that polls a safepoint while one is under way stays there until it has ended: its machine
rests, its next step parks it, and nothing is swept before. If there is no request, the thread goes
on at once. -/
theorem safepoint_during_collection (c : Chronicle) (h : Run Act.Orderly c)
    (hcollecting : c.world.collecting = true) (t : ThreadId) (a : Act) (k : After)
    (ha : a.Orderly c) (hpoll : Polls c.world t a k)
    (hregistered : (c.world.thread t).registered = true) :
    if c.world.store.collector.requested then
      ∀ c', During Act.Orderly (a.record c) c' →
        c'.world.Detained t k (c.world.thread t).vm ∧
        (c'.world.ready t = true → ((c'.world.step t).thread t).parked = true) ∧
        ∀ u k', c'.world.control u = .sweeping k' → (c'.world.thread t).parked = true
    else (a.record c).world = c.world.unhindered t k := by
  split
  · rename_i hrequested
    intro c' hduring
    have hdetained := hpoll.detained hregistered hrequested
    have hbegun : (a.record c).world.collecting = true := by
      rw [hpoll.world_eq, if_pos hrequested]
      exact hcollecting
    obtain ⟨hheld, hlasting⟩ := hdetained.during hbegun hduring
    refine ⟨hheld, fun hready => (hheld.step hlasting hready).2, fun u k' hsweeping => ?_⟩
    exact ((hduring.run (h.act ha)).balanced.stopped hsweeping).parked t hheld.registered
  · rename_i hrequested
    rw [hpoll.world_eq, if_neg hrequested]

/-! ### A thread that goes on -/

/-- A thread is about to interpret a call of a function that does not allocate, while another one
waits for it with a collection. -/
def Chronicle.polling : Chronicle :=
  [.spawn, .spawn, .assign 0 .enroll, .step 0, .assign 1 .enroll, .step 1, .assign 1 .equip,
    .step 1, .make 1 (.function ⟨"busy", 0, #[.int 1], #[.const 0, .pop, .const 0, .ret]⟩),
    .assign 1 (.call (.ref 11) #[]), .assign 1 .run, .assign 0 (.request .collect), .step 0].foldl
      Act.record .standard

theorem run_polling : Run Act.Orderly .polling :=
  (Run.standard _).acts ⟨trivial, trivial, ⟨⟨by decide, rfl, rfl⟩, trivial⟩, rfl,
    ⟨⟨by decide, rfl, rfl⟩, trivial⟩, rfl, ⟨⟨by decide, rfl, rfl⟩, rfl⟩, rfl, trivial,
    ⟨⟨by decide, rfl, rfl⟩, rfl⟩, ⟨⟨by decide, rfl, rfl⟩, rfl⟩, ⟨⟨by decide, rfl, rfl⟩, rfl⟩, rfl,
    trivial⟩

theorem polls_polling : Polls Chronicle.polling.world 1 (.step 1) .instruction :=
  .instruction rfl (by decide +kernel)

/-- With a new request the thread stays where it is. -/
theorem safepoint_during_collection_requested :
    let c := Act.record .polling (.setLimit 1)
    c.world.collecting = true ∧ c.world.store.collector.requested = true ∧
      (Act.record c (.step 1)).world.Detained 1 .instruction (c.world.thread 1).vm := by
  have hrequested :
      (Act.record .polling (.setLimit 1)).world.store.collector.requested = true := by
    decide +kernel
  have hpolls : Polls (Act.record .polling (.setLimit 1)).world 1 (.step 1) .instruction :=
    .instruction (by decide +kernel) (by decide +kernel)
  have hdetained := safepoint_during_collection (Act.record .polling (.setLimit 1))
    (run_polling.act trivial) (by decide +kernel) 1 (.step 1) .instruction
    (show World.ready _ 1 = true by decide +kernel) hpolls (by decide +kernel)
  rw [if_pos hrequested] at hdetained
  exact ⟨by decide +kernel, hrequested, (hdetained _ .refl).1⟩

/-- A collection is under way, and a registered thread that is not parked polls a safepoint; the
safepoint does not hold it up. -/
theorem not_detained_unrequested : ¬ ∀ (c : Chronicle) (t : ThreadId) (a : Act) (k : After),
    Run Act.Orderly c → a.Orderly c → c.world.collecting = true →
    (c.world.thread t).registered = true → (c.world.thread t).parked = false →
    Polls c.world t a k → (a.record c).world.Detained t k (c.world.thread t).vm := by
  intro h
  have hdetained := h .polling 1 (.step 1) .instruction run_polling rfl rfl rfl rfl polls_polling
  have hrunning : (Act.record .polling (.step 1)).world.control 1 = .running := by decide +kernel
  rcases hdetained.control with hc | hc <;> rw [hrunning] at hc <;> cases hc

end ScriptCore
