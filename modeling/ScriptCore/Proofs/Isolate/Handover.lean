import ScriptCore.Proofs.Isolate.Outcome
import ScriptCore.Proofs.World.Keeping

/-!
# What goes to an isolate and comes back

Function and arguments go from the thread that asks for an isolate to the isolate, and the outcome
comes back by way of a future.  Whatever else lets go of them, and whoever collects meanwhile, none
of it is lost on the way.

* `Isolate.cargo`: the future, the function and the arguments;
* `Run.carries`: until the isolate lets go of them they lie in its transfer root;
* `Isolate.Publishing`: the stores that publishing goes through keep what the call came to;
* `Isolate.Delivered`: what is found in the future afterwards;
* `handovers_keep`: all of it, for every isolate in every state of every run.

The outcome is on no root between leaving the stack and being found in the future.  This is what the
pause is for: no collection is under way then and none can begin.
-/

namespace ScriptCore

open World

/-- The future, the function and the arguments of an isolate. -/
def Isolate.cargo (i : Isolate) : List Value := .ref i.future :: i.function :: i.args.toList

variable {c : Chronicle} {t : ThreadId} {i : Isolate}

/-! ### On the way to the isolate -/

/-- A new isolate finds everything in its transfer root. -/
theorem World.Newborn.carries {own : Ledger} {w : World} (h : Newborn (w.thread t) w)
    (hsound : w.Sound own none) (hrole : (w.thread t).role = .isolate i) :
    ∃ vs, (i.transfer, .pinned vs) ∈ w.store.collector.roots ∧ ∀ v ∈ i.cargo, v ∈ vs := by
  obtain ⟨name, j, hfresh⟩ := h.fresh
  have hstands := hsound.stands t (by simp)
  rw [show (w.thread t).control = .enrolling by rw [hfresh]] at hstands
  obtain ⟨vs, hvs, hfunction, hargs⟩ := hstands i hrole
  obtain ⟨vs', hvs', hfuture⟩ := h.transfer i hrole
  -- a name is registered once
  have heq := List.inj_on_of_nodup_map hsound.drawn.nodup hvs hvs' rfl
  cases heq
  refine ⟨vs, hvs, fun v hv => ?_⟩
  rcases List.mem_cons.1 hv with rfl | hv
  · exact hfuture
  rcases List.mem_cons.1 hv with rfl | hv
  · exact hfunction
  · exact hargs v (Array.mem_toList_iff.1 hv)

/-- An isolate lets go of what it carries for good. -/
theorem Run.unreleased (h : Run Act.Proper c) {a : Act} (ha : a.Proper c)
    (hrole : (c.world.thread t).role = .isolate i)
    (hreleased : ((a.record c).world.control t).released = false) :
    (c.world.control t).released = false := by
  have ht := Accounted.lt_size_of_role hrole
  by_cases hactor : a.actor? = some t
  · have hrole' := (h.role_record ha ht).trans hrole
    have hmem : i.transfer ∈ ((a.record c).world.thread t).carried := by
      rw [World.control] at hreleased
      simp [Thread.carried, hrole', hreleased]
    have hbefore := (h.accounted.tally h.hosted h.inOrder ha.1 hactor).carried _ hmem
    cases hcontrol : (c.world.control t).released with
    | false => rfl
    | true =>
      rw [World.control] at hcontrol
      simp [Thread.carried, hrole, hcontrol] at hbefore
  · obtain ⟨n, hn⟩ := Act.bystander ha.1 hactor ht
    rwa [World.control, hn] at hreleased

/-- Until an isolate lets go of them, future, function and arguments lie in its transfer root. -/
theorem Run.carries (h : Run Act.Proper c) (hrole : (c.world.thread t).role = .isolate i)
    (hreleased : (c.world.control t).released = false) :
    ∃ vs, (i.transfer, .pinned vs) ∈ c.world.store.collector.roots ∧ ∀ v ∈ i.cargo, v ∈ vs := by
  induction h with
  | new =>
    rw [thread_of_size_le (Nat.zero_le t)] at hrole
    cases hrole
  | @act c a hrun ha ih =>
    by_cases ht : t < c.world.threads.size
    · have hbefore := (hrun.role_record ha ht).symm.trans hrole
      obtain ⟨vs, hvs, hcargo⟩ := ih hbefore (hrun.unreleased ha hbefore hreleased)
      exact ⟨vs, hrun.transfer_kept ha hbefore hreleased hvs, hcargo⟩
    · rcases Act.newcomer ha.1 (Nat.not_lt.1 ht) with ⟨control, hnew, -⟩ | hnew
      · rw [hnew] at hrole
        cases hrole
      · obtain ⟨own, hsound, -⟩ := (hrun.act ha).hosted
        exact hnew.carries hsound hrole

/-! ### On the way back -/

/-- Publishing, step by step.  The payload is live when it has left the stack or an error has been
made of a panic, payload and result are live when the result has been made, and then they are found
in the future, unless it had a value before. -/
structure Isolate.Publishing (i : Isolate) (t : ThreadId) (w : World) (e : Ending) : Prop where
  unstacked : (w.verdict t e).1.heap.Holds (w.verdict t e).2.2.2
  tagged : (w.tagged t e).1.heap.object? (w.tagged t e).2 =
      some (.result (w.verdict t e).2.2.1 (w.verdict t e).2.2.2) ∧
    (w.tagged t e).1.heap.Holds (w.verdict t e).2.2.2
  stored : ∃ slot, w.store.heap.object? i.future = some (.future slot) ∧
    (w.step t).store.heap.object? i.future =
      some (.future (some (slot.getD (.ref (w.tagged t e).2)))) ∧
    (w.step t).store.heap.object? (w.tagged t e).2 =
      some (.result (w.verdict t e).2.2.1 (w.verdict t e).2.2.2) ∧
    (w.step t).store.heap.Holds (w.verdict t e).2.2.2

/-- What an isolate has published is found in its future: the value that was there before, or else
the result of what its call came to. -/
def Isolate.Delivered (i : Isolate) (t : ThreadId) (past : List (Hosted × Act)) (h : Heap) : Prop :=
  ∃ pub e slot, publications t past = [pub] ∧ pub.world.control t = .publishing e ∧
    pub.world.store.heap.object? i.future = some (.future slot) ∧
    h.object? i.future = some (.future (some (slot.getD (.ref (pub.world.tagged t e).2)))) ∧
    (slot = none → h.object? (pub.world.tagged t e).2 =
        some (.result (pub.world.verdict t e).2.2.1 (pub.world.verdict t e).2.2.2) ∧
      h.Holds (pub.world.verdict t e).2.2.2)

namespace World

variable {own : Ledger} {w : World}

/-- What the call of an isolate came to is live when it leaves the stack. -/
theorem Sound.holds_verdict (h : w.Sound own none) (hroot : (w.thread t).root.isSome) (e : Ending) :
    (w.verdict t e).1.heap.Holds (w.verdict t e).2.2.2 := by
  cases e with
  | returned =>
    show w.store.heap.Holds ((w.thread t).vm.peek?.getD .nil)
    cases hpeek : (w.thread t).vm.peek? with
    | none => exact Heap.holds_nil _
    | some v => exact (h.holds_stack hroot).peek? hpeek
  | panicked p => exact Heap.holds_ref.2 (Heap.live_alloc w.store.heap _)

/-- The step that publishes. -/
theorem store_step_of_publishing (hrole : (w.thread t).role = .isolate i) {e : Ending}
    (hc : w.control t = .publishing e) : (w.step t).store = w.published t i e := by
  have hstep : w.step t = w.publish t i e := by
    unfold World.step
    simp only [show (w.thread t).control = _ from hc, hrole]
  rw [hstep, publish_eq]
  rfl

theorem Sound.publishing (h : w.Sound own none) (hrole : (w.thread t).role = .isolate i)
    {e : Ending} (hc : w.control t = .publishing e) {slot : Option Value}
    (hslot : w.store.heap.object? i.future = some (.future slot)) : i.Publishing t w e := by
  have hstands := h.stands t (by simp)
  rw [show (w.thread t).control = _ from hc] at hstands
  have hpayload := h.holds_verdict hstands.2 e
  have hmade : (w.verdict t e).1.heap.Evolves (w.tagged t e).1.heap := Heap.evolves_alloc _ _
  have hstored : (w.tagged t e).1.heap.Evolves (w.published t i e).heap :=
    Store.evolves_resolve _ _ _
  refine ⟨hpayload, ⟨Store.object?_make _ _ _, hmade.holds hpayload⟩, slot, hslot, ?_⟩
  rw [store_step_of_publishing hrole hc]
  exact ⟨object?_published_future w t i e hslot, object?_published_result w t i e,
    hstored.holds (hmade.holds hpayload)⟩

end World

/-- What has been published stays in the future as long as the future is live. -/
theorem Run.delivered (h : Run Act.Proper c) (hrole : (c.world.thread t).role = .isolate i)
    (hreported : (c.world.control t).reported = true) (hlive : c.world.store.heap.Live i.future) :
    i.Delivered t c.past c.world.store.heap := by
  rcases (h.stage hrole).reported_or with ⟨-, hyes, -⟩ | ⟨hno, -⟩
  · obtain ⟨own, hsound, -⟩ := h.hosted
    obtain ⟨pub, e, hpub, hrole', hc, -, hlasts⟩ := hyes
    have hmem := mem_past_of_publications (hpub ▸ List.mem_singleton_self _)
    obtain ⟨past, hrun, -⟩ := h.of_past hmem
    obtain ⟨slot, hslot⟩ := hrun.exists_future hrole' (by rw [hc]; rfl)
    have hfuture := hlasts.settled (Object.settled_future _)
      (object?_published_future pub.world t i e hslot) hlive
    refine ⟨pub, e, slot, hpub, hc, hslot, hfuture, fun hnone => ?_⟩
    -- the future leads to the result, and the result to the payload
    subst hnone
    have hresult := hlasts.settled (Object.settled_result _ _)
      (object?_published_result pub.world t i e)
      (Heap.holds_ref.1 (hsound.closed _ _ hfuture _ (by simp [Object.edges])))
    exact ⟨hresult, hsound.closed _ _ hresult _ (by simp [Object.edges])⟩
  · rw [hreported] at hno
    cases hno

/-! ### Both ways -/

/-- What is kept of what goes to an isolate and of what comes back. -/
structure Isolate.Handover (i : Isolate) (t : ThreadId) (c : Chronicle) : Prop where
  /-- An isolate that has not published has let go of nothing. -/
  unpublished : (c.world.control t).reported = false → (c.world.control t).released = false
  /-- Until it lets go of them, future, function and arguments. -/
  carried : (c.world.control t).released = false → c.Keeps i.cargo
  /-- When the call has ended, what it has left on the stack. -/
  ended : ∀ e, (c.world.control t).ending? = some e → c.Keeps (c.world.thread t).vm.stack.toList
  /-- Everything there is, as long as the isolate pauses collections. -/
  paused : (c.world.thread t).pauses = true → c.world.collecting = false ∧
    ∀ c', c.Pausing t c' → c.world.store.heap.Evolves c'.world.store.heap
  /-- What its call came to, until it is in the future. -/
  publishing : ∀ e, c.world.control t = .publishing e →
    (c.world.thread t).pauses = true ∧ i.Publishing t c.world e
  /-- Then everything that the future leads to, as long as a root leads to the future. -/
  delivered : (c.world.control t).reported = true → c.world.Rooted i.future →
    c.Keeps [.ref i.future] ∧ i.Delivered t c.past c.world.store.heap

theorem Control.unreleased_of_not_reported {ctrl : Control} (h : ctrl.reported = false) :
    ctrl.released = false := by
  cases ctrl with
  | lingering k => cases k <;> trivial
  | _ => trivial

/-- Whoever is about to publish has a machine whose stack is a root. -/
theorem Control.equipped_of_ending? {own : Ledger} {g : Collector} {th : Thread} {ctrl : Control}
    (h : ctrl.Stands own g t th) {e : Ending} (he : ctrl.ending? = some e) : th.Equipped := by
  unfold Control.ending? at he
  split at he
  · exact h
  · exact h rfl
  · exact h
  · cases he

theorem Run.handover (h : Run Act.Proper c) (hrole : (c.world.thread t).role = .isolate i) :
    i.Handover t c where
  unpublished := Control.unreleased_of_not_reported
  carried hreleased := by
    obtain ⟨vs, hvs, hcargo⟩ := h.carries hrole hreleased
    exact h.keeps_held hvs fun v hv => Array.mem_toList_iff.2 (hcargo v hv)
  ended e he := by
    obtain ⟨own, hsound, -⟩ := h.hosted
    have hequipped := Control.equipped_of_ending? (hsound.stands t (by simp)) he
    exact h.keeps_stack hequipped.2 fun v hv => Array.mem_toList_iff.1 hv
  paused hpauses := ⟨h.not_collecting hpauses, fun c' => h.evolves_of_pausing⟩
  publishing e hc := by
    obtain ⟨own, hsound, -⟩ := h.hosted
    obtain ⟨slot, hslot⟩ := h.exists_future hrole (by rw [hc]; rfl)
    refine ⟨?_, hsound.publishing hrole hc hslot⟩
    rw [Thread.pauses, show (c.world.thread t).control = _ from hc]
    rfl
  delivered hreported hrooted := by
    obtain ⟨own, hsound, -⟩ := h.hosted
    refine ⟨h.keeps fun d hd => ?_, h.delivered hrole hreported (hsound.live_of_rooted hrooted)⟩
    cases List.mem_singleton.1 hd
    exact hrooted

/-- **Nothing is lost on the way to an isolate and back.**  Future, function and arguments of an
isolate and everything they lead to are live until it has published, whoever else lets go of them
and whoever collects; what its call came to, the error made of a panic and the result are live from
the moment they leave its stack until they are in the future; and from then on everything that the
future leads to is live as long as a root leads to the future.  The isolate a start hands over a
future of is one with the function and the arguments of the start. -/
theorem handovers_keep (c : Chronicle) (h : Run Act.Proper c) :
    (∀ t i, (c.world.thread t).role = .isolate i → i.Handover t c) ∧
    ∀ before u o function args k, (before, .step u) ∈ c.past →
      before.world.control u = .leaving o (.start function args k) →
      Launched before.world (before.world.step u) u function args k
        (c.world.thread before.world.threads.size).role :=
  ⟨fun _ _ => h.handover, fun _ _ _ _ _ _ => h.launched⟩

/-! ### A collection between start and answer -/

/-- A host thread is about to start an isolate that gives its argument back. -/
def Chronicle.entrusting : Chronicle :=
  [.spawn, .assign 0 .enroll, .step 0, .make 0 (.function ⟨"same", 1, #[], #[.arg 0, .ret]⟩),
    .make 0 (.str "word"), .make 0 (.str "lost"),
    .assign 0 (.request (.start (.ref 11) #[.ref 12])), .step 0].foldl Act.record .standard

theorem run_entrusting : Run Act.Proper .entrusting :=
  (Run.standard _).acts ⟨⟨trivial, trivial⟩, ⟨⟨⟨by decide, rfl, rfl⟩, trivial⟩, rfl, trivial⟩,
    ⟨rfl, trivial⟩, ⟨trivial, rfl, by simp [Object.edges]⟩, ⟨trivial, rfl, by simp [Object.edges]⟩,
    ⟨trivial, rfl, by simp [Object.edges]⟩,
    ⟨⟨⟨by decide, rfl, rfl⟩, trivial⟩, rfl, rfl, Heap.holds_ref.2 rfl,
      by simp only [Array.mem_singleton, forall_eq]; exact Heap.holds_ref.2 rfl⟩, ⟨rfl, trivial⟩,
    trivial⟩

/-- It starts the isolate, keeps neither function, argument nor future, and collects before the
isolate has made a step. -/
def Chronicle.collected : Chronicle :=
  [.step 0, .assign 0 (.request .collect), .step 0, .step 0, .step 0].foldl Act.record .entrusting

/-- The isolate makes its call and is about to publish. -/
def Chronicle.returning : Chronicle := (List.replicate 7 (.step 1)).foldl Act.record .collected

/-- The world after the start. -/
def World.entrusted : World :=
  ((Chronicle.entrusting.world.unpark 0).bearing 0 (.ref 11) #[.ref 12]
    (Chronicle.entrusting.world.store.isolates.threadName 0)).deliver 0 .host (.value (.ref 14))

theorem step_entrusting : Chronicle.entrusting.world.step 0 = .entrusted := by
  let w := Chronicle.entrusting.world.unpark 0
  have hlaunch : Chronicle.entrusting.world.step 0 = w.launch 0 (.ref 11) #[.ref 12] .host := by
    rfl
  have hname : (Chronicle.entrusting.world.store.isolates.threadName 0).toList.contains
      (Char.ofNat 0) = false := by decide +kernel
  rw [hlaunch]
  exact launch_granted (w := w) hname rfl 0 (.ref 11) #[.ref 12] .host

/-- The world in which the isolate is about to publish. -/
def World.returned : World :=
  (List.replicate 7 1).foldl World.step
    ((((World.entrusted.assign 0 (.request .collect)).step 0).step 0).step 0)

theorem world_collected : Chronicle.collected.world =
    ((((World.entrusted.assign 0 (.request .collect)).step 0).step 0).step 0) := by
  rw [← step_entrusting]
  rfl

/-- The world after some steps of one thread. -/
theorem world_steps (c : Chronicle) (t : ThreadId) (n : Nat) :
    ((List.replicate n (.step t)).foldl Act.record c).world =
      (List.replicate n t).foldl World.step c.world := by
  induction n generalizing c with
  | zero => rfl
  | succ n ih => exact ih (Act.record c (.step t))

theorem world_returning : Chronicle.returning.world = .returned := by
  rw [Chronicle.returning, world_steps, world_collected, World.returned]

theorem run_collected : Run Act.Proper .collected := by
  refine run_entrusting.acts ⟨⟨rfl, Heap.holds_ref.2 rfl, by
      simp only [Array.mem_singleton, forall_eq]
      exact Heap.holds_ref.2 rfl⟩, ⟨⟨⟨?_, ?_, ?_⟩, ?_⟩, ?_, trivial⟩,
    Act.proper_step ?_ ?_, Act.proper_step ?_ ?_, Act.proper_step ?_ ?_, trivial⟩
  all_goals
    simp only [Act.record, Act.apply, Task.Orderly, step_entrusting]
    decide +kernel

theorem run_returning : Run Act.Proper .returning := by
  refine run_collected.steps (t := 1) (i := ⟨0, .ref 11, #[.ref 12], 14, 3⟩) ?_ ?_ <;>
    rw [world_collected] <;> decide +kernel

/-- The collection has freed the text that nobody holds, and nothing that the isolate has been
given.  The argument comes back in the future. -/
theorem handovers_keep_returning :
    let c := Chronicle.returning
    c.world.store.collector.collections = 1 ∧ c.world.store.heap.object? 13 = none ∧
      c.Keeps [.ref 14, .ref 11, .ref 12] ∧ c.world.collecting = false ∧
      (c.world.step 1).store.heap.object? 14 = some (.future (some (.ref 15))) ∧
      (c.world.step 1).store.heap.object? 15 = some (.result false (.ref 12)) ∧
      (c.world.step 1).store.heap.Live 12 := by
  intro c
  have hworld : c.world = .returned := world_returning
  have hstate : ((c.world.thread 1).role, c.world.control 1, c.world.store.heap.object? 14,
      (c.world.tagged 1 .returned).2, (c.world.verdict 1 .returned).2.2.1,
      (c.world.verdict 1 .returned).2.2.2) = (.isolate ⟨0, .ref 11, #[.ref 12], 14, 3⟩,
        .publishing .returned, some (.future none), 15, false, .ref 12) := by
    rw [hworld]
    decide +kernel
  simp only [Prod.mk.injEq] at hstate
  obtain ⟨hrole, hcontrol, hempty, hcell, hflag, hpayload⟩ := hstate
  obtain ⟨hkept, -⟩ := handovers_keep c run_returning
  have hhandover := hkept 1 _ hrole
  obtain ⟨hpauses, -, -, slot, hslot, hfuture, hstored, hlive⟩ := hhandover.publishing _ hcontrol
  rw [hempty] at hslot
  cases hslot
  rw [hcell, hflag, hpayload] at hstored
  rw [hcell] at hfuture
  rw [hpayload] at hlive
  refine ⟨?_, ?_, hhandover.carried (by rw [hcontrol]; rfl), (hhandover.paused hpauses).1, hfuture,
    hstored, Heap.holds_ref.1 hlive⟩ <;> rw [hworld] <;> decide +kernel

end ScriptCore
