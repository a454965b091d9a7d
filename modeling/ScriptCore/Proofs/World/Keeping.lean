import ScriptCore.Proofs.World.Accounts

/-!
# What a run keeps

A collection may come with any step of a thread that coordinates one, so what a thread needs later
has to be reached from a root all the time, or no collection may be possible.

* `Chronicle.Keeps`: nothing that some values reach has been freed, and whatever happens next frees
  none of it;
* `Run.keeps`: that holds of values which the roots reach, so of rooted stacks and pinned values;
* `Chronicle.Pausing`: the run goes on while a thread is in a pause of its own;
* `Run.evolves_of_pausing`: meanwhile nothing is freed at all, reached or not.
-/

namespace ScriptCore

open World

namespace Heap

variable {h : Heap} {vs starts : List Value}

/-- What is reached from values that are reached is reached. -/
theorem Reaches.through {d : CellId} (hd : h.Reaches vs d)
    (hvs : ∀ c, .ref c ∈ vs → h.Reaches starts c) : h.Reaches starts d := by
  induction hd with
  | start hc => exact hvs _ hc
  | step _ hp ih => exact .step ih hp

end Heap

/-- Nothing that some values reach has been freed, and whatever happens next frees none of it. -/
structure Chronicle.Keeps (c : Chronicle) (vs : List Value) : Prop where
  live : ∀ d, c.world.store.heap.Reaches vs d → c.world.store.heap.Live d
  next : ∀ a : Act, a.Proper c → ∀ d, c.world.store.heap.Reaches vs d →
    (a.record c).world.store.heap.Live d

theorem Chronicle.Keeps.holds {c : Chronicle} {vs : List Value} (h : c.Keeps vs) {v : Value}
    (hv : v ∈ vs) : c.world.store.heap.Holds v := by
  rintro d rfl
  exact h.live d (.start hv)

/-- What the roots and the immortal cells reach. -/
def World.Rooted (w : World) (d : CellId) : Prop :=
  w.store.heap.Reaches (w.store.collector.starts w.rootValues) d

theorem World.rooted_of_held {w : World} {id : RootId} {holder : Holder}
    (hroot : (id, holder) ∈ w.store.collector.roots) {d : CellId} (hd : .ref d ∈ w.heldBy holder) :
    w.Rooted d :=
  .start (List.mem_append_left _ (mem_rootValues.2 ⟨id, holder, hroot, hd⟩))

/-- Values found by the name of a root lie in a root. -/
theorem World.rooted_of_pinned {w : World} {id : RootId} {d : CellId}
    (hd : .ref d ∈ w.store.collector.pinned id) : w.Rooted d := by
  unfold Collector.pinned at hd
  split at hd
  · rename_i r vs hfind
    exact rooted_of_held (List.mem_of_find?_eq_some hfind) (Array.mem_toList_iff.2 hd)
  · simp at hd

namespace World.Sound

variable {own : Ledger} {away : Option ThreadId} {w : World} {t : ThreadId} {d : CellId}

theorem live_of_rooted (h : w.Sound own away) (hd : w.Rooted d) : w.store.heap.Live d :=
  h.closed.live_of_reaches (h.tidy.holds_starts h.closed h.holds_rootValues) hd

/-- A step that sweeps keeps what the roots reach. -/
theorem live_sweep (h : w.Sound own away) {k : After} (hk : w.control t = .sweeping k)
    (hd : w.Rooted d) : (w.step t).store.heap.Live d := by
  have ht : t < w.threads.size := lt_size_of_control (by simp [hk])
  let w₁ := w.collect.modifySync (·.dismiss)
  have hstep : w.step t = w₁.continueWith t k (.value (.bool true)) := by
    unfold World.step
    simp only [show (w.thread t).control = _ from hk, w₁]
  have hkept := h.tidy.object?_collect_of_reaches h.closed h.holds_rootValues hd
  have hlive : w₁.store.heap.Live d := by
    obtain ⟨o, ho⟩ := Heap.live_iff_object?.1 (h.live_of_rooted hd)
    exact Heap.live_iff_object?.2 ⟨o, hkept.trans ho⟩
  have ht₁ : t < w₁.threads.size := ht
  rw [hstep]
  exact (Minds.continueWith ht₁ k (.value (.bool true))).evolves.live hlive

end World.Sound

/-- Whatever happens, what the roots reach is not freed by it. -/
theorem Act.live_of_rooted {c : Chronicle} {a : Act} {own : Ledger}
    (hsound : c.world.Sound own none) (ha : a.Orderly c) {d : CellId} (hd : c.world.Rooted d) :
    (a.record c).world.store.heap.Live d := by
  by_cases hsweep : ∃ t k, a = .step t ∧ c.world.control t = .sweeping k
  · obtain ⟨t, k, rfl, hk⟩ := hsweep
    exact hsound.live_sweep hk hd
  · have hevolves := evolves ha fun t k hstep hk => hsweep ⟨t, k, hstep, hk⟩
    exact hevolves.live (hsound.live_of_rooted hd)

namespace Run

variable {c : Chronicle} (h : Run Act.Proper c)

include h

/-- A run keeps what the roots reach. -/
theorem keeps {vs : List Value} (hvs : ∀ d, .ref d ∈ vs → c.world.Rooted d) : c.Keeps vs := by
  obtain ⟨own, hsound, -⟩ := h.hosted
  have hrooted : ∀ d, c.world.store.heap.Reaches vs d → c.world.Rooted d :=
    fun d hd => hd.through hvs
  exact ⟨fun d hd => hsound.live_of_rooted (hrooted d hd),
    fun a ha d hd => Act.live_of_rooted hsound ha.1 (hrooted d hd)⟩

/-- Values that a root holds are kept with everything they reach. -/
theorem keeps_held {id : RootId} {holder : Holder}
    (hroot : (id, holder) ∈ c.world.store.collector.roots) {vs : List Value}
    (hvs : ∀ v ∈ vs, v ∈ c.world.heldBy holder) : c.Keeps vs :=
  h.keeps fun _ hd => rooted_of_held hroot (hvs _ hd)

/-- So are those on a rooted stack. -/
theorem keeps_stack {t : ThreadId} (hroot : (c.world.thread t).root.isSome) {vs : List Value}
    (hvs : ∀ v ∈ vs, v ∈ (c.world.thread t).vm.stack) : c.Keeps vs := by
  obtain ⟨own, hsound, -⟩ := h.hosted
  obtain ⟨r, hr⟩ := Option.isSome_iff_exists.1 hroot
  exact h.keeps_held (hsound.root t r hr).1 fun v hv => Array.mem_toList_iff.2 (hvs v hv)

end Run

/-! ### Pauses -/

/-- The run goes on, and before everything that happens thread `t` is in a pause of its own. -/
def Chronicle.Pausing (t : ThreadId) : Chronicle → Chronicle → Prop :=
  Relation.ReflTransGen fun c c' =>
    ∃ a : Act, a.Proper c ∧ c' = a.record c ∧ (c.world.thread t).pauses = true

namespace Run

variable {c c' : Chronicle} {t : ThreadId}

/-- In a pause of a thread no collection is under way. -/
theorem not_collecting (h : Run Act.Proper c) (ht : (c.world.thread t).pauses = true) :
    c.world.collecting = false := by
  have hbalanced := (h.mono fun _ _ ha => ha.1).balanced
  have hknown : t < c.world.threads.size := by
    refine lt_size_of_control fun hidle => ?_
    rw [Thread.pauses, show (c.world.thread t).control = _ from hidle] at ht
    cases ht
  have hcount := one_le_count hknown ht
  have hpaused := hbalanced.paused
  cases hcollecting : c.world.collecting with
  | false => rfl
  | true =>
    have hzero := hbalanced.unpaused hcollecting
    omega

/-- In a pause of a thread nothing that happens frees a cell. -/
theorem evolves_of_pauses (h : Run Act.Proper c) (ht : (c.world.thread t).pauses = true) {a : Act}
    (ha : a.Proper c) : c.world.store.heap.Evolves (a.record c).world.store.heap := by
  have hbalanced := (h.mono fun _ _ ha => ha.1).balanced
  refine Act.evolves ha.1 fun u k _ hk => ?_
  have hyes : c.world.collecting = true := hbalanced.collecting_of_sweeping hk
  rw [h.not_collecting ht] at hyes
  cases hyes

theorem of_pausing (h : Run Act.Proper c) (hc : c.Pausing t c') : Run Act.Proper c' := by
  induction hc with
  | refl => exact h
  | tail _ hact ih =>
    obtain ⟨a, ha, rfl, -⟩ := hact
    exact ih.act ha

theorem evolves_of_pausing (h : Run Act.Proper c) (hc : c.Pausing t c') :
    c.world.store.heap.Evolves c'.world.store.heap := by
  induction hc with
  | refl => exact .refl _
  | tail hbefore hact ih =>
    obtain ⟨a, ha, rfl, ht⟩ := hact
    exact ih.trans ((h.of_pausing hbefore).evolves_of_pauses ht ha)

end Run

end ScriptCore
