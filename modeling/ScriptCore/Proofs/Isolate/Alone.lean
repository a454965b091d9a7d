import ScriptCore.Proofs.Isolate.Outcome
import ScriptCore.Proofs.Machine.Alike

/-!
# Isolates on their own

An isolate whose code works on its own stack and calls bytecode functions only does not notice the
others: whatever threads and host do meanwhile, and whenever collections run, it comes to what its
call comes to on a fresh machine that nobody disturbs.

* `Isolate.SelfContained`: the code of an isolate is of that kind;
* `Isolate.Spared`: a run in which nobody else writes into what the isolate was started with;
* `Vm.Matches`: a call has left its thread as it ends on its own;
* `Isolate.Tracks`: how far the call of the isolate is, compared to the call on its own;
* `Isolate.Spared.tracks`: the comparison holds in every state;
* `isolates_are_independent`: so the isolate publishes the same outcome, and in a bounded number of
  its own steps.
-/

namespace ScriptCore

open World

/-! ### A call on its own -/

namespace Isolate

/-- What an isolate was started with: its function and its arguments. -/
def values (i : Isolate) : List Value := i.function :: i.args.toList

/-- What the call of an isolate calls, its function if the number of arguments is a word. -/
def callee? (i : Isolate) : Option Value :=
  (Vm.laidOut i.function i.args).below (UInt64.ofNat i.args.size)

/-- The call of an isolate on a fresh machine, in the store `s` and with nobody else around, after
so many instructions. -/
def alone (i : Isolate) (me : Caller) (s : Store) : Nat → Vm × Store × Signal :=
  Vm.alone me (Vm.enter me i.function i.args {} s)

/-- All code that an isolate may reach works on its stack and on constants, and on its own it calls
neither native functions nor bound methods. -/
structure SelfContained (i : Isolate) (me : Caller) (s : Store) : Prop where
  code : ∀ c code, s.heap.Reaches i.values c → s.heap.object? c = some (.function code) →
    ∀ instr ∈ code.instrs, instr.plain = true
  function : ∀ v, i.callee? = some v → s.heap.Scripted v
  calls : ∀ n vm s', i.alone me s n = (vm, s', .next) →
    ∀ v, vm.callee? s'.heap = some v → s'.heap.Scripted v

/-- The run goes on from `c₀`, and the thread `t` of the isolate makes so many steps. As long as the
isolate has not published, nobody else writes into what its function and arguments reached in
`c₀`. -/
inductive Spared (i : Isolate) (t : ThreadId) (c₀ : Chronicle) : Nat → Chronicle → Prop
  | start : Spared i t c₀ 0 c₀
  | own {n : Nat} {c : Chronicle} : Spared i t c₀ n c → (Act.step t).Proper c →
      Spared i t c₀ (n + 1) ((Act.step t).record c)
  | other {n : Nat} {c : Chronicle} {a : Act} : Spared i t c₀ n c → a.Proper c →
      a.actor? ≠ some t →
      ((c.world.control t).reported = false → ∀ d o, c₀.world.store.heap.Reaches i.values d →
        (a.record c).world.store.heap.object? d = some o →
        c.world.store.heap.object? d = some o) →
      Spared i t c₀ n (a.record c)

theorem Spared.run {i : Isolate} {t : ThreadId} {c₀ c : Chronicle} {n : Nat}
    (h : i.Spared t c₀ n c) (h₀ : Run Act.Proper c₀) : Run Act.Proper c := by
  induction h with
  | start => exact h₀
  | own _ ha ih => exact ih.act ha
  | other _ ha _ _ ih => exact ih.act ha

end Isolate

/-! ### The end of a call -/

/-- How a call has left its machine, compared to how it ends on its own. -/
inductive Vm.Matches (common : CellId → Prop) (h : Heap) (vm : Vm) :
    Ending → Vm × Store × Signal → Prop
  | returned {vm₀ : Vm} {s₀ : Store} : vm₀.frames = [] → vm.Alike common h s₀.heap vm₀ →
      Matches common h vm .returned (vm₀, s₀, .next)
  | failed {vm₀ : Vm} {s₀ : Store} {e : Cause} {c : CellId} : vm.error = true →
      vm.peek? = some (.ref c) → ¬ common c → h.object? c = some (.error e.failure) →
      Matches common h vm .returned (vm₀, s₀, .failed e)
  | panicked {vm₀ : Vm} {s₀ : Store} {p : Panic} :
      Matches common h vm (.panicked p) (vm₀, s₀, .panicked p)

namespace Vm.Matches

variable {common : CellId → Prop} {h h' : Heap} {vm : Vm} {e : Ending} {r₀ : Vm × Store × Signal}

theorem halted (hm : Matches common h vm e r₀) : Vm.halted r₀ = true := by
  cases hm with
  | returned hframes => exact List.isEmpty_iff.2 hframes
  | _ => rfl

theorem lasts (hm : Matches common h vm e r₀) (hl : h.Lasts h') (hvm : vm.Sound h') :
    Matches common h' vm e r₀ := by
  cases hm with
  | returned hframes ha => exact .returned hframes (ha.lasts hl hvm)
  | failed herror hpeek hc ho =>
    have hlive := Heap.holds_ref.1 (hvm.peek? hpeek)
    exact .failed herror hpeek hc (hl.settled (Object.settled_error _) ho hlive)
  | panicked => exact .panicked

/-- What an isolate finds to publish is what its call comes to on its own. -/
theorem verdict {w : World} {t : ThreadId} (hm : Matches common w.store.heap (w.thread t).vm e r₀)
    (hs : Heap.Shares common w.store.heap r₀.2.1.heap) (hclean : r₀.1.error = false)
    (me : Caller) :
    (w.verdict t e).2.2.1 = (Vm.verdict me r₀).2.1 ∧
    Value.Alike common (w.verdict t e).1.heap (Vm.verdict me r₀).1.heap (w.verdict t e).2.2.2
      (Vm.verdict me r₀).2.2 := by
  cases hm with
  | returned hframes ha =>
    refine ⟨ha.error.trans hclean, ?_⟩
    show Value.Alike common w.store.heap _ ((w.thread t).vm.peek?.getD .nil) (Option.getD _ .nil)
    rcases ha.top with ⟨hv, hv₀⟩ | ⟨v, v₀, hv, hv₀, hlike⟩ <;> rw [hv, hv₀]
    · exact .immediate (by simp)
    · exact hlike
  | failed herror hpeek hc ho =>
    refine ⟨herror, ?_⟩
    show Value.Alike common w.store.heap _ ((w.thread t).vm.peek?.getD .nil) _
    rw [hpeek]
    exact .error hc hs.symm.not_common_size ho (Store.object?_make _ _ _)
  | panicked =>
    exact ⟨rfl, .error hs.not_common_size hs.symm.not_common_size (Store.object?_make _ _ _)
      (Store.object?_make _ _ _)⟩

end Vm.Matches

/-! ### The steps of an isolate that interprets -/

/-- How many steps of its thread before the next instruction of a call have been made. -/
def Control.lag? : Control → Option Nat
  | .running => some 0
  | .rendezvous _ .instruction => some 1
  | .lingering .instruction | .gathering .instruction => some 2
  | .sweeping .instruction => some 3
  | .stepping => some 4
  | _ => none

theorem Control.eq_running_of_lag? {c : Control} (h : c.lag? = some 0) : c = .running := by
  unfold Control.lag? at h
  split at h <;> simp_all

theorem Control.lag?_le {c : Control} {l : Nat} (h : c.lag? = some l) : l ≤ 4 := by
  unfold Control.lag? at h
  split at h <;> simp_all <;> omega

namespace World

variable {w : World} {t : ThreadId} {own : Ledger}

/-- A thread that interprets executes its next instruction, or it comes nearer to it and nothing
happens but, possibly, a collection. -/
theorem step_of_lag? {lag : Nat} (hlag : (w.control t).lag? = some lag)
    (hframes : (w.thread t).vm.frames ≠ []) :
    w.step t = w.execute t ∨
    ∃ c more, (w.step t).thread t = { w.thread t with control := c } ∧ c.lag? = some more ∧
      lag < more ∧ ((w.step t).store.heap = w.store.heap ∨
        (w.step t).store.heap = (w.store.collector.collect w.rootValues).heap) := by
  have ht : t < w.threads.size := by
    refine lt_size_of_control fun hidle => ?_
    rw [hidle] at hlag
    cases hlag
  have hset : ∀ w₁ : World, w₁.threads = w.threads → ∀ c,
      (w₁.setControl t c).thread t = { w.thread t with control := c } := fun w₁ hthreads c =>
    (becomes_setControl hthreads ht c).mine
  have hstep : w.step t = w.step t := rfl
  conv_rhs at hstep => unfold World.step
  simp only at hstep
  cases hc : w.control t <;> rw [hc] at hlag <;>
    simp only [show (w.thread t).control = _ from hc] at hstep
  case running =>
    cases hlag
    rw [if_neg (by simpa using hframes)] at hstep
    split at hstep
    · exact .inr ⟨_, 1, hstep ▸ hset w rfl _, rfl, by decide, .inl (by rw [hstep]; rfl)⟩
    · exact .inl hstep
  case stepping => exact .inl hstep
  case rendezvous force k =>
    cases k <;> cases hlag
    split at hstep
    · exact .inr ⟨_, 2, hstep ▸ hset _ (threads_park w t) _, rfl, by decide,
        .inl (by rw [hstep]; exact heap_park)⟩
    split at hstep
    · exact .inr ⟨.stepping, 4, hstep ▸ hset _ (by rfl) _, rfl, by decide,
        .inl (by rw [hstep]; rfl)⟩
    · exact .inr ⟨_, 2, hstep ▸ hset _ (by rfl) _, rfl, by decide, .inl (by rw [hstep]; rfl)⟩
  case lingering k =>
    cases k <;> cases hlag
    exact .inr ⟨.stepping, 4, hstep ▸ hset _ (threads_unpark w t) _, rfl, by decide,
      .inl (by rw [hstep]; exact heap_unpark)⟩
  case gathering k =>
    cases k <;> cases hlag
    exact .inr ⟨_, 3, hstep ▸ hset w rfl _, rfl, by decide, .inl (by rw [hstep]; rfl)⟩
  case sweeping k =>
    cases k <;> cases hlag
    exact .inr ⟨.stepping, 4, hstep ▸ hset _ (by rfl) _, rfl, by decide, .inr (by rw [hstep]; rfl)⟩
  all_goals cases hlag

/-- Before and after its call an isolate leaves the objects alone until it publishes. -/
theorem heap_step_of_pending
    (hc : w.control t = .enrolling ∨ w.control t = .equipping ∨
      (w.control t = .running ∧ (w.thread t).vm.frames = []) ∨
      ∃ e, w.control t = .pausing e ∨ w.control t = .lingering (.pause (some e))) :
    (w.step t).store.heap = w.store.heap := by
  unfold World.step
  simp only [control] at hc
  rcases hc with hc | hc | ⟨hc, hframes⟩ | ⟨e, hc | hc⟩ <;> simp only [hc]
  · rfl
  · rfl
  · rw [hframes, if_pos List.isEmpty_nil, endRun_eq]
    rfl
  · split
    · exact heap_park
    · rfl
  · exact heap_unpark

/-- What is on the stack of an isolate that interprets, or whose call has ended, is live. -/
theorem Sound.holds_stack_of_call (h : w.Sound own none)
    (hc : (w.control t).lag?.isSome ∨ (w.control t).ending?.isSome) :
    (w.thread t).vm.Sound w.store.heap := by
  have hstands := h.stands t (by simp)
  refine h.holds_stack ?_
  rw [control] at hc
  cases hcontrol : (w.thread t).control <;> rw [hcontrol] at hc hstands <;>
    simp only [Control.lag?, Control.ending?, Option.isSome_none, Option.isSome_some,
      Bool.false_eq_true, or_false, or_true] at hc
  case running | stepping | pausing | publishing => exact hstands.2
  case rendezvous force k | gathering k | sweeping k =>
    cases k <;> simp at hc
    exact hstands.2
  case lingering k =>
    cases k with
    | instruction => exact hstands.2
    | pause ending =>
      cases ending with
      | none => simp at hc
      | some e => exact (hstands rfl).2
    | _ => simp at hc

end World

/-! ### How far an isolate is -/

/-- The steps that a thread has made before its call. -/
def Control.prelude? : Control → Option Nat
  | .enrolling => some 0
  | .equipping => some 1
  | .entering => some 2
  | _ => none

/-- The call of a thread has ended in this way. -/
def Thread.EndedBy (th : Thread) (e : Ending) : Prop :=
  th.control.ending? = some e ∨ th.control = .running ∧ th.vm.frames = [] ∧ e = .returned

theorem Control.prelude?_le {c : Control} {n : Nat} (h : c.prelude? = some n) : n ≤ 2 := by
  unfold Control.prelude? at h
  split at h <;> simp_all <;> omega

/-- Publishing is followed by five more steps. -/
theorem Thread.EndedBy.six_le {th : Thread} {e : Ending} (h : th.EndedBy e) {l : Nat}
    (hl : th.left? = some l) : 6 ≤ l := by
  rcases h with h | ⟨h, hframes, -⟩
  · unfold Control.ending? at h
    split at h <;> simp_all [Thread.left?] <;> omega
  · rw [Thread.left?, h, hframes] at hl
    cases hl
    decide

/-- Until its call has ended, only a collection can hold an isolate up. -/
theorem World.ready_of_call {w : World} {t : ThreadId} {stops : Nat} (hb : w.Balanced stops)
    (hc : (w.control t).prelude?.isSome ∨ (w.control t).lag?.isSome) :
    w.ready t = true ∨ w.collecting = true := by
  cases hcontrol : w.control t <;> rw [hcontrol] at hc <;>
    simp only [Control.prelude?, Control.lag?, Option.isSome_none, Option.isSome_some,
      Bool.false_eq_true, or_false, false_or, or_true] at hc
  case gathering k =>
    have ht : t < w.threads.size := lt_size_of_control (by simp [hcontrol])
    refine .inr (hb.collecting_of_coordinates ht ?_)
    rw [Thread.coordinates, show (w.thread t).control = _ from hcontrol]
    rfl
  case lingering k | enrolling =>
    cases hcollecting : w.collecting with
    | true => exact .inr rfl
    | false =>
      left
      rw [ready, hcontrol, hcollecting]
      rfl
  all_goals
    left
    rw [ready, hcontrol]

namespace Isolate

/-- How far the call of an isolate is, compared to the call on its own, when its thread `th` has
made so many steps and the store is `now`. -/
inductive Tracks (i : Isolate) (me : Caller) (s : Store) (common : CellId → Prop) (th : Thread)
    (now : Store) : Nat → Prop
  | early {n : Nat} : th.control.prelude? = some n → (th.control = .entering → th.vm = {}) →
      Heap.Shares common now.heap s.heap → Tracks i me s common th now n
  | calling {n k l : Nat} : th.control.lag? = some l → (l = 0 ∨ th.vm.frames ≠ []) →
      Vm.Paired common now.heap (th.vm, now, .next) (i.alone me s k) →
      (∀ j < k, Vm.halted (i.alone me s j) = false) → n ≤ 5 * k + 3 + l →
      Tracks i me s common th now n
  | ended {n k l : Nat} {e : Ending} : th.EndedBy e → th.left? = some l →
      Vm.Matches common now.heap th.vm e (i.alone me s k) →
      Heap.Shares common now.heap (i.alone me s k).2.1.heap →
      (∀ j < k, Vm.halted (i.alone me s j) = false) → n + l ≤ 5 * k + 12 →
      Tracks i me s common th now n

variable {i : Isolate} {me : Caller} {s now now' : Store} {common : CellId → Prop} {th th' : Thread}
  {n : Nat}

/-- What others do, collections included, leaves an isolate where it is. -/
theorem Tracks.aside (h : i.Tracks me s common th now n) (spent : Nat)
    (hs : Heap.Shares common now'.heap now.heap) (hl : now.heap.Lasts now'.heap)
    (hvm : th.control.lag?.isSome ∨ th.control.ending?.isSome → th.vm.Sound now'.heap) :
    i.Tracks me s common { th with spent } now' n := by
  cases h with
  | early hc hfresh hshares => exact .early hc hfresh (hs.trans hshares)
  | calling hlag hframes hp hbefore hn =>
    exact .calling hlag hframes (hp.drift hs hl (hvm (.inl (by rw [hlag]; rfl)))) hbefore hn
  | ended he hleft hm hshares hbefore hn =>
    refine .ended he hleft (hm.lasts hl (hvm ?_)) (hs.trans hshares) hbefore hn
    rcases he with he | ⟨he, -, -⟩ <;> rw [he]
    · exact .inr rfl
    · exact .inl rfl

/-- A machine that has come to the same signal as on its own goes on, or its call has ended. -/
theorem Tracks.of_leads (th : Thread) {G : Outcome → Store → Prop} {caller : Caller}
    {outermost : Bool} {k : Nat} {h : Heap} {r : Vm × Store × Signal} {vm' : Vm} {c : Control}
    (hp : Vm.Paired common h r (i.alone me s k))
    (hleads : Leads G caller (.isolate i) (.machine r.2.2 outermost) (r.1, r.2.1) (vm', now') c)
    (hbefore : ∀ j < k, Vm.halted (i.alone me s j) = false) (hn : n ≤ 5 * k + 3) :
    h.Keeps now'.heap ∧ i.Tracks me s common { th with vm := vm', control := c } now' n := by
  obtain ⟨vm, s₁, signal⟩ := r
  obtain ⟨hsignal, hbusy, hkeeps, hshares, hmachine⟩ := hp
  rcases hr : i.alone me s k with ⟨vm₀, s₀, signal₀⟩
  rw [hr] at hsignal hshares hmachine
  simp only at hsignal hbusy hkeeps hshares hmachine hleads
  subst hsignal
  cases hleads with
  | next =>
    refine ⟨hkeeps, .calling (k := k) (l := 0) ?_ (.inl rfl) ?_ hbefore (by omega)⟩
    · cases outermost <;> rfl
    · rw [hr]
      exact Vm.paired_next hshares hmachine
  | @failed _ _ e =>
    have hmade : s₁.heap.Keeps (vm.fail caller e s₁).2.heap := Heap.keeps_alloc _ _
    have hmatches : Vm.Matches common (vm.fail caller e s₁).2.heap (vm.fail caller e s₁).1 .returned
        (i.alone me s k) := by
      rw [hr]
      exact .failed rfl (Vm.peek?_push _ _) hshares.not_common_size (Store.object?_make _ _ _)
    have hkept : Heap.Shares common (vm.fail caller e s₁).2.heap (i.alone me s k).2.1.heap := by
      rw [hr]
      exact hshares.keeps hmade (.refl _)
    refine ⟨fun d o ho => hmade d o (hkeeps d o ho), ?_⟩
    cases outermost with
    | true => exact .ended (l := 9) (.inr ⟨rfl, rfl, rfl⟩) rfl hmatches hkept hbefore (by omega)
    | false => exact .ended (l := 8) (.inl rfl) rfl hmatches hkept hbefore (by omega)
  | @panicked _ _ p =>
    have hmatches : Vm.Matches common now'.heap vm' (.panicked p) (i.alone me s k) := by
      rw [hr]
      exact .panicked
    refine ⟨hkeeps, .ended (l := 8) (.inl rfl) rfl hmatches ?_ hbefore (by omega)⟩
    rw [hr]
    exact hshares
  | collects | blocks | receives => exact absurd rfl (hbusy _ _)

/-- A step has written into no shared cell and has taken the isolate further, as its call goes on
its own. -/
structure Advances (i : Isolate) (me : Caller) (s : Store) (common : CellId → Prop) (t : ThreadId)
    (n : Nat) (w w' : World) : Prop where
  unwritten : ∀ d o, common d → w'.store.heap.object? d = some o → w.store.heap.object? d = some o
  tracks : Heap.Shares common w'.store.heap w.store.heap →
    i.Tracks me s common (w'.thread t) w'.store n

theorem Advances.of_heap_eq {w w' : World} {t : ThreadId} (heq : w'.store.heap = w.store.heap)
    (h : i.Tracks me s common (w'.thread t) w'.store n) : i.Advances me s common t n w w' :=
  ⟨fun d o _ ho => by rwa [heq] at ho, fun _ => h⟩

/-- A thread goes on with a machine that has come to the same signal as on its own. -/
theorem advances_of_sequel {w w' : World} {t : ThreadId} {outermost : Bool} {k : Nat}
    {r : Vm × Store × Signal} (hlive : ∀ d, common d → w.store.heap.Live d)
    (hrole : (w.thread t).role = .isolate i)
    (hrest : Sequel (fun _ _ => True) t (.machine r.2.2 outermost) r.1 []
      { w with store := r.2.1 } w')
    (hp : Vm.Paired common w.store.heap r (i.alone me s k))
    (hbefore : ∀ j < k, Vm.halted (i.alone me s j) = false) (hn : n ≤ 5 * k + 3) :
    i.Advances me s common t n w w' := by
  obtain ⟨vm', c, hmine, hleads⟩ := hrest.mine
  rw [show ({ w with store := r.2.1 } : World).thread t = w.thread t from rfl, hrole] at hleads
  obtain ⟨hkeeps, htracks⟩ := Tracks.of_leads (w.thread t) hp hleads hbefore hn
  exact ⟨fun d o hd => hkeeps.back (hlive d hd), fun _ => hmine ▸ htracks⟩

section

variable {w : World} {t : ThreadId} {own own' : Ledger} (hsound : w.Sound own none)
  (hrole : (w.thread t).role = .isolate i)

include hsound hrole

/-- An isolate gets ready and lays out its call. -/
theorem advances_early (hself : i.SelfContained me s)
    (hvalues : ∀ v ∈ i.values, ∀ c, v = .ref c → common c)
    (hc : (w.control t).prelude? = some n) (hfresh : w.control t = .entering → (w.thread t).vm = {})
    (hshares : Heap.Shares common w.store.heap s.heap) :
    i.Advances me s common t (n + 1) w (w.step t) := by
  have honward : ∀ {th}, w.onward t (w.control t) = some th → (w.step t).thread t = th :=
    fun hth => (becomes_onward hsound hrole rfl hth).mine
  cases hcontrol : w.control t <;> rw [hcontrol] at hc honward <;>
    simp only [Control.prelude?, Option.some.injEq, reduceCtorEq] at hc <;> subst hc
  case enrolling =>
    have hheap := heap_step_of_pending (.inl hcontrol)
    refine .of_heap_eq hheap ?_
    rw [honward rfl]
    exact .early rfl (by simp) (hheap ▸ hshares)
  case equipping =>
    have hheap := heap_step_of_pending (.inr (.inl hcontrol))
    refine .of_heap_eq hheap ?_
    rw [honward rfl]
    exact .early rfl (fun _ => rfl) (hheap ▸ hshares)
  case entering =>
    have ht : t < w.threads.size := lt_size_of_control (by simp [hcontrol])
    have hstep : w.step t = w.enter t i.function i.args := by
      unfold World.step
      simp only [show (w.thread t).control = _ from hcontrol, hrole]
    let r := Vm.enter ((w.thread t).caller t) i.function i.args {} w.store
    have hpaired : Vm.Paired common w.store.heap r (i.alone me s 0) :=
      Vm.paired_enter hshares hvalues hself.function
    have hrest := Sequel.enter (G := fun _ _ => True) ht i.function i.args fun _ _ _ _ => trivial
    rw [hfresh hcontrol] at hrest
    exact advances_of_sequel hshares.live hrole (hstep ▸ hrest) hpaired (by simp) le_rfl

/-- An isolate that interprets has its next instruction executed, or it comes nearer to it. -/
theorem advances_calling (hsound' : (w.step t).Sound own' none) (hself : i.SelfContained me s)
    (hcode : ∀ c code, common c → w.store.heap.object? c = some (.function code) →
      ∀ instr ∈ code.instrs, instr.plain = true)
    {k l : Nat} (hlag : (w.control t).lag? = some l) (hframes : l = 0 ∨ (w.thread t).vm.frames ≠ [])
    (hp : Vm.Paired common w.store.heap ((w.thread t).vm, w.store, .next) (i.alone me s k))
    (hbefore : ∀ j < k, Vm.halted (i.alone me s j) = false) (hn : n ≤ 5 * k + 3 + l) :
    i.Advances me s common t (n + 1) w (w.step t) := by
  rcases hlone : i.alone me s k with ⟨vm₀, s₀, signal⟩
  rw [hlone] at hp
  obtain rfl : .next = signal := hp.signal
  by_cases hempty : (w.thread t).vm.frames = []
  · -- the call has returned
    obtain rfl := hframes.resolve_right (not_not.2 hempty)
    have hcontrol := Control.eq_running_of_lag? hlag
    have hheap := heap_step_of_pending (.inr (.inr (.inl ⟨hcontrol, hempty⟩)))
    have hmine := (becomes_onward hsound hrole hcontrol (by rw [onward, hempty]; rfl)).mine
    have hmatches : Vm.Matches common w.store.heap (w.thread t).vm .returned (vm₀, s₀, .next) :=
      .returned (hp.machine.frames ▸ hempty) hp.machine
    refine .of_heap_eq hheap ?_
    rw [hmine]
    refine .ended (k := k) (l := 8) (.inl rfl) rfl ?_ ?_ hbefore (by omega)
    · rw [hheap, hlone]
      exact hmatches
    · rw [hheap, hlone]
      exact hp.shares
  have hgoing : Vm.halted (i.alone me s k) = false := by
    rw [hlone, Vm.halted, ← hp.machine.frames]
    simpa using hempty
  have hle := Control.lag?_le hlag
  have hnow : ∀ j < k + 1, Vm.halted (i.alone me s j) = false := fun j hj =>
    (Nat.lt_succ_iff_lt_or_eq.1 hj).elim (hbefore j) fun heq => heq ▸ hgoing
  rcases step_of_lag? hlag hempty with heq | ⟨c, more, hmine, hmore, hlt, hheap⟩
  · -- the next instruction
    have ht : t < w.threads.size := Accounted.lt_size_of_role hrole
    have hnext : i.alone me s (k + 1) = vm₀.step me s₀ := by
      rw [alone, Vm.alone, ← alone, hlone]
    have hpaired := hp.step ((w.thread t).caller t) me hcode (hself.calls k vm₀ s₀ hlone)
    rw [← hnext] at hpaired
    have hrest := Sequel.execute (G := fun _ _ => True) ht fun _ _ _ _ => trivial
    rw [heq]
    exact advances_of_sequel hp.shares.live hrole hrest hpaired hnow (by omega)
  · -- a collection at most
    refine ⟨fun d o _ ho => ?_, fun hshares => ?_⟩
    · rcases hheap with hheap | hheap <;> rw [hheap] at ho
      · exact ho
      · exact hsound.tidy.object?_of_collect ho
    · have hvm := hsound'.holds_stack_of_call (t := t)
        (.inl (by rw [World.control, hmine, hmore]; rfl))
      rw [hmine] at hvm ⊢
      have hlasts : w.store.heap.Lasts (w.step t).store.heap := (Passes.step w t).lasts
      refine .calling hmore (.inr hempty) ?_ hbefore (by omega)
      rw [hlone]
      exact hp.drift hshares hlasts hvm

/-- The call of an isolate has ended, and it goes on to publish. -/
theorem advances_ended {k l : Nat} {e : Ending} (he : (w.thread t).EndedBy e)
    (hleft : (w.thread t).left? = some l)
    (hm : Vm.Matches common w.store.heap (w.thread t).vm e (i.alone me s k))
    (hshares : Heap.Shares common w.store.heap (i.alone me s k).2.1.heap)
    (hbefore : ∀ j < k, Vm.halted (i.alone me s j) = false) (hn : n + l ≤ 5 * k + 12)
    (hpublishing : ∀ e, w.control t ≠ .publishing e) :
    i.Advances me s common t (n + 1) w (w.step t) := by
  have hgoes : ∀ {c c' : Control} {l' : Nat}, w.control t = c →
      w.onward t c = some { w.thread t with control := c' } → c'.ending? = some e →
      { w.thread t with control := c' }.left? = some l' → l' < l →
      (w.step t).store.heap = w.store.heap → i.Advances me s common t (n + 1) w (w.step t) := by
    intro c c' l' hc hth hby hl' hlt hheap
    refine .of_heap_eq hheap ?_
    rw [(becomes_onward hsound hrole hc hth).mine]
    exact .ended (.inl hby) hl' (hheap ▸ hm) (hheap ▸ hshares) hbefore (by omega)
  rcases he with he | ⟨hc, hframes, rfl⟩
  · cases hc : (w.thread t).control <;> rw [hc] at he <;>
      simp only [Control.ending?, Option.some.injEq, reduceCtorEq] at he
    case pausing e' =>
      subst he
      have hheap := heap_step_of_pending (.inr (.inr (.inr ⟨e', .inl hc⟩)))
      rw [Thread.left?, hc] at hleft
      cases hleft
      cases hcollecting : w.collecting <;>
        exact hgoes hc rfl (by rw [hcollecting]; rfl) (by rw [hcollecting]; rfl) (by decide) hheap
    case lingering k =>
      cases k with
      | pause ending =>
        cases ending with
        | none => cases he
        | some e' =>
          cases he
          have hheap := heap_step_of_pending (.inr (.inr (.inr ⟨e, .inr hc⟩)))
          rw [Thread.left?, hc] at hleft
          cases hleft
          exact hgoes hc rfl rfl rfl (by decide) hheap
      | _ => cases he
    case publishing e' => exact absurd hc (hpublishing e')
  · have hheap := heap_step_of_pending (.inr (.inr (.inl ⟨hc, hframes⟩)))
    rw [Thread.left?, hc, hframes] at hleft
    cases hleft
    exact hgoes hc (by rw [onward, hframes]; rfl) rfl rfl (by decide) hheap

end

/-- A step of an isolate that has not come to publishing. -/
theorem Tracks.advances {w : World} {t : ThreadId} {own own' : Ledger}
    (h : i.Tracks me s common (w.thread t) w.store n) (hsound : w.Sound own none)
    (hsound' : (w.step t).Sound own' none) (hrole : (w.thread t).role = .isolate i)
    (hself : i.SelfContained me s) (hvalues : ∀ v ∈ i.values, ∀ c, v = .ref c → common c)
    (hcode : ∀ c code, common c → w.store.heap.object? c = some (.function code) →
      ∀ instr ∈ code.instrs, instr.plain = true)
    (hpublishing : ∀ e, w.control t ≠ .publishing e) :
    i.Advances me s common t (n + 1) w (w.step t) := by
  cases h with
  | early hc hfresh hshares => exact advances_early hsound hrole hself hvalues hc hfresh hshares
  | calling hlag hframes hp hbefore hn =>
    exact advances_calling hsound hrole hsound' hself hcode hlag hframes hp hbefore hn
  | ended he hleft hm hshares hbefore hn =>
    exact advances_ended hsound hrole he hleft hm hshares hbefore hn hpublishing

/-! ### The whole run -/

/-- In this state an isolate publishes what its call comes to on its own. -/
def Echoes (i : Isolate) (me : Caller) (s : Store) (common : CellId → Prop) (t : ThreadId)
    (pub : Hosted) : Prop :=
  ∃ k e, pub.world.control t = .publishing e ∧
    Vm.Matches common pub.world.store.heap (pub.world.thread t).vm e (i.alone me s k) ∧
    Heap.Shares common pub.world.store.heap (i.alone me s k).2.1.heap

theorem Tracks.echoes {pub : Hosted} {t : ThreadId} {e : Ending}
    (h : i.Tracks me s common (pub.world.thread t) pub.world.store n)
    (hc : pub.world.control t = .publishing e) : i.Echoes me s common t pub := by
  have hcontrol : (pub.world.thread t).control = .publishing e := hc
  cases h with
  | early hprelude =>
    rw [hcontrol] at hprelude
    cases hprelude
  | calling hlag =>
    rw [hcontrol] at hlag
    cases hlag
  | @ended k l e' he hleft hm hshares =>
    rcases he with he | ⟨he, -⟩ <;> rw [hcontrol] at he <;> cases he
    exact ⟨k, e, hc, hm, hshares⟩

/-- What holds of an isolate whose thread has made `n` steps since the state `c₀`. -/
structure Follows (i : Isolate) (me : Caller) (s : Store) (t : ThreadId) (c₀ : Chronicle) (n : Nat)
    (c : Chronicle) : Prop where
  role : (c.world.thread t).role = .isolate i
  carried : (c.world.control t).reported = false →
    ∃ vs, (i.transfer, .pinned vs) ∈ c.world.store.collector.roots ∧ ∀ v ∈ i.values, v ∈ vs
  base : (c.world.control t).reported = false →
    Heap.Shares (c₀.world.store.heap.Reaches i.values) c.world.store.heap c₀.world.store.heap
  tracks : (c.world.control t).reported = false →
    i.Tracks me s (c₀.world.store.heap.Reaches i.values) (c.world.thread t) c.world.store n
  echoes : ∀ pub ∈ publications t c.past,
    i.Echoes me s (c₀.world.store.heap.Reaches i.values) t pub

variable {t : ThreadId} {c₀ c : Chronicle} {a : Act}

/-- An isolate that is about to register has everything before it. -/
theorem follows_start (h₀ : Run Act.Proper c₀) (hrole : (c₀.world.thread t).role = .isolate i)
    (hnew : c₀.world.control t = .enrolling)
    (hsame : ∀ d, c₀.world.store.heap.Reaches i.values d →
      s.heap.object? d = c₀.world.store.heap.object? d) : i.Follows me s t c₀ 0 c₀ := by
  obtain ⟨own, hsound, -⟩ := h₀.hosted
  have hcarries : (c₀.world.thread t).Carries c₀.world.store.collector := by
    have hstands := hsound.stands t (by simp)
    rwa [show (c₀.world.thread t).control = .enrolling from hnew] at hstands
  obtain ⟨vs, hvs, hfunction, hargs⟩ := hcarries i hrole
  have hvalues : ∀ v ∈ i.values, v ∈ vs := fun v hv => by
    rcases List.mem_cons.1 hv with rfl | hv
    · exact hfunction
    · exact hargs v (Array.mem_toList_iff.1 hv)
  have hlive : ∀ d, c₀.world.store.heap.Reaches i.values d → c₀.world.store.heap.Live d :=
    fun d hd => hsound.closed.live_of_reaches
      (fun v hv => hsound.held _ _ hvs v (Array.mem_toList_iff.2 (hvalues v hv))) hd
  refine ⟨hrole, fun _ => ⟨vs, hvs, hvalues⟩, fun _ => ⟨fun _ _ => rfl, hlive, fun _ _ => .step⟩,
    fun _ => ?_, ?_⟩
  · have hcontrol : (c₀.world.thread t).control = .enrolling := hnew
    refine .early (by rw [hcontrol]; rfl) (by simp [hcontrol]) ⟨?_, hlive, fun _ _ => .step⟩
    exact fun d hd => (hsame d hd).symm
  · rcases (h₀.stage hrole).reported_or with ⟨hyes, -⟩ | ⟨-, hnone⟩
    · rw [hnew] at hyes
      cases hyes
    · rw [hnone]
      simp

end Isolate

/-- Who has published has published. -/
theorem Run.reported_record {c : Chronicle} {a : Act} {t : ThreadId} {i : Isolate}
    (h : Run Act.Proper c) (ha : a.Proper c) (hrole : (c.world.thread t).role = .isolate i)
    (hreported : (c.world.control t).reported = true) :
    ((a.record c).world.control t).reported = true := by
  have hrole' := (h.role_record ha (Accounted.lt_size_of_role hrole)).trans hrole
  rcases (h.stage hrole).reported_or with ⟨-, ⟨pub, e, hpub, -⟩, -⟩ | ⟨hno, -⟩
  · rcases ((h.act ha).stage hrole').reported_or with ⟨hyes, -⟩ | ⟨-, hnone⟩
    · exact hyes
    · have hmem : pub ∈ publications t (a.record c).past := by
        obtain ⟨p, hp, hsome⟩ := List.mem_filterMap.1 (hpub ▸ List.mem_singleton_self pub)
        exact List.mem_filterMap.2 ⟨p, List.mem_cons_of_mem _ hp, hsome⟩
      rw [hnone] at hmem
      cases hmem
  · rw [hreported] at hno
    cases hno

theorem Control.not_released_of_reported {ctrl : Control} (h : ctrl.reported = false) :
    ctrl.released = false := by
  unfold Control.released
  split <;> trivial

namespace Isolate

variable {i : Isolate} {me : Caller} {s : Store} {n m : Nat} {t : ThreadId} {c₀ c : Chronicle}
  {a : Act}

/-- One more act, which writes into no cell that the isolate was started with. -/
theorem Follows.act (h : i.Follows me s t c₀ n c) (hrun : Run Act.Proper c) (ha : a.Proper c)
    (hunwritten : (c.world.control t).reported = false →
      ((a.record c).world.control t).reported = false →
      ∀ d o, c₀.world.store.heap.Reaches i.values d →
        (a.record c).world.store.heap.object? d = some o → c.world.store.heap.object? d = some o)
    (htracks : (c.world.control t).reported = false →
      ((a.record c).world.control t).reported = false →
      Heap.Shares (c₀.world.store.heap.Reaches i.values) (a.record c).world.store.heap
        c.world.store.heap →
      i.Tracks me s (c₀.world.store.heap.Reaches i.values) ((a.record c).world.thread t)
        (a.record c).world.store m)
    (hechoes : ∀ pub ∈ publications t (a.record c).past,
      i.Echoes me s (c₀.world.store.heap.Reaches i.values) t pub) :
    i.Follows me s t c₀ m (a.record c) := by
  have hbefore : ((a.record c).world.control t).reported = false →
      (c.world.control t).reported = false := fun hno => by
    by_contra hyes
    rw [hrun.reported_record ha h.role (by simpa using hyes)] at hno
    cases hno
  have hcarried : ((a.record c).world.control t).reported = false →
      ∃ vs, (i.transfer, .pinned vs) ∈ (a.record c).world.store.collector.roots ∧
        ∀ v ∈ i.values, v ∈ vs := fun hno => by
    obtain ⟨vs, hvs, hvalues⟩ := h.carried (hbefore hno)
    exact ⟨vs, hrun.transfer_kept ha h.role (Control.not_released_of_reported hno) hvs, hvalues⟩
  have hshares : ((a.record c).world.control t).reported = false →
      Heap.Shares (c₀.world.store.heap.Reaches i.values) (a.record c).world.store.heap
        c.world.store.heap := fun hno => by
    obtain ⟨vs, hvs, hvalues⟩ := hcarried hno
    obtain ⟨own, hsound, -⟩ := (hrun.act ha).hosted
    exact (h.base (hbefore hno)).shift
      (fun v hv => hsound.held _ _ hvs v (Array.mem_toList_iff.2 (hvalues v hv))) hsound.closed
      (hunwritten (hbefore hno) hno)
  exact ⟨(hrun.role_record ha (Accounted.lt_size_of_role h.role)).trans h.role, hcarried,
    fun hno => (hshares hno).trans (h.base (hbefore hno)),
    fun hno => htracks (hbefore hno) hno (hshares hno), hechoes⟩

/-- A step of the isolate itself. -/
theorem Follows.own (h : i.Follows me s t c₀ n c) (hrun : Run Act.Proper c)
    (ha : (Act.step t).Proper c) (hself : i.SelfContained me s)
    (hcode : ∀ d code, c₀.world.store.heap.Reaches i.values d →
      c₀.world.store.heap.object? d = some (.function code) →
      ∀ instr ∈ code.instrs, instr.plain = true) :
    i.Follows me s t c₀ (n + 1) ((Act.step t).record c) := by
  obtain ⟨own, hsound, -⟩ := hrun.hosted
  obtain ⟨own', hsound', -⟩ := (hrun.act ha).hosted
  by_cases hpublishing : ∃ e, c.world.control t = .publishing e
  · obtain ⟨e, hc⟩ := hpublishing
    have hno : (c.world.control t).reported = false := by rw [hc]; rfl
    have hyes : (((Act.step t).record c).world.control t).reported = true := by
      have hmine := (becomes_onward hsound h.role hc rfl).mine
      rw [World.control, show ((Act.step t).record c).world = c.world.step t from rfl, hmine]
      rfl
    refine h.act hrun ha (fun _ hno' => ?_) (fun _ hno' => ?_) ?_
    · rw [hyes] at hno'
      cases hno'
    · rw [hyes] at hno'
      cases hno'
    · rw [show publications t ((Act.step t).record c).past = _ from publications_cons_publishing hc]
      intro pub hpub
      rcases List.mem_cons.1 hpub with rfl | hpub
      · exact (h.tracks hno).echoes hc
      · exact h.echoes pub hpub
  · have hadvances : (c.world.control t).reported = false →
        i.Advances me s (c₀.world.store.heap.Reaches i.values) t (n + 1) c.world
          (c.world.step t) := fun hno => by
      refine (h.tracks hno).advances hsound hsound' h.role hself (fun v hv d hd => ?_) ?_
        fun e he => hpublishing ⟨e, he⟩
      · exact .start (hd ▸ hv)
      · exact fun d code hd ho => hcode d code hd (((h.base hno).object d hd).symm.trans ho)
    refine h.act hrun ha (fun hno _ => (hadvances hno).unwritten)
      (fun hno _ => (hadvances hno).tracks) ?_
    rw [show publications t ((Act.step t).record c).past = _ from
      publications_cons_of_ne fun _ e he => hpublishing ⟨e, he⟩]
    exact h.echoes

/-- An act of somebody else. -/
theorem Follows.other (h : i.Follows me s t c₀ n c) (hrun : Run Act.Proper c) (ha : a.Proper c)
    (hactor : a.actor? ≠ some t)
    (hunwritten : (c.world.control t).reported = false →
      ∀ d o, c₀.world.store.heap.Reaches i.values d →
        (a.record c).world.store.heap.object? d = some o → c.world.store.heap.object? d = some o) :
    i.Follows me s t c₀ n (a.record c) := by
  obtain ⟨spent, hthread⟩ := Act.bystander ha.1 hactor (Accounted.lt_size_of_role h.role)
  obtain ⟨own, hsound, -⟩ := (hrun.act ha).hosted
  refine h.act hrun ha (fun hno _ => hunwritten hno) (fun hno _ hshares => ?_) ?_
  · have hvm : (c.world.control t).lag?.isSome ∨ (c.world.control t).ending?.isSome →
        (c.world.thread t).vm.Sound (a.record c).world.store.heap := fun hc => by
      have hcall := hsound.holds_stack_of_call (t := t)
      rw [World.control, hthread] at hcall
      exact hcall hc
    rw [hthread]
    exact (h.tracks hno).aside spent hshares (Act.lasts ha.1) hvm
  · rw [show publications t (a.record c).past = publications t c.past from
      publications_cons_of_ne fun hstep => absurd (by rw [hstep]; rfl) hactor]
    exact h.echoes

/-- In every state of a run that spares it an isolate is where its call on its own is. -/
theorem Spared.follows (h : i.Spared t c₀ n c) (h₀ : Run Act.Proper c₀)
    (hrole : (c₀.world.thread t).role = .isolate i) (hnew : c₀.world.control t = .enrolling)
    (hsame : ∀ d, c₀.world.store.heap.Reaches i.values d →
      s.heap.object? d = c₀.world.store.heap.object? d) (hself : i.SelfContained me s) :
    i.Follows me s t c₀ n c := by
  have hreaches : ∀ d, c₀.world.store.heap.Reaches i.values d → s.heap.Reaches i.values d :=
    fun d hd => hd.of_object? hsame
  induction h with
  | start => exact follows_start h₀ hrole hnew hsame
  | own hspared ha ih =>
    exact ih.own (hspared.run h₀) ha hself fun d code hd ho =>
      hself.code d code (hreaches d hd) ((hsame d hd).trans ho)
  | other hspared ha hactor hunwritten ih => exact ih.other (hspared.run h₀) ha hactor hunwritten

/-! ### What an isolate publishes -/

/-- A call on its own has not failed before it fails. -/
theorem error_alone (i : Isolate) (me : Caller) (s : Store) (n : Nat) :
    (i.alone me s n).1.error = false := by
  induction n with
  | zero => exact (Vm.topped_invoke rfl _).error
  | succ n ih =>
    rw [alone, Vm.alone, ← alone]
    split
    · rename_i vm s' hr
      rw [hr] at ih
      by_cases hframes : vm.frames = []
      · rw [Vm.step, hframes]
        exact ih
      · exact (Vm.topped_step ih hframes).error
    · exact ih

/-- An isolate has published once. If its future had no value then, it has got a result since then:
the tag and the payload that the call `r₀` on its own comes to. -/
def Answers (i : Isolate) (me : Caller) (common : CellId → Prop) (t : ThreadId)
    (past : List (Hosted × Act)) (h : Heap) (r₀ : Vm × Store × Signal) : Prop :=
  let (s₀, tag, payload₀) := Vm.verdict me r₀
  ∃ pub, publications t past = [pub] ∧ Heap.Shares common pub.world.store.heap s₀.heap ∧
    (pub.world.store.heap.object? i.future = some (.future none) → ∃ r payload,
      let after := (pub.world.step t).store.heap
      after.object? i.future = some (.future (some (.ref r))) ∧
      after.object? r = some (.result tag payload) ∧
      Value.Alike common after s₀.heap payload payload₀ ∧
      (h.Live i.future → h.object? i.future = some (.future (some (.ref r))) ∧
        h.object? r = some (.result tag payload)))

theorem Echoes.answers {common : CellId → Prop} {past : List (Hosted × Act)} {h : Heap}
    (hreported : i.Reported t past h) (hclosed : h.Closed)
    (hechoes : ∀ pub ∈ publications t past, i.Echoes me s common t pub) :
    ∃ k, Vm.halted (i.alone me s k) = true ∧
      i.Answers me common t past h (i.alone me s k) := by
  obtain ⟨pub, e, hpub, hrole, hc, -, hlasts⟩ := hreported
  obtain ⟨k, e', hc', hm, hshares⟩ := hechoes pub (by simp [hpub])
  obtain rfl : e' = e := by simpa [hc] using hc'.symm
  have hstep : (pub.world.step t).store.heap = (pub.world.published t i e').heap := by
    unfold World.step
    simp only [show (pub.world.thread t).control = _ from hc, hrole, publish_eq]
    rfl
  obtain ⟨htag, hpayload⟩ := hm.verdict hshares (error_alone i me s k) me
  refine ⟨k, hm.halted, pub, hpub, hshares.keeps (.refl _) (Vm.keeps_verdict me _), fun hnone => ?_⟩
  have hfuture := object?_published_future pub.world t i e' hnone
  have hresult := object?_published_result pub.world t i e'
  refine ⟨(pub.world.tagged t e').2, (pub.world.verdict t e').2.2.2, ?_⟩
  simp only [hstep]
  rw [htag] at hresult
  refine ⟨hfuture, hresult, ?_, fun hlive => ?_⟩
  · have hmade : (pub.world.verdict t e').1.heap.Evolves (pub.world.tagged t e').1.heap :=
      Heap.evolves_alloc _ _
    exact hpayload.evolves (hmade.trans (Store.evolves_resolve _ _ _))
  · have hvalue := hlasts.settled (Object.settled_future _) hfuture hlive
    refine ⟨hvalue, hlasts.settled (Object.settled_result _ _) hresult ?_⟩
    exact hclosed _ _ hvalue _ (List.mem_singleton.2 rfl) _ rfl

/-! ### When it publishes -/

/-- An isolate that has not published has made few steps, and only a collection can hold it up. -/
theorem Follows.soon (h : i.Follows me s t c₀ n c) (hrun : Run Act.Proper c)
    (hno : (c.world.control t).reported = false) (hm : Vm.halted (i.alone me s m) = true) :
    n ≤ 5 * m + 6 ∧ ((Act.step t).Proper c ∨ c.world.collecting = true) := by
  have hbalanced := (hrun.mono fun _ _ ha => ha.1).balanced
  have hready : c.world.ready t = true ∨ c.world.collecting = true →
      (Act.step t).Proper c ∨ c.world.collecting = true :=
    Or.imp_left (hrun.proper_step h.role)
  have hle : ∀ {k}, (∀ j < k, Vm.halted (i.alone me s j) = false) → k ≤ m := fun hbefore => by
    by_contra hlt
    rw [hbefore m (Nat.not_le.1 hlt)] at hm
    cases hm
  cases h.tracks hno with
  | early hc =>
    refine ⟨?_, hready (ready_of_call hbalanced (.inl (by rw [World.control, hc]; rfl)))⟩
    have := Control.prelude?_le hc
    omega
  | @calling k l hlag hframes hp hbefore hn =>
    refine ⟨?_, hready (ready_of_call hbalanced (.inr (by rw [World.control, hlag]; rfl)))⟩
    have hkm := hle hbefore
    have hl := Control.lag?_le hlag
    by_cases heq : k = m
    · -- the call has returned, and no safepoint is before it
      subst heq
      have hsignal := hp.signal
      have hsame := hp.machine.frames
      rcases hr : i.alone me s k with ⟨vm₀, s₀, signal⟩
      rw [hr] at hm hsignal hsame
      obtain rfl : .next = signal := hsignal
      have hzero := hframes.resolve_right (not_not.2 (hsame.trans (List.isEmpty_iff.1 hm)))
      omega
    · omega
  | @ended k l e he hleft hmatches hshares hbefore hn =>
    have hkm := hle hbefore
    have hsix := he.six_le hleft
    obtain ⟨l, rfl⟩ := Nat.exists_eq_add_of_le' (Nat.le_trans (by decide : 1 ≤ 6) hsix)
    exact ⟨by omega, hready (ready_or_collecting hleft)⟩

end Isolate

/-- Isolates do not notice each other. An isolate whose code works on its stack and calls bytecode
functions only is started in `c₀`, and the run goes on in any way in which nobody else writes into
what its function and arguments reach: with any number of other isolates and threads, any
interleaving of their steps and collections at any safepoint. Compare its call on a fresh machine
that nobody disturbs, in a store `s` that agrees with the one of `c₀` on what they reach. If the
isolate has published, that call ends. Wherever it ends, after `m` instructions, the isolate has
published its outcome: the tag is the same, and so is the payload, but for the cell of a text or an
error that has been made since. Before that it makes at most `5 * m + 6` steps, and only a
collection that is under way can hold it up. -/
theorem isolates_are_independent {c₀ c : Chronicle} {t : ThreadId} {i : Isolate} {n : Nat}
    (h₀ : Run Act.Proper c₀) (hrole : (c₀.world.thread t).role = .isolate i)
    (hnew : c₀.world.control t = .enrolling) (h : i.Spared t c₀ n c) (me : Caller) (s : Store)
    (hsame : ∀ d, c₀.world.store.heap.Reaches i.values d →
      s.heap.object? d = c₀.world.store.heap.object? d) (hself : i.SelfContained me s) :
    ((c.world.control t).reported = true → ∃ m, Vm.halted (i.alone me s m) = true) ∧
    ∀ m, Vm.halted (i.alone me s m) = true →
      ((c.world.control t).reported = true →
        i.Answers me (c₀.world.store.heap.Reaches i.values) t c.past c.world.store.heap
          (i.alone me s m)) ∧
      ((c.world.control t).reported = false →
        n ≤ 5 * m + 6 ∧ ((Act.step t).Proper c ∨ c.world.collecting = true)) := by
  have hrun := h.run h₀
  have hfollows := h.follows h₀ hrole hnew hsame hself
  have hanswers : (c.world.control t).reported = true → ∃ k,
      Vm.halted (i.alone me s k) = true ∧ i.Answers me (c₀.world.store.heap.Reaches i.values) t
        c.past c.world.store.heap (i.alone me s k) := fun hyes => by
    rcases (hrun.stage hfollows.role).reported_or with ⟨-, hreported, -⟩ | ⟨hno, -⟩
    · obtain ⟨own, hsound, -⟩ := hrun.hosted
      exact Isolate.Echoes.answers hreported hsound.closed hfollows.echoes
    · rw [hyes] at hno
      cases hno
  refine ⟨fun hyes => ?_, fun m hm => ⟨fun hyes => ?_, fun hno => hfollows.soon hrun hno hm⟩⟩
  · obtain ⟨k, hk, -⟩ := hanswers hyes
    exact ⟨k, hk⟩
  · obtain ⟨k, hk, hanswer⟩ := hanswers hyes
    rwa [show i.alone me s k = i.alone me s m from Vm.alone_eq_of_halted hk hm] at hanswer

/-! ### Two isolates -/

/-- These isolates can take turns, and nobody but `t` writes into the cells meanwhile. -/
def World.sparing (t : ThreadId) (cells : List CellId) : List ThreadId → World → Bool
  | [], _ => true
  | u :: us, w =>
      w.ready u && (w.thread u).role != .host &&
        (u == t || cells.all fun d => (w.step u).store.heap.object? d == w.store.heap.object? d) &&
        sparing t cells us (w.step u)

/-- The threads step in this order. -/
def Chronicle.turns (c : Chronicle) (us : List ThreadId) : Chronicle :=
  us.foldl (fun c u => (Act.step u).record c) c

theorem Isolate.Spared.turns {i : Isolate} {t : ThreadId} {c₀ c : Chronicle} {n : Nat}
    {cells : List CellId} {us : List ThreadId} (h : i.Spared t c₀ n c) (h₀ : Run Act.Proper c₀)
    (hreaches : ∀ d, c₀.world.store.heap.Reaches i.values d → d ∈ cells)
    (hus : c.world.sparing t cells us = true) : i.Spared t c₀ (n + us.count t) (c.turns us) := by
  induction us generalizing n c with
  | nil => exact h
  | cons u us ih =>
    simp only [World.sparing, Bool.and_eq_true, Bool.or_eq_true, beq_iff_eq, bne_iff_ne,
      List.all_eq_true] at hus
    obtain ⟨⟨⟨hready, hrole⟩, hsame⟩, hus⟩ := hus
    obtain ⟨j, hj⟩ : ∃ j, (c.world.thread u).role = .isolate j := by
      cases hr : (c.world.thread u).role with
      | host => exact absurd hr hrole
      | isolate j => exact ⟨j, rfl⟩
    have hproper := (h.run h₀).proper_step hj hready
    by_cases hu : u = t
    · subst hu
      rw [List.count_cons_self, Nat.add_comm (us.count u), ← Nat.add_assoc]
      exact ih (h.own hproper) hus
    · rw [List.count_cons_of_ne hu]
      refine ih (h.other hproper (by simpa [Act.actor?] using hu) fun _ d o hd ho => ?_) hus
      exact (hsame.resolve_left hu d (hreaches d hd)).symm.trans ho

/-- A host thread starts two isolates that add the same text to itself. -/
def Chronicle.doubling : Chronicle :=
  [.spawn, .assign 0 .enroll, .step 0,
    .make 0 (.function ⟨"double", 1, #[], #[.arg 0, .arg 0, .arith .add, .ret]⟩),
    .make 0 (.str "ab"), .assign 0 (.request (.start (.ref 11) #[.ref 12])), .step 0, .step 0,
    .assign 0 (.request (.start (.ref 11) #[.ref 12])), .step 0, .step 0].foldl
      Act.record .standard

theorem run_doubling : Run Act.Proper .doubling := by
  have hheld : ∀ {h : Heap}, h.Live 11 ∧ h.Live 12 →
      h.Holds (.ref 11) ∧ ∀ a ∈ (#[.ref 12] : Array Value), h.Holds a :=
    fun h => ⟨Heap.holds_ref.2 h.1, by simpa using h.2⟩
  have hspare : ∀ {w : World}, 0 < w.threads.size ∧ (w.thread 0).role = .host ∧
      w.atRest 0 = true → w.Spare 0 := fun h => ⟨h.1, h.2.1, h.2.2⟩
  have hstep : ∀ {c : Chronicle}, c.world.ready 0 = true ∧ c.world.store.heap.Live 11 ∧
      c.world.store.heap.Live 12 →
      c.world.control 0 = .blocked .creation (.start (.ref 11) #[.ref 12] .host) ∨
        c.world.control 0 = .leaving .done (.start (.ref 11) #[.ref 12] .host) →
      (Act.step 0).Proper c := by
    rintro c ⟨hready, hlive⟩ hc
    refine ⟨hready, ?_⟩
    show c.world.StepGiven 0
    unfold StepGiven
    rcases hc with hc | hc <;> rw [show (c.world.thread 0).control = _ from hc]
    · trivial
    · exact hheld hlive
  refine (Run.standard _).acts ⟨⟨trivial, trivial⟩,
    ⟨⟨⟨by decide, rfl, rfl⟩, trivial⟩, rfl, trivial⟩, ⟨rfl, trivial⟩,
    ⟨trivial, rfl, by simp [Object.edges]⟩, ⟨trivial, rfl, by simp [Object.edges]⟩,
    ⟨⟨⟨by decide, rfl, rfl⟩, trivial⟩, rfl, rfl, hheld ⟨rfl, rfl⟩⟩, ⟨rfl, trivial⟩,
    ⟨rfl, hheld ⟨rfl, rfl⟩⟩, ⟨⟨hspare ?_, trivial⟩, ?_, ?_, hheld ?_⟩, hstep ?_ (.inl ?_),
    hstep ?_ (.inr ?_), trivial⟩
  all_goals decide +kernel

/-- The isolates take turns until both have published. -/
def Chronicle.doubled : Chronicle := doubling.turns (List.replicate 10 [1, 2]).flatten

namespace Isolate

/-- The second of them. -/
def doubler : Isolate := ⟨1, .ref 11, #[.ref 12], 14, 4⟩

/-- Its thread. -/
def doublerCaller : Caller := ⟨2, 6, "bond-isolate-1"⟩

theorem object?_doubling :
    (Chronicle.doubling.world.store.heap.object? 11,
      Chronicle.doubling.world.store.heap.object? 12) =
      (some (.function ⟨"double", 1, #[], #[.arg 0, .arg 0, .arith .add, .ret]⟩),
        some (.str "ab")) := by
  decide +kernel

theorem mem_of_reaches_doubler {d : CellId}
    (h : Chronicle.doubling.world.store.heap.Reaches doubler.values d) : d ∈ [11, 12] := by
  obtain ⟨hfunction, htext⟩ := Prod.mk.inj object?_doubling
  induction h with
  | start hd => simpa [values, doubler] using hd
  | step _ hp ih =>
    obtain ⟨o, ho, hmem⟩ := hp
    rcases List.mem_pair.1 ih with rfl | rfl
    · rw [hfunction] at ho
      cases ho
      simp [Object.edges] at hmem
    · rw [htext] at ho
      cases ho
      simp [Object.edges] at hmem

theorem halted_doubler :
    Vm.halted (doubler.alone doublerCaller Chronicle.doubling.world.store 4) = true := by
  decide +kernel

theorem callee?_doubler (n : Nat) :
    (doubler.alone doublerCaller Chronicle.doubling.world.store n).1.callee?
      (doubler.alone doublerCaller Chronicle.doubling.world.store n).2.1.heap = none := by
  by_cases hn : 4 ≤ n
  · rw [show doubler.alone doublerCaller Chronicle.doubling.world.store n = _ from
      Vm.alone_of_halted halted_doubler hn]
    decide +kernel
  · interval_cases n <;> decide +kernel

theorem selfContained_doubler :
    doubler.SelfContained doublerCaller Chronicle.doubling.world.store := by
  obtain ⟨hfunction, htext⟩ := Prod.mk.inj object?_doubling
  refine ⟨fun d code hd ho => ?_, fun v hv => ?_, fun n vm s' hn v hv => ?_⟩
  · rcases List.mem_pair.1 (mem_of_reaches_doubler hd) with rfl | rfl
    · rw [hfunction] at ho
      cases ho
      decide
    · rw [htext] at ho
      cases ho
  · obtain rfl : v = .ref 11 := by
      have hcallee : doubler.callee? = some (.ref 11) := by decide +kernel
      simpa [hcallee] using hv.symm
    intro o ho
    obtain rfl := Option.some.inj (hfunction.symm.trans ho)
    rfl
  · have hnone := callee?_doubler n
    rw [hn] at hnone
    rw [hnone] at hv
    cases hv

theorem spared_doubler : doubler.Spared 2 .doubling 10 .doubled := by
  have hturns : Chronicle.doubling.world.sparing 2 [11, 12] (List.replicate 10 [1, 2]).flatten =
      true := by
    decide +kernel
  exact Spared.start.turns run_doubling (fun _ => mem_of_reaches_doubler) hturns

end Isolate

/-- The second of two isolates that take turns publishes the text that it makes on its own. -/
theorem isolates_are_independent_doubling :
    open Chronicle Isolate in
    doubler.Answers doublerCaller (doubling.world.store.heap.Reaches doubler.values) 2
      doubled.past doubled.world.store.heap (doubler.alone doublerCaller doubling.world.store 4) ∧
    doubled.world.store.heap.object? 14 = some (.future (some (.ref 18))) ∧
    doubled.world.store.heap.object? 18 = some (.result false (.ref 16)) ∧
    doubled.world.store.heap.object? 16 = some (.str "abab") := by
  have hstart : ((Chronicle.doubling.world.thread 2).role, Chronicle.doubling.world.control 2) =
      (.isolate .doubler, .enrolling) := by
    decide +kernel
  have hend : ((Chronicle.doubled.world.control 2).reported,
      Chronicle.doubled.world.store.heap.object? 14,
      Chronicle.doubled.world.store.heap.object? 18,
      Chronicle.doubled.world.store.heap.object? 16) =
      (true, some (.future (some (.ref 18))), some (.result false (.ref 16)),
        some (.str "abab")) := by
    decide +kernel
  obtain ⟨hrole, hnew⟩ := Prod.mk.inj hstart
  simp only [Prod.mk.injEq] at hend
  obtain ⟨hreported, hcells⟩ := hend
  obtain ⟨-, hends⟩ := isolates_are_independent run_doubling hrole hnew Isolate.spared_doubler
    Isolate.doublerCaller Chronicle.doubling.world.store (fun _ _ => rfl)
    Isolate.selfContained_doubler
  exact ⟨(hends 4 Isolate.halted_doubler).1 hreported, hcells⟩

end ScriptCore
