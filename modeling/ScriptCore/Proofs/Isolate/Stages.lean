import ScriptCore.Proofs.World.Calls

/-!
# The stages of an isolate

An isolate registers, gets a machine, calls its function, pauses collections, publishes, lets go of
what it carried and leaves. Whatever all others do meanwhile, it makes these steps in this order and
publishes once.

* `World.onward`: where an isolate comes by a step outside of its call;
* `publications`: the states of the past in which a thread has published;
* `Isolate.Ended`: how the call of an isolate has ended, a run or a panic;
* `Stage`: how far an isolate has come;
* `Stage.aside`, `Stage.step`: what others do leaves it where it is, and a step of its own takes it
  further.
-/

namespace ScriptCore

/-! ### Steps outside of the call -/

/-- The call of an isolate has ended in this way, and it has not published. -/
def Control.ending? : Control → Option Ending
  | .pausing e | .lingering (.pause (some e)) | .publishing e => some e
  | _ => none

/-- An isolate has published. -/
def Control.reported : Control → Bool
  | .resuming | .releasing | .retiring | .lingering .retire | .unrooting | .gone => true
  | _ => false

/-- An isolate has published, and these of its registrations are gone. -/
def Control.Closing (th : Thread) : Control → Prop
  | .resuming | .releasing | .retiring | .lingering .retire => True
  | .unrooting => th.storage = none
  | .gone => th.storage = none ∧ th.root = none
  | _ => False

/-- How many steps an isolate whose call has ended makes at most until it is gone. -/
def Thread.left? (th : Thread) : Option Nat :=
  match th.control with
  | .running => if th.vm.frames.isEmpty then some 9 else none
  | .pausing _ => some 8
  | .lingering (.pause (some _)) => some 7
  | .publishing _ => some 6
  | .resuming => some 5
  | .releasing => some 4
  | .retiring => some 3
  | .lingering .retire => some 2
  | .unrooting => some 1
  | .gone => some 0
  | _ => none

namespace World

/-- What a step with this control, outside of its call, makes of an isolate. -/
def onward (w : World) (t : ThreadId) : Control → Option Thread
  | .running =>
      if (w.thread t).vm.frames.isEmpty then some { w.thread t with control := .pausing .returned }
      else none
  | .enrolling =>
      some { w.thread t with storage := some w.store.collector.nextId, control := .equipping }
  | .equipping =>
      some { w.thread t with vm := {}, root := some w.store.collector.nextId, control := .entering }
  | .pausing e =>
      some { w.thread t with
        control := if w.collecting then .lingering (.pause (some e)) else .publishing e }
  | .lingering (.pause (some e)) => some { w.thread t with control := .publishing e }
  | .publishing e => some { w.thread t with vm := (w.verdict t e).2.1, control := .resuming }
  | .resuming => some { w.thread t with control := .releasing }
  | .releasing => some { w.thread t with control := .retiring }
  | .retiring =>
      some (if w.collecting then { w.thread t with control := .lingering .retire }
        else { w.thread t with storage := none, control := .unrooting })
  | .lingering .retire => some { w.thread t with storage := none, control := .unrooting }
  | .unrooting => some { w.thread t with root := none, control := .gone }
  | _ => none

variable {own : Ledger} {w : World} {t : ThreadId} {i : Isolate}

theorem becomes_onward (h : w.Sound own none) (hrole : (w.thread t).role = .isolate i)
    {c : Control} (hc : w.control t = c) {th : Thread} (hth : w.onward t c = some th) :
    Becomes t th w (w.step t) := by
  have ht : t < w.threads.size := by
    refine lt_size_of_control fun hidle => ?_
    rw [← hc, hidle] at hth
    cases hth
  have hset : ∀ w₁ : World, w₁.threads = w.threads → ∀ c,
      Becomes t { w.thread t with control := c } w (w₁.setControl t c) := fun w₁ hthreads =>
    becomes_setControl hthreads ht
  have hpark := hset _ (threads_park w t)
  have hunpark : Becomes t { w.thread t with storage := none, control := .unrooting } w
      ((w.unpark t).leave t) := by
    have hleave := becomes_leave (h.unpark t) (t := t) (by rwa [threads_unpark])
    rw [thread_congr (threads_unpark w t)] at hleave
    exact ⟨hleave.mine,
      fun u hu => (hleave.others u hu).trans (thread_congr (threads_unpark w t) u),
      hleave.size.trans (congrArg Array.size (threads_unpark w t))⟩
  have hhost : (w.thread t).role ≠ .host := by simp [hrole]
  unfold World.step
  simp only [show (w.thread t).control = c from hc]
  cases c with
  | running =>
    simp only [onward, Option.ite_none_right_eq_some, Option.some.injEq] at hth
    obtain ⟨hframes, rfl⟩ := hth
    simp only [hframes, if_true, endRun_eq]
    rw [show (w.thread t).role.ended = .pausing .returned by rw [hrole]; rfl]
    exact hset _ rfl _
  | enrolling =>
    cases hth
    simp only
    split
    · exact absurd ‹_› hhost
    · exact (becomes_register ht).setControl ht _
  | equipping =>
    cases hth
    simp only
    split
    · exact absurd ‹_› hhost
    · exact (becomes_equip ht).setControl ht _
  | pausing e =>
    cases hth
    simp only
    split
    · exact hpark _
    · exact hset _ (by rfl) _
  | lingering k =>
    cases k with
    | pause ending =>
      cases ending with
      | none => cases hth
      | some e =>
        cases hth
        exact hset _ (by exact threads_unpark w t) _
    | retire =>
      cases hth
      exact hunpark
    | _ => cases hth
  | publishing e =>
    cases hth
    simp only
    split
    · exact absurd ‹_› hhost
    · exact becomes_publish ht _ e
  | resuming =>
    cases hth
    exact hset _ (by rfl) _
  | releasing =>
    cases hth
    simp only
    split
    · exact absurd ‹_› hhost
    · exact hset _ (threads_dropRoot w _) _
  | retiring =>
    cases hth
    simp only
    split
    · exact hpark _
    · exact becomes_leave h ht
  | unrooting =>
    cases hth
    have hunroot := becomes_unroot ht
    rw [show farewell (w.thread t).role = .gone by rw [hrole]; rfl] at hunroot
    exact hunroot
  | _ => cases hth

end World

/-! ### How far an isolate has come -/

/-- The states of the past in which a thread has published. -/
def publications (t : ThreadId) (past : List (Hosted × Act)) : List Hosted :=
  past.filterMap fun
    | (h, .step u) =>
        match h.world.control t with
        | .publishing _ => if u = t then some h else none
        | _ => none
    | _ => none

theorem publications_cons_of_ne {t : ThreadId} {h : Hosted} {a : Act}
    {past : List (Hosted × Act)}
    (ha : a = .step t → ∀ e, h.world.control t ≠ .publishing e) :
    publications t ((h, a) :: past) = publications t past := by
  refine List.filterMap_cons_none ?_
  cases a with
  | step u =>
    simp only
    split
    · rename_i e hc
      refine if_neg fun hu => ?_
      subst hu
      exact ha rfl e hc
    · rfl
  | _ => rfl

/-- A thread that is not there does not publish. -/
theorem publications_cons_of_size_le {t : ThreadId} {h : Hosted} (a : Act)
    {past : List (Hosted × Act)} (ht : h.world.threads.size ≤ t) :
    publications t ((h, a) :: past) = publications t past := by
  refine publications_cons_of_ne fun _ e he => ?_
  rw [World.control, World.thread_of_size_le ht] at he
  cases he

theorem mem_past_of_publications {t : ThreadId} {past : List (Hosted × Act)} {pub : Hosted}
    (hpub : pub ∈ publications t past) : (pub, .step t) ∈ past := by
  obtain ⟨⟨before, a⟩, hmem, hsome⟩ := List.mem_filterMap.1 hpub
  cases a with
  | step u =>
    simp only at hsome
    split at hsome
    · split at hsome
      · rename_i hu
        cases hsome
        exact hu ▸ hmem
      · cases hsome
    · cases hsome
  | _ => cases hsome

theorem publications_cons_publishing {t : ThreadId} {h : Hosted} {past : List (Hosted × Act)}
    {e : Ending} (hc : h.world.control t = .publishing e) :
    publications t ((h, .step t) :: past) = h :: publications t past := by
  refine List.filterMap_cons_some ?_
  simp only [hc, if_true]

namespace Isolate

/-- The call of an isolate has been laid out on a fresh machine, in this step of the past. -/
def Starts (i : Isolate) (t : ThreadId) (past : List (Hosted × Act)) (me : Caller)
    (start : Vm × Store × Signal) : Prop :=
  ∃ h, (h, .step t) ∈ past ∧ h.world.control t = .entering ∧ (h.world.thread t).caller t = me ∧
    start = Vm.enter me i.function i.args {} h.world.store

/-- How the call of an isolate has ended: with this machine, by the time the heap is `h`. -/
def Ended (i : Isolate) (t : ThreadId) (past : List (Hosted × Act)) (vm : Vm) (h : Heap) :
    Ending → Prop
  | .returned => ∃ me start trace s x, i.Starts t past me start ∧
      Vm.Runs (.lived t past) me trace start vm s x ∧ s.heap.Lasts h
  | .panicked p => ∃ me start trace s, i.Starts t past me start ∧
      Vm.Arrives (.lived t past) me start trace (vm, s, .panicked p)

variable {i : Isolate} {t : ThreadId} {past : List (Hosted × Act)} {vm : Vm} {h h' : Heap}

theorem Starts.cons {me : Caller} {start : Vm × Store × Signal} (hs : i.Starts t past me start)
    (p : Hosted × Act) : i.Starts t (p :: past) me start := by
  obtain ⟨h₀, hmem, hrest⟩ := hs
  exact ⟨h₀, List.mem_cons_of_mem p hmem, hrest⟩

theorem Ended.mono {e : Ending} (he : i.Ended t past vm h e) (p : Hosted × Act)
    (hl : h.Lasts h') : i.Ended t (p :: past) vm h' e := by
  have henv := Surroundings.lived_cons t past p
  cases e with
  | returned =>
    obtain ⟨me, start, trace, s, x, hstarts, hruns, hs⟩ := he
    exact ⟨me, start, trace, s, x, hstarts.cons p, hruns.mono henv, hs.trans hl⟩
  | panicked q =>
    obtain ⟨me, start, trace, s, hstarts, harrives⟩ := he
    exact ⟨me, start, trace, s, hstarts.cons p, harrives.mono henv⟩

/-- An isolate has published once, in a state in which its call had ended. -/
def Reported (i : Isolate) (t : ThreadId) (past : List (Hosted × Act)) (h : Heap) : Prop :=
  ∃ pub e, publications t past = [pub] ∧ (pub.world.thread t).role = .isolate i ∧
    pub.world.control t = .publishing e ∧
    i.Ended t past (pub.world.thread t).vm pub.world.store.heap e ∧
    (pub.world.published t i e).heap.Lasts h

theorem Reported.mono (hr : i.Reported t past h) {h₀ : Hosted} {a : Act}
    (ha : a = .step t → ∀ e, h₀.world.control t ≠ .publishing e) (hl : h.Lasts h') :
    i.Reported t ((h₀, a) :: past) h' := by
  obtain ⟨pub, e, hpub, hrole, hc, hended, hlasts⟩ := hr
  exact ⟨pub, e, (publications_cons_of_ne ha).trans hpub, hrole, hc, hended.mono _ (.refl _),
    hlasts.trans hl⟩

end Isolate

/-- How far an isolate has come. -/
inductive Stage (c : Chronicle) (t : ThreadId) (i : Isolate) : Prop
  | early : publications t c.past = [] →
      c.world.control t = .enrolling ∨ c.world.control t = .equipping → Stage c t i
  | ready : publications t c.past = [] → c.world.control t = .entering →
      (c.world.thread t).vm = {} → Stage c t i
  | calling {me : Caller} {start : Vm × Store × Signal} : publications t c.past = [] →
      i.Starts t c.past me start → c.Live t me start → Stage c t i
  /-- A failure has left no frame to interpret. -/
  | complete : publications t c.past = [] → c.world.control t = .running →
      (c.world.thread t).vm.frames = [] →
      i.Ended t c.past (c.world.thread t).vm c.world.store.heap .returned → Stage c t i
  | ended {e : Ending} : publications t c.past = [] → (c.world.control t).ending? = some e →
      i.Ended t c.past (c.world.thread t).vm c.world.store.heap e → Stage c t i
  | reported : (c.world.control t).Closing (c.world.thread t) →
      i.Reported t c.past c.world.store.heap → Stage c t i

namespace Stage

open World

variable {c : Chronicle} {a : Act} {t : ThreadId} {i : Isolate}

/-- What others do leaves an isolate where it is. -/
theorem aside (h : Stage c t i) (ha : a.Orderly c) (hactor : a.actor? ≠ some t)
    (ht : t < c.world.threads.size) : Stage (a.record c) t i := by
  obtain ⟨n, hthread⟩ := Act.bystander ha hactor ht
  have hcontrol : (a.record c).world.control t = c.world.control t := by
    rw [World.control, World.control, hthread]
  have hvm : ((a.record c).world.thread t).vm = (c.world.thread t).vm := by rw [hthread]
  have hlasts := Act.lasts ha
  have hstep : a = .step t → ∀ e, c.world.control t ≠ .publishing e := fun heq => by
    subst heq
    exact absurd rfl hactor
  have hpublications : publications t (a.record c).past = publications t c.past :=
    publications_cons_of_ne hstep
  cases h with
  | early hpub hc => exact .early (hpublications.trans hpub) (hcontrol ▸ hc)
  | ready hpub hc hfresh =>
    exact .ready (hpublications.trans hpub) (hcontrol.trans hc) (hvm.trans hfresh)
  | calling hpub hstarts hlive =>
    have hcalled := hlive.called.aside ha hactor ht
    obtain ⟨signal, hcalling, hfollows⟩ := hlive
    obtain ⟨trace, s, harrives, hs⟩ := hcalling.reached
    refine .calling (hpublications.trans hpub) (hstarts.cons _) ⟨signal, ⟨?_, hcalled.caller, trace,
      s, ?_, hs.trans hlasts⟩, ?_⟩
    · refine lt_size_of_control fun hidle => ?_
      rw [← hcontrol, hidle] at hfollows
      cases hfollows
    · rw [hvm]
      exact harrives.mono (Surroundings.lived_cons t _ _)
    · rw [hcontrol, hthread]
      exact hfollows
  | complete hpub hc hframes hended =>
    refine .complete (hpublications.trans hpub) (hcontrol.trans hc) (hvm ▸ hframes) ?_
    rw [hvm]
    exact hended.mono _ hlasts
  | ended hpub hc hended =>
    refine .ended (hpublications.trans hpub) (hcontrol ▸ hc) ?_
    rw [hvm]
    exact hended.mono _ hlasts
  | reported hclosing hreported =>
    refine .reported ?_ (hreported.mono hstep hlasts)
    rw [hcontrol, hthread]
    revert hclosing
    cases c.world.control t with
    | lingering k => cases k <;> exact id
    | _ => exact id

/-- What has become of the call of an isolate. -/
theorem of_called {me : Caller} {start : Vm × Store × Signal}
    (hpub : publications t c.past = []) (hrole : (c.world.thread t).role = .isolate i)
    (hstarts : i.Starts t c.past me start) (h : c.Called t me start) : Stage c t i := by
  obtain ⟨hcaller, hcourse⟩ := h
  rw [hrole] at hcourse
  cases hcourse with
  | @live trace s signal harrives hs hfollows =>
    refine .calling hpub hstarts ⟨signal, ⟨?_, hcaller, trace, s, harrives, hs⟩, hrole ▸ hfollows⟩
    refine lt_size_of_control fun hidle => ?_
    rw [hidle] at hfollows
    cases hfollows
  | complete hruns hs hc =>
    have hended : i.Ended t c.past (c.world.thread t).vm c.world.store.heap .returned :=
      ⟨me, start, _, _, _, hstarts, hruns, hs⟩
    rcases hc with hc | ⟨hc, hframes⟩
    · exact .ended hpub (e := .returned) (by rw [hc]; rfl) hended
    · exact .complete hpub hc hframes hended
  | @lost trace s p harrives hc =>
    exact .ended hpub (e := .panicked p) (by rw [hc]; rfl) ⟨me, start, trace, s, hstarts, harrives⟩

/-- A step of an isolate takes it further. -/
theorem step {own : Ledger} (h : Stage c t i) (hsound : c.world.Sound own none)
    (hrole : (c.world.thread t).role = .isolate i)
    (hrole' : (((Act.step t).record c).world.thread t).role = .isolate i) :
    Stage ((Act.step t).record c) t i := by
  let c' := (Act.step t).record c
  have hstep : c'.world = c.world.step t := rfl
  have hlasts : c.world.store.heap.Lasts c'.world.store.heap := (Passes.step _ _).lasts
  have hpast : (∀ e, c.world.control t ≠ .publishing e) →
      publications t c'.past = publications t c.past := fun hc =>
    publications_cons_of_ne fun _ => hc
  have honward : ∀ {ctrl th}, c.world.control t = ctrl → c.world.onward t ctrl = some th →
      c'.world.thread t = th := fun hc hth => (becomes_onward hsound hrole hc hth).mine
  cases h with
  | early hpub hc =>
    have hpub' := (hpast (by rcases hc with hc | hc <;> simp [hc])).trans hpub
    rcases hc with hc | hc
    · have hnext := honward hc rfl
      exact .early hpub' (.inr (by rw [World.control, hnext]))
    · have hnext := honward hc rfl
      exact .ready hpub' (by rw [World.control, hnext]) (by rw [hnext])
  | ready hpub hc hvm =>
    have ht : t < c.world.threads.size := lt_size_of_control (by simp [hc])
    have henter : c.world.step t = c.world.enter t i.function i.args := by
      unfold World.step
      simp only [show (c.world.thread t).control = _ from hc, hrole]
    have hcalled : c'.Called t ((c.world.thread t).caller t)
        ((c.world.thread t).vm.enter ((c.world.thread t).caller t) i.function i.args
          c.world.store) := by
      unfold Chronicle.Called
      rw [hstep, henter]
      refine called_enter ht i.function i.args fun q s o s₁ hs hw => ?_
      rw [← henter] at hw
      exact (Chronicle.lived_step c (a := .step t) rfl).2 q s o s₁ hs hw
    rw [hvm] at hcalled
    exact of_called ((hpast (by simp [hc])).trans hpub) hrole'
      ⟨c.toHosted, List.mem_cons_self, hc, rfl, rfl⟩ hcalled
  | calling hpub hstarts hlive =>
    have hnot : ∀ e, c.world.control t ≠ .publishing e := by
      obtain ⟨signal, -, hfollows⟩ := hlive
      intro e he
      rw [he] at hfollows
      cases hfollows
    exact of_called ((hpast hnot).trans hpub) hrole' (hstarts.cons _) hlive.step
  | complete hpub hc hframes hended =>
    have hnext : c'.world.thread t = { c.world.thread t with control := .pausing .returned } :=
      honward hc (by rw [onward, hframes]; rfl)
    refine .ended (e := .returned) ((hpast (by simp [hc])).trans hpub)
      (by rw [World.control, hnext]; rfl) ?_
    rw [hnext]
    exact hended.mono _ hlasts
  | @ended e hpub hc hended =>
    cases hcontrol : c.world.control t <;> rw [hcontrol] at hc <;>
      simp only [Control.ending?, Option.some.injEq, reduceCtorEq] at hc
    case pausing e' =>
      subst hc
      have hnext := honward hcontrol rfl
      refine .ended (e := e') ((hpast (by simp [hcontrol])).trans hpub) ?_ ?_
      · rw [World.control, hnext]
        simp only
        split <;> rfl
      · rw [hnext]
        exact hended.mono _ hlasts
    case lingering k =>
      cases k with
      | pause ending =>
        cases ending with
        | none => cases hc
        | some e' =>
          cases hc
          have hnext := honward hcontrol rfl
          refine .ended (e := e) ((hpast (by simp [hcontrol])).trans hpub)
            (by rw [World.control, hnext]; rfl) ?_
          rw [hnext]
          exact hended.mono _ hlasts
      | _ => cases hc
    case publishing e' =>
      subst hc
      have hnext := honward hcontrol rfl
      have hpublish : c.world.step t = c.world.publish t i e' := by
        unfold World.step
        simp only [show (c.world.thread t).control = _ from hcontrol, hrole]
      refine .reported (by rw [World.control, hnext]; trivial)
        ⟨c.toHosted, e', ?_, hrole, hcontrol, ?_, ?_⟩
      · exact (publications_cons_publishing hcontrol).trans (congrArg _ hpub)
      · exact hended.mono _ (.refl _)
      · rw [hstep, hpublish, publish_eq]
        exact .refl _
  | reported hclosing hreported =>
    have hreported' : (∀ e, c.world.control t ≠ .publishing e) →
        i.Reported t c'.past c'.world.store.heap := fun hc => hreported.mono (fun _ => hc) hlasts
    cases hcontrol : c.world.control t <;> rw [hcontrol] at hclosing <;>
      simp only [Control.Closing] at hclosing
    case gone =>
      have hgone : c'.world.thread t = c.world.thread t := by
        rw [hstep]
        unfold World.step
        simp only [show (c.world.thread t).control = _ from hcontrol]
      refine .reported ?_ (hreported' (by simp [hcontrol]))
      rw [World.control, hgone, ← World.control, hcontrol]
      exact hclosing
    case lingering k =>
      cases k with
      | retire =>
        have hnext := honward hcontrol rfl
        exact .reported (by rw [World.control, hnext]; rfl) (hreported' (by simp [hcontrol]))
      | _ => cases hclosing
    case retiring =>
      have hnext := honward hcontrol rfl
      refine .reported ?_ (hreported' (by simp [hcontrol]))
      rw [World.control, hnext]
      split
      · trivial
      · rfl
    all_goals
      have hnext := honward hcontrol rfl
      refine .reported ?_ (hreported' (by simp [hcontrol]))
      rw [World.control, hnext]
    case resuming | releasing => trivial
    case unrooting => exact ⟨hclosing, rfl⟩

end Stage

end ScriptCore
