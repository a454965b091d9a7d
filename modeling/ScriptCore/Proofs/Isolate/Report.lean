import ScriptCore.Proofs.Isolate.Stages
import ScriptCore.Proofs.Machine.Caller

/-!
# What an isolate reports

A call that has ended has left its value on top of the machine, or the error flag and an error
object. The isolate tags what it finds there and puts the result in its future, unless the future
has got a value before; a panic becomes an error object of its own.

* `Vm.Runs.top`: what a call leaves on top of its machine;
* `World.object?_published_future`, `World.object?_published_result`: what publishing writes;
* `Panic.Quoted`: the words that are quoted from a panic;
* `Isolate.Tells`: a value is the result of what the call of an isolate came to;
* `Isolate.Published`: it is in the future as long as the future is live, if nothing was there
  before.
-/

namespace ScriptCore

/-! ### What a call leaves on top -/

namespace Vm

variable {env : Surroundings} {me : Caller} {vm : Vm} {s : Store} {x : Option Cause}
  {trace : List (Vm × Store)}

/-- A call has not failed, and if its last frame has returned there is a result. -/
structure Topped (r : Vm × Store × Signal) : Prop where
  error : r.1.error = false
  top : r.2.2 = .next → r.1.frames = [] → r.1.peek?.isSome

theorem peek?_push (vm : Vm) (v : Value) : (vm.push v).peek? = some v := Array.back?_push

theorem topped_answer (h : vm.error = false) (callee : Nat) (r : Store × Reaction) :
    Topped (vm.answer callee r) := by
  obtain ⟨s, v | e | p | q⟩ := r
  · exact ⟨h, fun _ _ => by rw [answer, peek?_push]; rfl⟩
  all_goals exact ⟨h, fun hnext => by cases hnext⟩

theorem topped_invoke (h : vm.error = false) (argc : UInt64) : Topped (vm.invoke me argc s) := by
  unfold invoke
  split
  · exact ⟨h, fun hnext => by cases hnext⟩
  split
  · exact ⟨h, fun hnext => by cases hnext⟩
  simp only
  split
  · split
    · exact ⟨h, fun _ hframes => by cases hframes⟩
    · exact ⟨h, fun hnext => by cases hnext⟩
  · exact topped_answer h _ _
  · exact topped_answer h _ _
  · exact ⟨h, fun hnext => by cases hnext⟩

theorem topped_step (h : vm.error = false) (hframes : vm.frames ≠ []) :
    Topped (vm.step me s) := by
  obtain ⟨frame, rest, hf⟩ := List.exists_cons_of_ne_nil hframes
  rcases step_cases me s hf with ⟨ip, ht⟩ | ⟨v, hv⟩
  · refine ⟨ht.error.trans h, fun _ hnil => ?_⟩
    rcases ht.frames with hkept | ⟨c, hcalled, -⟩
    · rw [hnil] at hkept
      cases hkept
    · rw [hnil] at hcalled
      cases hcalled
  · rw [hv]
    exact ⟨h, fun _ _ => by rw [peek?, Array.back?_push]; rfl⟩

theorem topped_receive (h : vm.error = false) (callee : Nat) (o : Outcome) :
    Topped (vm.receive me callee s o) := by
  cases o with
  | failed | panicked => exact ⟨h, fun hnext => by cases hnext⟩
  | _ => exact ⟨h, fun _ _ => by rw [receive, peek?_push]; rfl⟩

/-- A call that has ended leaves a value on top. The error flag is up exactly if it has failed, and
then the value is an error object. -/
theorem Runs.top {r : Vm × Store × Signal} (hrun : Runs env me trace r vm s x) (h : Topped r) :
    vm.error = x.isSome ∧ ∃ v, vm.peek? = some v ∧
      ∀ e, x = some e → ∃ c, v = .ref c ∧ s.heap.object? c = some (.error e.failure) := by
  induction hrun with
  | done hframes =>
    obtain ⟨v, hv⟩ := Option.isSome_iff_exists.1 (h.top rfl hframes)
    exact ⟨h.error, v, hv, fun e he => by cases he⟩
  | step hframes _ _ ih => exact ih (topped_step h.error hframes)
  | failed =>
    refine ⟨rfl, _, peek?_push _ _, ?_⟩
    rintro _ ⟨⟩
    exact ⟨_, rfl, Store.object?_make _ _ _⟩
  | granted _ _ ih => exact ih (topped_receive h.error _ _)

end Vm

/-! ### What publishing writes -/

theorem Object.settled_result (isError : Bool) (v : Value) :
    (Object.result isError v).Settled := by
  rintro _ ⟨⟩

theorem Object.settled_error (f : Failure) : (Object.error f).Settled := by
  rintro _ ⟨⟩

namespace World

variable (w : World) (t : ThreadId) (i : Isolate) (ending : Ending)

/-- Making the result changes no object. -/
theorem object?_tagged {c : CellId} (hc : c < w.store.heap.size) :
    (w.tagged t ending).1.heap.object? c = w.store.heap.object? c := by
  have hmake : ∀ (s : Store) (o : Object), c < s.heap.size →
      (s.make ((w.thread t).caller t).storage o).1.heap.object? c = s.heap.object? c :=
    fun s o hlt => (Heap.object?_alloc s.heap { object := o } c).trans (if_neg hlt.ne)
  cases ending with
  | returned => exact hmake _ _ hc
  | panicked p =>
    refine (hmake _ _ ?_).trans (hmake _ _ hc)
    exact hc.trans_le (Heap.evolves_alloc w.store.heap _).size_le

/-- A future that has a value keeps it. -/
theorem object?_published_future {slot : Option Value}
    (ho : w.store.heap.object? i.future = some (.future slot)) :
    (w.published t i ending).heap.object? i.future =
      some (.future (some (slot.getD (.ref (w.tagged t ending).2)))) := by
  have htagged := object?_tagged w t ending (Heap.lt_size_of_object? ho)
  rw [ho] at htagged
  unfold published
  simp only [Heap.resolve, htagged]
  cases slot with
  | none =>
    show (Heap.setObject _ i.future _).object? i.future = _
    rw [Heap.object?_setObject, if_pos rfl, htagged]
    rfl
  | some v => exact htagged

theorem object?_published_result :
    (w.published t i ending).heap.object? (w.tagged t ending).2 =
      some (.result (w.verdict t ending).2.2.1 (w.verdict t ending).2.2.2) :=
  (Store.evolves_resolve (w.tagged t ending).1 i.future _).settled (Object.settled_result _ _)
    (Store.object?_make _ _ _)

end World

/-! ### The report -/

/-- A report quotes a panic so. A payload that is a text is quoted as it is, and any other is not
known. -/
def Panic.Quoted (text : String) : Panic → Prop
  | .text message => text = message
  | .unprintable | .endlessText => text = "unknown panic"
  | .unmatchedResume => text = "resume_gc without matching stop_gc"
  | .argumentCountOverflow => text = "attempt to add with overflow"
  | p => p.message? = some text

theorem Panic.quoted_message (p : Panic) : p.Quoted (p.message?.getD "unknown panic") := by
  cases p with
  | text message => simp [Quoted]
  | unprintable => simp [Quoted]
  | _ => rfl

namespace Isolate

/-- A value is the result of what the call of an isolate came to, which left the machine `vm`. A
call that has ended gives what is on top of the machine, tagged with the error flag, and a failure
is an error object; a panic gives an error that quotes it. -/
inductive Tells (i : Isolate) (t : ThreadId) (past : List (Hosted × Act)) (vm : Vm) (h : Heap) :
    Value → Prop
  | returned {me : Caller} {start : Vm × Store × Signal} {trace : List (Vm × Store)} {s : Store}
      {x : Option Cause} {payload : Value} {r : CellId} :
      i.Starts t past me start → Vm.Runs (.lived t past) me trace start vm s x →
      vm.error = x.isSome → vm.peek? = some payload →
      (∀ e, x = some e → ∃ c, payload = .ref c ∧ h.object? c = some (.error e.failure)) →
      h.object? r = some (.result vm.error payload) → Tells i t past vm h (.ref r)
  | panicked {me : Caller} {start : Vm × Store × Signal} {trace : List (Vm × Store)} {s : Store}
      {p : Panic} {text : String} {c r : CellId} :
      i.Starts t past me start → Vm.Arrives (.lived t past) me start trace (vm, s, .panicked p) →
      p.Quoted text → h.object? c = some (.error ⟨.thread, "isolate panicked: " ++ text⟩) →
      h.object? r = some (.result true (.ref c)) → Tells i t past vm h (.ref r)

/-- An isolate has published once. As long as its future is live it has a value: the one it had by
then, or else the result. -/
def Published (i : Isolate) (t : ThreadId) (past : List (Hosted × Act)) (h : Heap) : Prop :=
  ∃ pub slot, publications t past = [pub] ∧
    pub.world.store.heap.object? i.future = some (.future slot) ∧
    (h.Live i.future → ∃ v, h.object? i.future = some (.future (some v)) ∧
      (slot = some v ∨ slot = none ∧ i.Tells t past (pub.world.thread t).vm h v))

variable {i : Isolate} {t : ThreadId} {past : List (Hosted × Act)} {h : Heap}

theorem Starts.topped {me : Caller} {start : Vm × Store × Signal}
    (hs : i.Starts t past me start) : Vm.Topped start := by
  obtain ⟨-, -, -, -, rfl⟩ := hs
  exact Vm.topped_invoke rfl _

/-- What has been made for a future stays as long as the future is live. -/
theorem Ended.tells {w : World} {e : Ending}
    (hended : i.Ended t past (w.thread t).vm w.store.heap e)
    (hl : (w.published t i e).heap.Lasts h) (hclosed : h.Closed)
    (hlive : h.Live (w.tagged t e).2) :
    i.Tells t past (w.thread t).vm h (.ref (w.tagged t e).2) := by
  have hresult := hl.settled (Object.settled_result _ _) (World.object?_published_result w t i e)
    hlive
  have hpayload : h.Holds (w.verdict t e).2.2.2 :=
    hclosed _ _ hresult _ (List.mem_singleton.2 rfl)
  have hkept : ∀ {c : CellId} {f : Failure}, (w.verdict t e).2.2.2 = .ref c →
      (w.published t i e).heap.object? c = some (.error f) → h.object? c = some (.error f) :=
    fun hc ho => hl.settled (Object.settled_error _) ho (hpayload _ hc)
  cases e with
  | returned =>
    obtain ⟨me, start, trace, s, x, hstarts, hruns, hs⟩ := hended
    obtain ⟨herror, v, hv, hfailed⟩ := hruns.top hstarts.topped
    have hverdict : (w.verdict t .returned).2.2 = ((w.thread t).vm.error, v) := by
      rw [World.verdict, hv]
      rfl
    rw [hverdict] at hresult hpayload
    refine .returned hstarts hruns herror hv (fun f hf => ?_) hresult
    obtain ⟨c, rfl, ho⟩ := hfailed f hf
    have hlasts := (hs.trans (.of_evolves (World.evolves_published w t i .returned))).trans hl
    exact ⟨c, rfl, hlasts.settled (Object.settled_error _) ho (hpayload c rfl)⟩
  | panicked p =>
    obtain ⟨me, start, trace, s, hstarts, harrives⟩ := hended
    refine .panicked hstarts harrives p.quoted_message (hkept rfl ?_) hresult
    refine (Store.evolves_resolve (w.tagged t (.panicked p)).1 i.future _).settled
      (Object.settled_error _) ?_
    exact (Heap.evolves_alloc _ _).settled (Object.settled_error _) (Store.object?_make _ _ _)

/-- What an isolate has reported. -/
theorem Reported.published (hr : i.Reported t past h) (hclosed : h.Closed)
    (hfuture : ∀ pub ∈ publications t past, (pub.world.thread t).role = .isolate i →
      (pub.world.control t).released = false →
      ∃ slot, pub.world.store.heap.object? i.future = some (.future slot)) :
    i.Published t past h := by
  obtain ⟨pub, e, hpub, hrole, hc, hended, hlasts⟩ := hr
  obtain ⟨slot, hslot⟩ := hfuture pub (by simp [hpub]) hrole (by rw [hc]; rfl)
  refine ⟨pub, slot, hpub, hslot, fun hlive => ?_⟩
  have hvalue := hlasts.settled (Object.settled_future _)
    (World.object?_published_future pub.world t i e hslot) hlive
  refine ⟨_, hvalue, ?_⟩
  cases slot with
  | some v => exact .inl rfl
  | none =>
    refine .inr ⟨rfl, hended.tells hlasts hclosed ?_⟩
    exact hclosed _ _ hvalue _ (List.mem_singleton.2 rfl) _ rfl

end Isolate

end ScriptCore
