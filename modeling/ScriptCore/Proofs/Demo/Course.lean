import ScriptCore.Proofs.Demo.Isolates
import ScriptCore.Proofs.Join.Completion
import ScriptCore.Proofs.Rendezvous.StopTheWorld
import ScriptCore.Proofs.World.Panics

/-!
# The course of the demonstration

The demonstration under every schedule: its main thread and its isolates make their steps in any
order, and time passes between them. There is nothing to interleave before the first isolate, so a
course begins with the main thread set up.

* `State`, `Moves`: the main thread's program and all that can happen;
* `Crew`: the isolates, and that they own everything but the two functions;
* `Crew.turn`, `Crew.launch`: a step of an isolate, and a new isolate;
* `Front`: what the main thread is at;
* `Good`: the invariant; `Good.moves`: every move keeps it.
-/

namespace ScriptCore

open World

/-! ### What a schedule does on its own -/

/-- Only the clock, the line and the counts of steps differ. -/
structure World.Rescheduled (w w' : World) : Prop where
  store : w'.store = { w.store with now := w'.store.now }
  size : w'.threads.size = w.threads.size
  thread : ∀ t, ∃ n, w'.thread t = { w.thread t with spent := n }

namespace World.Rescheduled

variable {w w' w'' : World}

theorem refl (w : World) : w.Rescheduled w := ⟨rfl, rfl, fun t => ⟨(w.thread t).spent, rfl⟩⟩

theorem trans (h : w.Rescheduled w') (h' : w'.Rescheduled w'') : w.Rescheduled w'' where
  store := by rw [h'.store, h.store]
  size := h'.size.trans h.size
  thread t := by
    obtain ⟨n, hn⟩ := h.thread t
    obtain ⟨n', hn'⟩ := h'.thread t
    exact ⟨n', by rw [hn', hn]⟩

theorem control (h : w.Rescheduled w') (t : ThreadId) : w'.control t = w.control t := by
  obtain ⟨n, hn⟩ := h.thread t
  rw [World.control, hn, World.control]

theorem sound {own : Ledger} (h : w.Rescheduled w') (hw : w.Sound own none) :
    w'.Sound own none := by
  have hc : w'.store.collector = w.store.collector := by rw [h.store]
  have hg : w'.store.globals = w.store.globals := by rw [h.store]
  have hneutral := hw.neutral hc hg
  refine ⟨hneutral.tidy, hneutral.closed, ?_, hneutral.fresh, hneutral.globals, ?_, ?_, ?_, ?_, ?_⟩
  · intro id holder hmem v hv
    refine hneutral.held id holder hmem v ?_
    cases holder with
    | stack t =>
      obtain ⟨n, hn⟩ := h.thread t
      rw [heldBy, hn] at hv
      exact hv
    | globals => exact hv
    | pinned vs => exact hv
  · intro t s hs
    obtain ⟨n, hn⟩ := h.thread t
    rw [hn] at hs
    exact hneutral.storage t s hs
  · intro t u s hs hs'
    obtain ⟨n, hn⟩ := h.thread t
    obtain ⟨n', hn'⟩ := h.thread u
    rw [hn] at hs
    rw [hn'] at hs'
    exact hneutral.storage_inj t u s hs hs'
  · intro t r hr
    obtain ⟨n, hn⟩ := h.thread t
    rw [hn] at hr
    exact hneutral.root t r hr
  · intro t i hi
    obtain ⟨n, hn⟩ := h.thread t
    rw [hn] at hi
    exact hneutral.transfer t i hi
  · intro t _
    obtain ⟨n, hn⟩ := h.thread t
    have hstands : (w.thread t).control.Stands own w'.store.collector t (w.thread t) :=
      hneutral.stands t (by simp)
    rw [hn]
    revert hstands
    show _ → (w.thread t).control.Stands own w'.store.collector t { w.thread t with spent := n }
    cases (w.thread t).control <;> exact id

theorem balanced {stops : Nat} (h : w.Rescheduled w') (hw : w.Balanced stops) :
    w'.Balanced stops := by
  refine hw.of_counted h.size ?_ fun t => ?_
  · rw [sync, sync, h.store]
  · obtain ⟨n, hn⟩ := h.thread t
    rw [hn]
    exact ⟨rfl, rfl, rfl⟩

end World.Rescheduled

namespace Demo

/-! ### The moves -/

/-- What the main thread's program has come to. -/
inductive Phase
  /-- Between two isolates. -/
  | launching
  /-- It has asked for an isolate. -/
  | starting
  | joining
  /-- It has printed these lines. -/
  | over (lines : List String)
  | broken (b : Breakdown)
  deriving DecidableEq, Repr

/-- The world, and the variables of the main thread's program. -/
structure State where
  world : World
  doubling : Value
  breaking : Value
  futures : Array Value := #[]
  phase : Phase := .launching

/-- The function that an isolate is to run. -/
def State.function (s : State) (k j : Nat) : Value := if fails k j then s.breaking else s.doubling

/-- The main thread has a machine and the two functions. -/
def opening (store : Store) : State :=
  let w := (World.addHost { store }).1
  let w := (w.assign 0 .enroll).step 0
  let w := (w.assign 0 .equip).step 0
  let (w, doubling) := define w 0 double
  let (w, breaking) := define w 0 broken
  { world := w.setControl 0 .idle, doubling, breaking }

/-- A state with a task for the main thread. -/
def State.assign (s : State) (r : Request) (phase : Phase) : State :=
  { s with world := s.world.assign 0 (.request r), phase }

/-- All that can happen. Whether there is memory for the table of futures is left open. -/
inductive Moves (o : Options) : State → State → Prop
  /-- A thread that can makes a step. -/
  | step {s : State} {t : ThreadId} : s.world.ready t = true →
      Moves o s { s with world := s.world.step t }
  /-- Time passes. -/
  | pass {s : State} {w : World} : s.world.Rescheduled w → Moves o s { s with world := w }
  /-- The main thread asks for the next isolate. -/
  | launch {s : State} : s.phase = .launching → s.futures.size < o.isolates.toNat →
      Moves o s (s.assign (.start (s.function o.failEvery.toNat s.futures.size)
        #[.int (Int64.ofNat s.futures.size)]) .starting)
  /-- It has the future, which goes to its stack. -/
  | started {s : State} {f : Value} : s.phase = .starting →
      s.world.control 0 = .finished (.value f) →
      Moves o s { s with
        world := (s.world.setControl 0 .idle).setVm 0 ((s.world.thread 0).vm.push f)
        futures := s.futures.push f
        phase := .launching }
  | join {s : State} : s.phase = .launching → s.futures.size = o.isolates.toNat →
      Moves o s (s.assign (.join s.futures s.world.store.isolates.poll true) .joining)
  | finish {s : State} {results : Array Value} : s.phase = .joining →
      s.world.control 0 = .finished (.values results) →
      Moves o s { s with phase := .over (summary s.world results) }
  /-- Neither an isolate nor the join may fail. -/
  | fail {s : State} {c : Cause} : s.phase = .starting ∨ s.phase = .joining →
      s.world.control 0 = .finished (.failed c) → Moves o s { s with phase := .broken (.failed c) }
  | panic {s : State} {p : Panic} : s.phase = .starting →
      s.world.control 0 = .finished (.panicked p) →
      Moves o s { s with phase := .broken (.panicked p) }

/-! ### The isolates -/

/-- The function with which the isolate with number `j` has been started. -/
def target (k : Nat) (d b : CellId) (j : Nat) : CellId := if fails k j then b else d

/-- The isolates that have been started, with their futures in order. Together they own everything
that has been allocated, the two functions apart. -/
structure Crew (k : Nat) (d b : CellId) (cells : List CellId) (w : World) : Prop where
  doubling : w.store.heap.object? d = some (.function double)
  breaking : w.store.heap.object? b = some (.function broken)
  host : (w.thread 0).role = .host
  size : w.threads.size = cells.length + 1
  distinct : cells.Nodup
  isolate : ∀ j c, cells[j]? = some c → ∃ i, (w.thread (j + 1)).role = .isolate i ∧ i.future = c ∧
    i.function = .ref (target k d b j) ∧ i.args = #[.int (Int64.ofNat j)] ∧
    Stage k j (target k d b j) w.store.heap i (w.thread (j + 1))
  mortal : ∀ c, w.store.heap.Mortal c → c = d ∨ c = b ∨
    ∃ j i, (w.thread (j + 1)).role = .isolate i ∧ Owns w.store.heap i (w.thread (j + 1)) c
  count : w.store.collector.allocCount = 2 + w.total Thread.cells
  freed : w.store.collector.freed = 0
  isolates : w.store.isolates = {}
  supplied : w.store.shortage = none
  locks : w.store.locks = #[]

namespace Crew

variable {k : Nat} {d b : CellId} {cells : List CellId} {w w' : World} {own : Ledger}

theorem object?_target (h : Crew k d b cells w) (j : Nat) :
    w.store.heap.object? (target k d b j) = some (.function (code k j)) := by
  unfold target code
  split
  · exact h.breaking
  · exact h.doubling

/-- Isolates only come and go on their own. -/
theorem of_still (h : Crew k d b cells w) (hstill : w.store.Still w'.store)
    (hsize : w'.threads.size = w.threads.size) (hhost : (w'.thread 0).role = .host)
    (hthread : ∀ j, ∃ n, w'.thread (j + 1) = { w.thread (j + 1) with spent := n }) :
    Crew k d b cells w' := by
  have hspares : ∀ g, w.store.heap.Spares g w'.store.heap := fun _ c o _ ho =>
    (hstill.object c).trans ho
  refine ⟨(hstill.object d).trans h.doubling, (hstill.object b).trans h.breaking, hhost,
    hsize.trans h.size, h.distinct, fun j c hc => ?_, fun c hc => ?_, ?_,
    hstill.freed.trans h.freed, hstill.isolates.trans h.isolates,
    hstill.shortage.trans h.supplied, hstill.locks.trans h.locks⟩
  · obtain ⟨i, hrole, hfuture, hfunction, hargs, hstage⟩ := h.isolate j c hc
    obtain ⟨n, hn⟩ := hthread j
    have hstage' := hstage.mono (hspares (i.future + 1)) (Nat.succ_ne_self _).symm
    rw [hn]
    exact ⟨i, hrole, hfuture, hfunction, hargs, hstage'.respent n⟩
  · refine (h.mortal c (hstill.mortal c hc)).imp_right (Or.imp_right ?_)
    rintro ⟨j, i, hrole, howns⟩
    obtain ⟨n, hn⟩ := hthread j
    refine ⟨j, i, ?_, ?_⟩
    · rw [hn]
      exact hrole
    · rw [hn]
      exact howns.mono (hspares c)
  · rw [hstill.count, h.count]
    refine congrArg (2 + ·) (total_congr hsize fun t => ?_).symm
    cases t with
    | zero => rw [Thread.cells, Thread.cells, hhost, h.host]
    | succ j =>
      obtain ⟨n, hn⟩ := hthread j
      rw [hn]
      rfl

/-- An isolate has its number and its future. -/
theorem known (h : Crew k d b cells w) {j : Nat} {i : Isolate}
    (hrole : (w.thread (j + 1)).role = .isolate i) : cells[j]? = some i.future ∧
      i.function = .ref (target k d b j) ∧ i.args = #[.int (Int64.ofNat j)] ∧
      Stage k j (target k d b j) w.store.heap i (w.thread (j + 1)) := by
  have hj : j < cells.length := by
    have hlt := lt_size_of_role hrole
    rw [h.size] at hlt
    exact Nat.lt_of_succ_lt_succ hlt
  obtain ⟨i', hrole', hfuture, hrest⟩ := h.isolate j _ (List.getElem?_eq_getElem hj)
  obtain rfl : i = i' := by
    rw [hrole] at hrole'
    exact Role.isolate.inj hrole'
  exact ⟨by rw [List.getElem?_eq_getElem hj, hfuture], hrest⟩

/-- No two isolates share a future. -/
theorem future_ne (h : Crew k d b cells w) {j j' : Nat} {i i' : Isolate}
    (hrole : (w.thread (j + 1)).role = .isolate i)
    (hrole' : (w.thread (j' + 1)).role = .isolate i') (hne : j ≠ j') : i.future ≠ i'.future := by
  intro heq
  have hj := (h.known hrole).1
  have hj' := (h.known hrole').1
  rw [← heq] at hj'
  have hlt : j < cells.length := (List.getElem?_eq_some_iff.1 hj).1
  exact hne ((List.getElem?_inj hlt h.distinct).1 (hj.trans hj'.symm))

/-- A step of an isolate. -/
theorem turn (h : Crew k d b cells w) {j : Nat} {i : Isolate} {th : Thread}
    (hrole : (w.thread (j + 1)).role = .isolate i) (hturn : Turn own (j + 1) i w w' th)
    (hstage : Stage k j (target k d b j) w'.store.heap i th) : Crew k d b cells w' := by
  have hspares := hturn.objects
  have hmine := hturn.becomes.mine
  have hother : ∀ j', j' ≠ j → w'.thread (j' + 1) = w.thread (j' + 1) := fun j' hne =>
    hturn.becomes.others _ fun heq => hne (Nat.succ.inj heq)
  have hzero : w'.thread 0 = w.thread 0 := hturn.becomes.others 0 (Nat.succ_ne_zero j).symm
  refine ⟨hspares d _ (fun _ => nofun) h.doubling, hspares b _ (fun _ => nofun) h.breaking,
    hzero ▸ h.host, hturn.becomes.size.trans h.size, h.distinct, fun j' c hc => ?_, fun c hc => ?_,
    ?_, hturn.freed.trans h.freed, hturn.isolates.trans h.isolates,
    hturn.shortage.trans h.supplied, hturn.locks.trans h.locks⟩
  · obtain ⟨i', hrole', hfuture, hfunction, hargs, hstage'⟩ := h.isolate j' c hc
    by_cases hj : j' = j
    · subst hj
      obtain rfl : i = i' := by
        rw [hrole] at hrole'
        exact Role.isolate.inj hrole'
      rw [hmine]
      exact ⟨i, hturn.role.trans hrole, hfuture, hfunction, hargs, hstage⟩
    · rw [hother j' hj]
      exact ⟨i', hrole', hfuture, hfunction, hargs,
        hstage'.mono hspares (h.future_ne hrole' hrole hj)⟩
  · have hnew : Owns w'.store.heap i th c → c = d ∨ c = b ∨ ∃ j i,
        (w'.thread (j + 1)).role = .isolate i ∧ Owns w'.store.heap i (w'.thread (j + 1)) c := by
      intro howns
      refine .inr (.inr ⟨j, i, ?_, ?_⟩)
      · rw [hmine]
        exact hturn.role.trans hrole
      · rw [hmine]
        exact howns
    rcases hturn.mortal c hc with hold | howns
    · rcases h.mortal c hold with rfl | rfl | ⟨j', i', hrole', howns⟩
      · exact .inl rfl
      · exact .inr (.inl rfl)
      · by_cases hj : j' = j
        · subst hj
          obtain rfl : i = i' := by
            rw [hrole] at hrole'
            exact Role.isolate.inj hrole'
          exact hnew (hturn.owns c howns)
        · refine .inr (.inr ⟨j', i', ?_, ?_⟩)
          · rw [hother j' hj]
            exact hrole'
          · rw [hother j' hj]
            exact howns.mono hspares
    · exact hnew howns
  · have htotal : w'.total Thread.cells + (w.thread (j + 1)).cells =
        w.total Thread.cells + th.cells := by
      have hall := total_turn (lt_size_of_role hrole) hturn.becomes.size.ge (f := Thread.cells)
        fun u hu _ => hturn.becomes.others u hu
      rwa [hturn.becomes.size, Finset.Ico_self, Finset.sum_empty, Nat.add_zero, hmine] at hall
    have hcount := hturn.count
    have hold := h.count
    omega

/-- A new isolate, with a new future. -/
theorem launch (h : Crew k d b cells w) (name : String) {j : Nat} (hj : j = cells.length) :
    Crew k d b (cells ++ [w.store.heap.size])
      (w.bearing 0 (.ref (target k d b j)) #[.int (Int64.ofNat j)] name) := by
  subst hj
  let i := w.offspring (.ref (target k d b cells.length)) #[.int (Int64.ofNat cells.length)]
  let w' := w.bearing 0 (.ref (target k d b cells.length)) #[.int (Int64.ofNat cells.length)] name
  have hheap : w'.store.heap = (w.store.heap.alloc { object := .future none }).1 := rfl
  have hspares : ∀ g, w.store.heap.Spares g w'.store.heap := by
    intro g c o _ ho
    rw [hheap, Heap.object?_alloc, if_neg (Heap.lt_size_of_object? ho).ne, ho]
  have hthread : ∀ u, w'.thread u = if u = w.threads.size then
      { name, role := .isolate i, control := .enrolling } else w.thread u :=
    thread_bearing w 0 _ _ name
  have hmine : w'.thread (cells.length + 1) =
      { name, role := .isolate i, control := .enrolling } := by
    rw [hthread, if_pos h.size.symm]
  have hother : ∀ j, j ≠ cells.length → w'.thread (j + 1) = w.thread (j + 1) := by
    intro j hj
    rw [hthread, if_neg]
    rw [h.size]
    exact fun heq => hj (Nat.succ.inj heq)
  have hfresh : ∀ c ∈ cells, c < w.store.heap.size := by
    intro c hc
    obtain ⟨j, hj⟩ := List.mem_iff_getElem?.1 hc
    obtain ⟨i', -, rfl, -, -, hstage⟩ := h.isolate j c hj
    obtain ⟨slot, hslot⟩ := hstage.exists_future
    exact Heap.lt_size_of_object? hslot
  refine ⟨hspares 0 d _ (fun _ => nofun) h.doubling, hspares 0 b _ (fun _ => nofun) h.breaking, ?_,
    ?_, ?_, fun j c hc => ?_, fun c hc => ?_, ?_, h.freed, h.isolates, h.supplied, h.locks⟩
  · rw [hthread, if_neg, h.host]
    rw [h.size]
    exact (Nat.succ_ne_zero _).symm
  · rw [size_bearing, h.size, List.length_append, List.length_singleton]
  · rw [List.nodup_append]
    refine ⟨h.distinct, List.nodup_singleton _, fun c hc c' hc' heq => ?_⟩
    rw [heq, List.mem_singleton.1 hc'] at hc
    exact lt_irrefl _ (hfresh _ hc)
  · by_cases hj : j = cells.length
    · subst hj
      obtain rfl : w.store.heap.size = c := by simpa using hc
      rw [hmine]
      refine ⟨i, rfl, rfl, rfl, rfl, .early (.inl rfl) rfl ?_⟩
      exact (Heap.object?_alloc _ _ _).trans (if_pos rfl)
    · have hlt : j < cells.length := by
        have hlen := (List.getElem?_eq_some_iff.1 hc).1
        rw [List.length_append, List.length_singleton] at hlen
        exact Nat.lt_of_le_of_ne (Nat.le_of_lt_succ hlen) hj
      rw [List.getElem?_append_left hlt] at hc
      obtain ⟨i', hrole, hfuture, hfunction, hargs, hstage⟩ := h.isolate j c hc
      rw [hother j hj]
      refine ⟨i', hrole, hfuture, hfunction, hargs, hstage.mono (hspares w.store.heap.size) ?_⟩
      obtain ⟨slot, hslot⟩ := hstage.exists_future
      exact (Heap.lt_size_of_object? hslot).ne
  · have hc' : (w.store.heap.alloc { object := .future none }).1.Mortal c := hc
    rw [Heap.mortal_alloc rfl] at hc'
    rcases hc' with rfl | hold
    · exact .inr (.inr ⟨cells.length, i, by rw [hmine], .inl rfl⟩)
    · refine (h.mortal c hold).imp_right (Or.imp_right ?_)
      rintro ⟨j, i', hrole, howns⟩
      have hj : j ≠ cells.length := by
        have hlt := lt_size_of_role hrole
        rw [h.size] at hlt
        exact (Nat.lt_of_succ_lt_succ hlt).ne
      rw [← hother j hj] at hrole howns
      exact ⟨j, i', hrole, howns.mono (hspares c)⟩
  · have htotal : w'.total Thread.cells = w.total Thread.cells + 1 :=
      total_add Thread.cells (w.anchored 0 _ _) _
    have hcount : w'.store.collector.allocCount = w.store.collector.allocCount + 1 := rfl
    rw [hcount, h.count, htotal, Nat.add_assoc]

/-- The time, and whether someone is starting an isolate, play no part. -/
theorem withStore (h : Crew k d b cells w) (creating : Bool) (now : Nat) :
    Crew k d b cells { w with store := { w.store with creating, now } } :=
  { h with }

/-- A step of the main thread that allocates nothing. -/
theorem of_becomes (h : Crew k d b cells w) {th : Thread} (hbecomes : Becomes 0 th w w')
    (hhost : th.role = .host) (hstill : w.store.Still w'.store) : Crew k d b cells w' := by
  refine h.of_still hstill hbecomes.size (hbecomes.mine ▸ hhost) fun j => ?_
  exact ⟨(w.thread (j + 1)).spent, hbecomes.others _ (Nat.succ_ne_zero j)⟩

/-- As long as the main thread has all futures on its stack, the roots reach everything. -/
theorem rooted (h : Crew k d b cells w) (hsound : w.Sound own none)
    (hroot : (w.thread 0).root.isSome)
    (hstack : ∀ c, c = d ∨ c = b ∨ c ∈ cells → .ref c ∈ (w.thread 0).vm.stack) :
    ∀ c, w.store.heap.Mortal c → w.Rooted c := by
  have hheld : ∀ t c, (w.thread t).root.isSome → .ref c ∈ (w.thread t).vm.stack → w.Rooted c := by
    intro t c hroot hc
    obtain ⟨r, hr⟩ := Option.isSome_iff_exists.1 hroot
    exact rooted_of_held (hsound.root t r hr).1 (Array.mem_toList_iff.2 hc)
  intro c hc
  rcases h.mortal c hc with rfl | rfl | ⟨j, i, hrole, howns⟩
  · exact hheld 0 _ hroot (hstack _ (.inl rfl))
  · exact hheld 0 _ hroot (hstack _ (.inr (.inl rfl)))
  · obtain ⟨hfuture, -, -, hstage⟩ := h.known hrole
    have hrooted : w.Rooted i.future :=
      hheld 0 _ hroot (hstack _ (.inr (.inr (List.mem_of_getElem? hfuture))))
    rcases howns with rfl | ⟨herror, hmem⟩ | ⟨r, e, v, hf, hr, hc⟩
    · exact hrooted
    · exact hheld (j + 1) c
        (hstage.rooted_of_error (hsound.stands (j + 1) (by simp)) herror hmem) hmem
    · have hresult : w.Rooted r := hrooted.step ⟨_, hf, by simp [Object.edges]⟩
      rcases hc with rfl | rfl
      · exact hresult
      · exact hresult.step ⟨_, hr, by simp [Object.edges]⟩

end Crew

/-! ### The main thread -/

/-- With the usual settings an isolate can be started while there are threads. -/
theorem launch_eq {w : World} (hisolates : w.store.isolates = {})
    (hsupply : w.store.shortage = none) (t : ThreadId) (function : Value) (args : Array Value)
    (k : Consumer) : ∃ name, w.launch t function args k =
      (w.bearing t function args name).deliver t k (.value (.ref w.store.heap.size)) := by
  have hnameable : w.store.Nameable := by
    rw [Store.Nameable, hisolates]
    decide
  exact ⟨_, launch_granted (hnameable.threadName _) hsupply t function args k⟩

/-- The values of futures, in this order. -/
def Collected (h : Heap) (order : List CellId) (vs : List Value) : Prop :=
  List.Forall₂ (fun c v => h.resolved? c = some v) order vs

theorem Collected.mono {h h' : Heap} {order : List CellId} {vs : List Value}
    (hc : Collected h order vs)
    (hresolved : ∀ c v, h.resolved? c = some v → h'.resolved? c = some v) :
    Collected h' order vs :=
  hc.imp hresolved

/-- A pass collects what has arrived. -/
theorem collected_arrived (h : Heap) (pending : List CellId) :
    Collected h (pending.filter fun c => (h.resolved? c).isSome) (Join.arrived h pending) := by
  induction pending with
  | nil => exact .nil
  | cons c pending ih =>
    unfold Join.arrived
    cases hc : h.resolved? c with
    | none =>
      rw [List.filter_cons_of_neg (by simp [hc]), List.filterMap_cons_none hc]
      exact ih
    | some v =>
      rw [List.filter_cons_of_pos (by simp [hc]), List.filterMap_cons_some hc]
      exact .cons hc ih

/-- A join under way has the values of some futures and waits for all others. -/
structure Seen (w : World) (cells : List CellId) (j : Join) : Prop where
  tagged : j.tagged = true
  poll : 0 < j.poll
  results : ∃ vs order, (j.results, .pinned vs) ∈ w.store.collector.roots ∧
    (order ++ j.pending).Perm cells ∧ Collected w.store.heap order vs.toList

/-- A value of a future stays. -/
theorem resolved?_of_spares {h h' : Heap} {g : CellId} (hspares : h.Spares g h') {c : CellId}
    {v : Value} (hc : h.resolved? c = some v) : h'.resolved? c = some v := by
  have hobject := JoinCall.resolved?_eq_some_iff.1 hc
  exact JoinCall.resolved?_eq_some_iff.2 (hspares c _ (fun _ => by simp) hobject)

/-- It waits for futures of isolates. -/
theorem Seen.mem {w : World} {cells : List CellId} {j : Join} (hs : Seen w cells j) {f : CellId}
    (hf : f ∈ j.pending) : f ∈ cells := by
  obtain ⟨vs, order, -, hperm, -⟩ := hs.results
  exact hperm.mem_iff.1 (List.mem_append_right order hf)

theorem Seen.mono {w w' : World} {cells : List CellId} {j : Join} (hs : Seen w cells j)
    (hresolved : ∀ c v, w.store.heap.resolved? c = some v → w'.store.heap.resolved? c = some v)
    (hroots : ∀ holder, (j.results, holder) ∈ w.store.collector.roots →
      (j.results, holder) ∈ w'.store.collector.roots) : Seen w' cells j := by
  obtain ⟨vs, order, hmem, hperm, hcollected⟩ := hs.results
  exact ⟨hs.tagged, hs.poll, vs, order, hroots _ hmem, hperm, hcollected.mono hresolved⟩

theorem still_setPinned (w : World) (id : RootId) (vs : Array Value) :
    w.store.Still (w.setPinned id vs).store :=
  .of_heap rfl

/-- A pass of a join either has everything or waits for the first future that is missing. -/
theorem joinPass_seen {w : World} {cells : List CellId} {j : Join} (hs : Seen w cells j)
    (hids : (w.store.collector.roots.map (·.1)).Nodup) :
    (∃ results order, w.joinPass 0 j .host = ((w.dropRoot j.results).dropRoot j.anchor).setControl 0
        (.finished (.values results)) ∧
      order.Perm cells ∧ Collected w.store.heap order results.toList) ∨
    ∃ vs f rest, Join.missing w.store.heap j.pending = f :: rest ∧ w.joinPass 0 j .host =
        (w.setPinned j.results vs).block 0 (.resolvedBy f (w.store.now + j.poll))
          (.join { j with pending := f :: rest } .host) ∧
      Seen (w.setPinned j.results vs) cells { j with pending := f :: rest } := by
  obtain ⟨vs, order, hmem, hperm, hcollected⟩ := hs.results
  let arrived := j.pending.filter fun c => (w.store.heap.resolved? c).isSome
  let vs' := vs ++ (Join.arrived w.store.heap j.pending).toArray
  have hpinned : w.store.collector.pinned j.results ++
      (Join.arrived w.store.heap j.pending).toArray = vs' := by
    rw [Collector.pinned_eq hids hmem]
  have hcollected' : Collected w.store.heap (order ++ arrived) vs'.toList := by
    rw [Array.toList_append]
    exact List.rel_append hcollected (collected_arrived _ _)
  have hperm' : ((order ++ arrived) ++ Join.missing w.store.heap j.pending).Perm cells := by
    refine List.Perm.trans ?_ hperm
    rw [List.append_assoc]
    refine List.Perm.append_left order ?_
    have hsplit := List.filter_append_perm (fun c => (w.store.heap.resolved? c).isSome) j.pending
    simpa only [arrived, Join.missing, Option.not_isSome] using hsplit
  cases hmissing : Join.missing w.store.heap j.pending with
  | nil =>
    refine .inl ⟨vs', order ++ arrived, ?_, ?_, hcollected'⟩
    · unfold World.joinPass
      simp only [hmissing, hs.tagged, if_true, hpinned]
      rfl
    · rwa [hmissing, List.append_nil] at hperm'
  | cons f rest =>
    refine .inr ⟨vs', f, rest, rfl, ?_, hs.tagged, hs.poll, vs', order ++ arrived, ?_, ?_,
      hcollected'⟩
    · unfold World.joinPass
      simp only [hmissing, hpinned]
      rfl
    · exact List.mem_map.2 ⟨_, hmem, if_pos rfl⟩
    · rwa [hmissing] at hperm'

/-- Where a pass leads. -/
inductive Passed (cells : List CellId) (j : Join) (w w' : World) : Control → Prop
  | complete {results : Array Value} {order : List CellId} : order.Perm cells →
      Collected w'.store.heap order results.toList →
      Passed cells j w w' (.finished (.values results))
  | waiting {f : CellId} {rest : List CellId} : Join.missing w.store.heap j.pending = f :: rest →
      Seen w' cells { j with pending := f :: rest } →
      Passed cells j w w' (.blocked (.resolvedBy f (w'.store.now + j.poll))
        (.join { j with pending := f :: rest } .host))

theorem passed_joinPass {w w₁ : World} {cells : List CellId} {j : Join}
    (ht : 0 < w.threads.size) (hthreads : w₁.threads = w.threads)
    (hstill : w.store.Still w₁.store) (hs : Seen w₁ cells j)
    (hids : (w₁.store.collector.roots.map (·.1)).Nodup) :
    ∃ c, Passed cells j w (w₁.joinPass 0 j .host) c ∧
      Becomes 0 { w.thread 0 with control := c } w (w₁.joinPass 0 j .host) ∧
      w.store.Still (w₁.joinPass 0 j .host).store := by
  rcases joinPass_seen hs hids with
    ⟨results, order, hpass, hperm, hcollected⟩ | ⟨vs, f, rest, hmissing, hpass, hseen⟩
  · have hdropped : w₁.store.Still ((w₁.dropRoot j.results).dropRoot j.anchor).store :=
      (still_dropRoot w₁ _).trans (still_dropRoot _ _)
    rw [hpass]
    refine ⟨_, .complete hperm (hcollected.mono fun c v hv => ?_), becomes_setControl ?_ ht _,
      hstill.trans hdropped⟩
    · exact (hdropped.resolved? c).trans hv
    · rw [threads_dropRoot, threads_dropRoot, hthreads]
  · have hparked : w₁.store.Still ((w₁.setPinned j.results vs).park 0).store :=
      (still_setPinned w₁ _ _).trans (still_park _ 0)
    have hmissing' : Join.missing w.store.heap j.pending = f :: rest := by
      rw [← hmissing]
      exact (List.filter_congr fun c _ => by rw [hstill.resolved?]).symm
    have hseen' : Seen (w₁.joinPass 0 j .host) cells { j with pending := f :: rest } := by
      rw [hpass]
      have hpark := still_park (w₁.setPinned j.results vs) 0
      refine hseen.mono (fun c v hv => (hpark.resolved? c).trans hv) fun _ hr => ?_
      exact (park_same (w₁.setPinned j.results vs) 0).2.2.symm ▸ hr
    have hnow : (w₁.joinPass 0 j .host).store.now = w₁.store.now := by
      rw [hpass]
      exact hparked.now
    refine ⟨_, .waiting hmissing' hseen', ?_, ?_⟩
    · rw [hnow, hpass]
      refine becomes_setControl ?_ ht _
      rw [threads_park]
      exact hthreads
    · rw [hpass]
      exact hstill.trans hparked

/-- What the main thread is at, when these are the futures of all isolates. -/
inductive Front (o : Options) (cells : List CellId) (s : State) : Prop
  | launching : s.phase = .launching → s.world.control 0 = .idle →
      s.world.store.creating = false → s.futures = (cells.map .ref).toArray →
      cells.length ≤ o.isolates.toNat → Front o cells s
  | asked : s.phase = .starting → s.world.control 0 = .blocked .creation
        (.start (s.function o.failEvery.toNat cells.length) #[.int (Int64.ofNat cells.length)]
          .host) →
      s.world.store.creating = false → s.futures = (cells.map .ref).toArray →
      cells.length < o.isolates.toNat → Front o cells s
  | admitted : s.phase = .starting → s.world.control 0 = .leaving .done
        (.start (s.function o.failEvery.toNat cells.length) #[.int (Int64.ofNat cells.length)]
          .host) →
      s.futures = (cells.map .ref).toArray → cells.length < o.isolates.toNat → Front o cells s
  | started {c : CellId} {rest : List CellId} : s.phase = .starting →
      s.world.control 0 = .finished (.value (.ref c)) → s.world.store.creating = false →
      cells = rest ++ [c] → s.futures = (rest.map .ref).toArray →
      cells.length ≤ o.isolates.toNat → Front o cells s
  | waiting {f : CellId} {deadline : Nat} {j : Join} : s.phase = .joining →
      s.world.control 0 = .blocked (.resolvedBy f deadline) (.join j .host) → f ∈ j.pending →
      Seen s.world cells j → s.futures = (cells.map .ref).toArray →
      cells.length = o.isolates.toNat → Front o cells s
  | passing {outcome : Outcome} {j : Join} : s.phase = .joining →
      s.world.control 0 = .leaving outcome (.join j .host) → Seen s.world cells j →
      s.futures = (cells.map .ref).toArray → cells.length = o.isolates.toNat → Front o cells s
  | complete {results : Array Value} {order : List CellId} : s.phase = .joining →
      s.world.control 0 = .finished (.values results) → order.Perm cells →
      Collected s.world.store.heap order results.toList → cells.length = o.isolates.toNat →
      Front o cells s

/-- What others do does not touch what the main thread is at. -/
theorem Front.aside {o : Options} {own : Ledger} {cells : List CellId} {s : State} {w : World}
    (h : Front o cells s) (hsound : s.world.Sound own none)
    (hcontrol : w.control 0 = s.world.control 0)
    (hcreating : w.store.creating = s.world.store.creating)
    (hresolved : ∀ c v, s.world.store.heap.resolved? c = some v →
      w.store.heap.resolved? c = some v)
    (hroots : ∀ r ∈ s.world.store.collector.roots, own r.1 = .join 0 →
      r ∈ w.store.collector.roots) : Front o cells { s with world := w } := by
  have hstands : (s.world.control 0).Stands own s.world.store.collector 0 (s.world.thread 0) :=
    hsound.stands 0 (by simp)
  cases h with
  | launching hp hc hf hfutures hle =>
    refine .launching ?_ (hcontrol.trans hc) (hcreating.trans hf) hfutures hle
    exact hp
  | asked hp hc hf hfutures hlt =>
    refine .asked ?_ (hcontrol.trans hc) (hcreating.trans hf) hfutures hlt
    exact hp
  | admitted hp hc hfutures hlt =>
    refine .admitted ?_ (hcontrol.trans hc) hfutures hlt
    exact hp
  | started hp hc hf hcells hfutures hle =>
    refine .started ?_ (hcontrol.trans hc) (hcreating.trans hf) hcells hfutures hle
    exact hp
  | waiting hp hc hmem hseen hfutures hlen =>
    rw [hc] at hstands
    refine .waiting ?_ (hcontrol.trans hc) hmem
      (hseen.mono hresolved fun _ hr => hroots _ hr hstands.1.2.2) hfutures hlen
    exact hp
  | passing hp hc hseen hfutures hlen =>
    rw [hc] at hstands
    refine .passing ?_ (hcontrol.trans hc)
      (hseen.mono hresolved fun _ hr => hroots _ hr hstands.1.2.2) hfutures hlen
    exact hp
  | complete hp hc hperm hcollected hlen =>
    refine .complete ?_ (hcontrol.trans hc) hperm (hcollected.mono hresolved) hlen
    exact hp

/-- A pass leaves the main thread in its join, or done with it. -/
theorem Passed.front {o : Options} {cells : List CellId} {s : State} {j : Join} {w w' : World}
    {c : Control} (h : Passed cells j w w' c) (hp : s.phase = .joining) (hc : w'.control 0 = c)
    (hfutures : s.futures = (cells.map .ref).toArray) (hlen : cells.length = o.isolates.toNat) :
    Front o cells { s with world := w' } := by
  cases h with
  | complete hperm hcollected =>
    refine .complete ?_ hc hperm hcollected hlen
    exact hp
  | waiting hmissing hseen =>
    refine .waiting ?_ hc List.mem_cons_self hseen hfutures hlen
    exact hp

/-- The invariant of a course. -/
structure Good (o : Options) (own : Ledger) (d b : CellId) (cells : List CellId) (s : State) :
    Prop where
  sound : s.world.Sound own none
  balanced : s.world.Balanced 0
  crew : Crew o.failEvery.toNat d b cells s.world
  equipped : (s.world.thread 0).Equipped
  doubling : s.doubling = .ref d
  breaking : s.breaking = .ref b
  stack : (s.world.thread 0).vm.stack = #[.ref d, .ref b] ++ s.futures
  front : Front o cells s

namespace Good

variable {o : Options} {own : Ledger} {d b : CellId} {cells : List CellId} {s : State}

theorem function_eq (h : Good o own d b cells s) (k j : Nat) :
    s.function k j = .ref (target k d b j) := by
  unfold State.function target
  rw [h.doubling, h.breaking]
  split <;> rfl

/-- When a collection sweeps, the main thread is parked and has all futures on its stack. -/
theorem rooted_of_sweeping (h : Good o own d b cells s) {t : ThreadId} {k : After}
    (hk : s.world.control t = .sweeping k) :
    ∀ c, s.world.store.heap.Mortal c → s.world.Rooted c := by
  have hparked : (s.world.control 0).parked = true :=
    (Bool.and_eq_true_iff.1 ((h.balanced.stopped hk).parked 0 h.equipped.1)).2
  have hfutures : s.futures = (cells.map .ref).toArray := by
    cases h.front with
    | launching _ hc | started _ hc | complete _ hc =>
      rw [hc] at hparked
      cases hparked
    | asked _ _ _ hf | admitted _ _ hf | waiting _ _ _ _ hf | passing _ _ _ hf => exact hf
  refine h.crew.rooted h.sound h.equipped.2 fun c hc => ?_
  rw [h.stack, hfutures]
  rcases hc with rfl | rfl | hc <;> simp
  exact .inr (.inr hc)

/-- Time passes. -/
theorem pass (h : Good o own d b cells s) {w : World} (hw : s.world.Rescheduled w) :
    Good o own d b cells { s with world := w } := by
  obtain ⟨n, hn⟩ := hw.thread 0
  refine ⟨hw.sound h.sound, hw.balanced h.balanced, ?_, ?_, h.doubling, h.breaking, ?_, ?_⟩
  · have hsame : Crew o.failEvery.toNat d b cells { w with store := s.world.store } := by
      refine h.crew.of_still (.refl _) hw.size ?_ fun j => hw.thread (j + 1)
      show (w.thread 0).role = .host
      rw [hn]
      exact h.crew.host
    have hpassed := hsame.withStore s.world.store.creating w.store.now
    rwa [show { s.world.store with creating := s.world.store.creating, now := w.store.now } =
      w.store from hw.store.symm] at hpassed
  · rw [hn]
    exact h.equipped
  · rw [hn]
    exact h.stack
  · refine h.front.aside h.sound (hw.control 0) ?_ (fun c v hc => ?_) fun r hr _ => ?_
    all_goals rw [hw.store]
    · exact hc
    · exact hr

/-- Every thread but the main one is an isolate, if it is there. -/
theorem isolate_of_ready (h : Good o own d b cells s) {t : ThreadId} (ht : t ≠ 0)
    (hready : s.world.ready t = true) : ∃ j i, t = j + 1 ∧ j < cells.length ∧
      (s.world.thread t).role = .isolate i := by
  obtain ⟨j, rfl⟩ := Nat.exists_eq_succ_of_ne_zero ht
  have hsize : j + 1 < s.world.threads.size := by
    refine lt_size_of_control fun hidle => ?_
    rw [World.ready, hidle] at hready
    cases hready
  rw [h.crew.size] at hsize
  have hj := Nat.lt_of_succ_lt_succ hsize
  obtain ⟨i, hrole, -⟩ := h.crew.isolate j _ (List.getElem?_eq_getElem hj)
  exact ⟨j, i, rfl, hj, hrole⟩

theorem length_le (h : Good o own d b cells s) : cells.length ≤ o.isolates.toNat := by
  cases h.front with
  | launching _ _ _ _ hle | started _ _ _ _ _ hle => exact hle
  | asked _ _ _ _ hlt | admitted _ _ _ hlt => exact hlt.le
  | waiting _ _ _ _ _ hlen | passing _ _ _ _ hlen | complete _ _ _ _ hlen => exact hlen.le

/-- A step of an isolate. -/
theorem turn (h : Good o own d b cells s) {t : ThreadId} (ht : t ≠ 0)
    (hready : s.world.ready t = true) (hN : ∀ j < o.isolates.toNat, 2 * j < 2 ^ 63) :
    ∃ own' i th, Good o own' d b cells { s with world := s.world.step t } ∧
      Turn own t i s.world (s.world.step t) th := by
  obtain ⟨j, i, rfl, hj, hrole⟩ := h.isolate_of_ready ht hready
  obtain ⟨-, hfunction, hargs, hstage⟩ := h.crew.known hrole
  obtain ⟨th, hturn, hstage'⟩ := hstage.turn h.sound hrole (h.crew.object?_target j) hfunction hargs
    (hN j (hj.trans_le h.length_le)) hready fun k hk => h.rooted_of_sweeping hk
  have hzero : (s.world.step (j + 1)).thread 0 = s.world.thread 0 := hturn.becomes.others 0 ht.symm
  have hplain : (s.world.control (j + 1)).plain = true := hstage.plain
  have hgiven : s.world.StepGiven (j + 1) := by
    unfold World.StepGiven
    split <;> rename_i hc <;> first
      | trivial
      | rw [World.control, hc] at hplain; cases hplain
  have hbalanced := h.balanced.step hready
  rw [if_neg fun hc => by rw [hc] at hplain; cases hplain] at hbalanced
  obtain ⟨own', -, hsound⟩ := h.sound.step_given (j + 1) hgiven
  refine ⟨own', i, th, ⟨hsound, hbalanced, h.crew.turn hrole hturn hstage', ?_, h.doubling,
    h.breaking, ?_, ?_⟩, hturn⟩
  · show ((s.world.step (j + 1)).thread 0).Equipped
    rw [hzero]
    exact h.equipped
  · show ((s.world.step (j + 1)).thread 0).vm.stack = _
    rw [hzero]
    exact h.stack
  · refine h.front.aside h.sound ?_ hturn.creating (fun c v => resolved?_of_spares hturn.objects)
      hturn.roots
    rw [World.control, hzero, World.control]

/-- A step of the main thread changes only what it is at. -/
theorem of_main (h : Good o own d b cells s) (hready : s.world.ready 0 = true)
    (hgiven : s.world.StepGiven 0) {c : Control} {cells' : List CellId}
    (hmine : (s.world.step 0).thread 0 = { s.world.thread 0 with control := c })
    (hcrew : Crew o.failEvery.toNat d b cells' (s.world.step 0))
    (hfront : Front o cells' { s with world := s.world.step 0 }) :
    ∃ own', Good o own' d b cells' { s with world := s.world.step 0 } := by
  have hbalanced := h.balanced.step hready
  have hpause : s.world.control 0 ≠ .lingering (.pause none) := by
    intro hc
    cases h.front with
    | launching _ hc' | asked _ hc' | admitted _ hc' | started _ hc' | waiting _ hc' | passing _ hc'
    | complete _ hc' =>
      rw [hc] at hc'
      cases hc'
  rw [if_neg hpause] at hbalanced
  obtain ⟨own', -, hsound⟩ := h.sound.step_given 0 hgiven
  refine ⟨own', hsound, hbalanced, hcrew, ?_, h.doubling, h.breaking, ?_, hfront⟩
  · show ((s.world.step 0).thread 0).Equipped
    rw [hmine]
    exact h.equipped
  · show ((s.world.step 0).thread 0).vm.stack = _
    rw [hmine]
    exact h.stack

theorem main_lt (h : Good o own d b cells s) : 0 < s.world.threads.size := by
  rw [h.crew.size]
  exact Nat.succ_pos _

/-- It may start an isolate now. -/
theorem begin_start (h : Good o own d b cells s) (hready : s.world.ready 0 = true) {k : After}
    (hc : s.world.control 0 = .blocked .creation k) :
    ∃ own', Good o own' d b cells { s with world := s.world.step 0 } ∧
      Becomes 0 { s.world.thread 0 with control := .leaving .done k } s.world (s.world.step 0) := by
  have hcontrol : (s.world.thread 0).control = .blocked .creation k := hc
  let w₁ := s.world.modifyStore fun s => { s with creating := true }
  have hstep : s.world.step 0 = w₁.setControl 0 (.leaving .done k) := by
    simp only [World.step, hcontrol, passWait]
    rfl
  have hthreads : w₁.threads = s.world.threads := rfl
  have hbecomes : Becomes 0 { s.world.thread 0 with control := .leaving .done k } s.world
      (s.world.step 0) := by
    rw [hstep]
    exact becomes_setControl hthreads h.main_lt _
  have hgiven : s.world.StepGiven 0 := by
    rw [World.StepGiven, hcontrol]
    trivial
  have hcrew : Crew o.failEvery.toNat d b cells (s.world.step 0) := by
    have hbecomes' : Becomes 0 { s.world.thread 0 with control := .leaving .done k } w₁
        (s.world.step 0) := ⟨hbecomes.mine, hbecomes.others, hbecomes.size⟩
    refine (h.crew.withStore true s.world.store.now).of_becomes hbecomes' h.crew.host ?_
    rw [hstep]
    exact .refl _
  have hfront : Front o cells { s with world := s.world.step 0 } := by
    have hc' : (s.world.step 0).control 0 = .leaving .done k := hbecomes.control
    cases h.front with
    | asked hp hfront _ hfutures hlt =>
      rw [hc] at hfront
      cases hfront
      exact .admitted hp hc' hfutures hlt
    | launching _ hc'' | admitted _ hc'' | started _ hc'' | waiting _ hc'' | passing _ hc''
    | complete _ hc'' =>
      rw [hc] at hc''
      cases hc''
  obtain ⟨own', hgood⟩ := h.of_main hready hgiven hbecomes.mine hcrew hfront
  exact ⟨own', hgood, hbecomes⟩

/-- It starts an isolate. -/
theorem bear (h : Good o own d b cells s) (hready : s.world.ready 0 = true) {function : Value}
    {args : Array Value} (hc : s.world.control 0 = .leaving .done (.start function args .host)) :
    ∃ own' c i name, Good o own' d b (cells ++ [c]) { s with world := s.world.step 0 } ∧
      (s.world.step 0).control 0 = .finished (.value (.ref c)) ∧
      ∀ u, u ≠ 0 → (s.world.step 0).thread u = if u = s.world.threads.size then
        { name, role := .isolate i, control := .enrolling } else s.world.thread u := by
  have hcontrol : (s.world.thread 0).control = _ := hc
  obtain ⟨hp, rfl, rfl, hfutures, hlt⟩ : s.phase = .starting ∧
      s.function o.failEvery.toNat cells.length = function ∧
      #[.int (Int64.ofNat cells.length)] = args ∧ s.futures = (cells.map .ref).toArray ∧
      cells.length < o.isolates.toNat := by
    cases h.front with
    | admitted hp hfront hfutures hlt =>
      rw [hc] at hfront
      cases hfront
      exact ⟨hp, rfl, rfl, hfutures, hlt⟩
    | launching _ hc' | asked _ hc' | started _ hc' | waiting _ hc' | passing _ hc'
    | complete _ hc' =>
      rw [hc] at hc'
      cases hc'
  rw [h.function_eq] at hc hcontrol
  let w₁ := s.world.unpark 0
  have hcrew₁ : Crew o.failEvery.toNat d b cells w₁ := by
    refine h.crew.of_still (still_unpark _ 0) (by rw [threads_unpark]) ?_ fun j => ?_
    · rw [thread_unpark]
      exact h.crew.host
    · exact ⟨(s.world.thread (j + 1)).spent, thread_unpark _⟩
  obtain ⟨name, hlaunch⟩ := launch_eq hcrew₁.isolates hcrew₁.supplied 0
    (.ref (target o.failEvery.toNat d b cells.length)) #[.int (Int64.ofNat cells.length)] .host
  let w₂ := w₁.bearing 0 (.ref (target o.failEvery.toNat d b cells.length))
    #[.int (Int64.ofNat cells.length)] name
  let c := w₁.store.heap.size
  let i := w₁.offspring (.ref (target o.failEvery.toNat d b cells.length))
    #[.int (Int64.ofNat cells.length)]
  have hstep : s.world.step 0 = w₂.setControl 0 (.finished (.value (.ref c))) := by
    simp only [World.step, hcontrol]
    exact hlaunch
  have hsize : w₁.threads.size ≠ 0 := by
    rw [hcrew₁.size]
    exact Nat.succ_ne_zero _
  have hthread : ∀ u, w₂.thread u = if u = w₁.threads.size then
      { name, role := .isolate i, control := .enrolling } else w₁.thread u :=
    thread_bearing w₁ 0 _ _ name
  have hzero : w₂.thread 0 = s.world.thread 0 := by
    rw [hthread, if_neg hsize.symm]
    exact thread_unpark _
  have hlt₂ : 0 < w₂.threads.size := by
    rw [size_bearing]
    exact Nat.succ_pos _
  have hbecomes : Becomes 0 { w₂.thread 0 with control := .finished (.value (.ref c)) } w₂
      (s.world.step 0) := by
    rw [hstep]
    exact becomes_setControl rfl hlt₂ _
  have hcrew : Crew o.failEvery.toNat d b (cells ++ [c]) (s.world.step 0) := by
    refine (hcrew₁.launch name rfl).of_becomes hbecomes ?_ ?_
    · exact hzero ▸ h.crew.host
    · rw [hstep]
      exact .refl _
  have hmine : (s.world.step 0).thread 0 =
      { s.world.thread 0 with control := .finished (.value (.ref c)) } := by
    rw [hbecomes.mine, hzero]
  have hcontrol' : (s.world.step 0).control 0 = .finished (.value (.ref c)) := by
    rw [World.control, hmine]
  have hgiven : s.world.StepGiven 0 := by
    rw [World.StepGiven, hcontrol]
    refine ⟨fun f hf => ?_, fun v hv => ?_⟩
    · cases hf
      exact Heap.live_iff_object?.2 ⟨_, h.crew.object?_target _⟩
    · simp only [List.mem_toArray, List.mem_singleton] at hv
      subst hv
      intro e he
      cases he
  have hfront : Front o (cells ++ [c]) { s with world := s.world.step 0 } := by
    have hcreating : (s.world.step 0).store.creating = false := by
      rw [hstep]
      rfl
    refine .started ?_ hcontrol' hcreating rfl hfutures ?_
    · exact hp
    · rw [List.length_append, List.length_singleton]
      exact hlt
  obtain ⟨own', hgood⟩ := h.of_main hready hgiven hmine hcrew hfront
  refine ⟨own', c, i, name, hgood, hcontrol', fun u hu => ?_⟩
  rw [hbecomes.others u hu, hthread, threads_unpark, thread_unpark]

/-- It goes on with the join. -/
theorem wake (h : Good o own d b cells s) (hready : s.world.ready 0 = true) {f : CellId}
    {deadline : Nat} {k : After} (hc : s.world.control 0 = .blocked (.resolvedBy f deadline) k) :
    ∃ own' outcome, Good o own' d b cells { s with world := s.world.step 0 } ∧
      Becomes 0 { s.world.thread 0 with control := .leaving outcome k } s.world
        (s.world.step 0) ∧ (s.world.step 0).store = s.world.store := by
  have hcontrol : (s.world.thread 0).control = .blocked (.resolvedBy f deadline) k := hc
  obtain ⟨outcome, hstep⟩ : ∃ outcome, s.world.step 0 =
      s.world.setControl 0 (.leaving outcome k) := by
    simp only [World.step, hcontrol, passWait]
    cases s.world.store.heap.resolved? f <;> exact ⟨_, rfl⟩
  have hbecomes : Becomes 0 { s.world.thread 0 with control := .leaving outcome k } s.world
      (s.world.step 0) := by
    rw [hstep]
    exact becomes_setControl rfl h.main_lt _
  have hgiven : s.world.StepGiven 0 := by
    rw [World.StepGiven, hcontrol]
    trivial
  have hstore : (s.world.step 0).store = s.world.store := by rw [hstep]; rfl
  have hcrew : Crew o.failEvery.toNat d b cells (s.world.step 0) :=
    h.crew.of_becomes hbecomes h.crew.host (hstore ▸ .refl _)
  have hfront : Front o cells { s with world := s.world.step 0 } := by
    have hc' : (s.world.step 0).control 0 = .leaving outcome k := hbecomes.control
    cases h.front with
    | waiting hp hfront _ hseen hfutures hlen =>
      rw [hc] at hfront
      cases hfront
      refine .passing ?_ hc' (hseen.mono (fun c v hv => hstore ▸ hv) fun _ hr => hstore ▸ hr)
        hfutures hlen
      exact hp
    | launching _ hc'' | asked _ hc'' | admitted _ hc'' | started _ hc'' | passing _ hc''
    | complete _ hc'' =>
      rw [hc] at hc''
      cases hc''
  obtain ⟨own', hgood⟩ := h.of_main hready hgiven hbecomes.mine hcrew hfront
  exact ⟨own', outcome, hgood, hbecomes, hstore⟩

/-- It makes a pass of the join. -/
theorem collects (h : Good o own d b cells s) (hready : s.world.ready 0 = true) {outcome : Outcome}
    {j : Join} (hc : s.world.control 0 = .leaving outcome (.join j .host)) :
    ∃ own' c, Good o own' d b cells { s with world := s.world.step 0 } ∧
      Becomes 0 { s.world.thread 0 with control := c } s.world (s.world.step 0) ∧
      Passed cells j s.world (s.world.step 0) c := by
  have hcontrol : (s.world.thread 0).control = .leaving outcome (.join j .host) := hc
  obtain ⟨hp, hseen, hfutures, hlen⟩ : s.phase = .joining ∧ Seen s.world cells j ∧
      s.futures = (cells.map .ref).toArray ∧ cells.length = o.isolates.toNat := by
    cases h.front with
    | passing hp hfront hseen hfutures hlen =>
      rw [hc] at hfront
      cases hfront
      exact ⟨hp, hseen, hfutures, hlen⟩
    | launching _ hc' | asked _ hc' | admitted _ hc' | started _ hc' | waiting _ hc'
    | complete _ hc' =>
      rw [hc] at hc'
      cases hc'
  let w₁ := s.world.unpark 0
  have hstill₁ : s.world.store.Still w₁.store := still_unpark _ 0
  have hroots₁ : w₁.store.collector.roots = s.world.store.collector.roots := (unpark_same _ 0).2.2
  have hseen₁ : Seen w₁ cells j := hseen.mono
    (fun c v hv => (hstill₁.resolved? c).trans hv) fun _ hr => hroots₁ ▸ hr
  have hids : (w₁.store.collector.roots.map (·.1)).Nodup := by
    rw [hroots₁]
    exact h.sound.tidy.rootIds
  have hstep : s.world.step 0 = w₁.joinPass 0 j .host := by
    simp only [World.step, hcontrol]
    rfl
  have hgiven : s.world.StepGiven 0 := by
    rw [World.StepGiven, hcontrol]
    trivial
  obtain ⟨c, hpassed, hbecomes, hstill⟩ :=
    passed_joinPass h.main_lt (threads_unpark _ 0) hstill₁ hseen₁ hids
  rw [← hstep] at hpassed hbecomes hstill
  obtain ⟨own', hgood⟩ := h.of_main hready hgiven hbecomes.mine
    (h.crew.of_becomes hbecomes h.crew.host hstill)
    (hpassed.front hp hbecomes.control hfutures hlen)
  exact ⟨own', c, hgood, hbecomes, hpassed⟩

/-- A thread at rest has the main thread's next task. -/
theorem spare (h : Good o own d b cells s) (hc : s.world.control 0 = .idle) : s.world.Spare 0 :=
  ⟨h.main_lt, h.crew.host, by rw [World.atRest, hc]⟩

/-- The main thread asks for something. -/
theorem of_assign (h : Good o own d b cells s) (hc : s.world.control 0 = .idle) {r : Request}
    (hr : r.Handed s.world.store.heap (s.world.thread 0)) (hcollect : r ≠ .collect) {phase : Phase}
    {c : Control}
    (hbecomes : Becomes 0 { s.world.thread 0 with control := c } s.world
      (s.world.assign 0 (.request r)))
    (hstill : s.world.store.Still (s.world.assign 0 (.request r)).store)
    (hfront : Front o cells (s.assign r phase)) :
    ∃ own', Good o own' d b cells (s.assign r phase) := by
  have hspare := h.spare hc
  have horderly : (Task.request r).Orderly (s.world.thread 0) := by
    cases r <;> first
      | exact absurd rfl hcollect
      | trivial
  have hbalanced := h.balanced.assign hspare horderly
  rw [if_neg (by simp)] at hbalanced
  have hallowed : (Task.request r).Allowed s.world.store.heap (s.world.thread 0) := hr
  obtain ⟨own', -, hsound⟩ := h.sound.assign hspare.host hallowed
  refine ⟨own', hsound, hbalanced, h.crew.of_becomes hbecomes h.crew.host hstill, ?_, h.doubling,
    h.breaking, ?_, hfront⟩
  · show ((s.world.assign 0 (.request r)).thread 0).Equipped
    rw [hbecomes.mine]
    exact h.equipped
  · show ((s.world.assign 0 (.request r)).thread 0).vm.stack = _
    rw [hbecomes.mine]
    exact h.stack

/-- It asks for the next isolate. -/
theorem launch (h : Good o own d b cells s) (hp : s.phase = .launching)
    (hlt : s.futures.size < o.isolates.toNat) {r : Request}
    (hr : r = .start (s.function o.failEvery.toNat s.futures.size)
      #[.int (Int64.ofNat s.futures.size)]) :
    ∃ own' c, Good o own' d b cells (s.assign r .starting) ∧
      Becomes 0 { s.world.thread 0 with control := c } s.world (s.world.assign 0 (.request r)) := by
  obtain ⟨hc, hcreating, hfutures⟩ : s.world.control 0 = .idle ∧
      s.world.store.creating = false ∧ s.futures = (cells.map .ref).toArray := by
    cases h.front with
    | launching _ hc hcreating hfutures => exact ⟨hc, hcreating, hfutures⟩
    | asked hp' | admitted hp' | started hp' | waiting hp' | passing hp' | complete hp' =>
      rw [hp] at hp'
      cases hp'
  have hsize : s.futures.size = cells.length := by simp [hfutures]
  rw [hsize] at hlt hr
  subst hr
  let r : Request :=
    .start (s.function o.failEvery.toNat cells.length) #[.int (Int64.ofNat cells.length)]
  have hhanded : r.Handed s.world.store.heap (s.world.thread 0) := by
    refine ⟨h.equipped.1, ?_, fun v hv => ?_⟩
    · rw [h.function_eq]
      exact Heap.holds_ref.2 (Heap.live_iff_object?.2 ⟨_, h.crew.object?_target _⟩)
    · simp only [List.mem_toArray, List.mem_singleton] at hv
      subst hv
      exact fun _ => nofun
  have hbecomes : Becomes 0 { s.world.thread 0 with control := _ } s.world
      (s.world.assign 0 (.request r)) := becomes_setControl (threads_park _ 0) h.main_lt _
  obtain ⟨own', hgood⟩ := h.of_assign hc hhanded nofun hbecomes (still_park _ 0)
    (.asked rfl (congrArg Thread.control hbecomes.mine)
      ((still_park s.world 0).creating.trans hcreating) hfutures hlt)
  exact ⟨own', _, hgood, hbecomes⟩

/-- The future goes to its stack. -/
theorem started (h : Good o own d b cells s) (hp : s.phase = .starting) {f : Value}
    (hc : s.world.control 0 = .finished (.value f)) :
    Good o own d b cells { s with
      world := (s.world.setControl 0 .idle).setVm 0 ((s.world.thread 0).vm.push f)
      futures := s.futures.push f
      phase := .launching } ∧
      Becomes 0 { s.world.thread 0 with control := .idle, vm := (s.world.thread 0).vm.push f }
        s.world ((s.world.setControl 0 .idle).setVm 0 ((s.world.thread 0).vm.push f)) := by
  obtain ⟨c, rest, rfl, hcreating, rfl, hfutures, hle⟩ : ∃ c rest, f = .ref c ∧
      s.world.store.creating = false ∧ cells = rest ++ [c] ∧
      s.futures = (rest.map .ref).toArray ∧ cells.length ≤ o.isolates.toNat := by
    cases h.front with
    | started _ hc' hcreating hcells hfutures hle =>
      rw [hc] at hc'
      cases hc'
      exact ⟨_, _, rfl, hcreating, hcells, hfutures, hle⟩
    | complete hp' | launching hp' | waiting hp' | passing hp' =>
      rw [hp] at hp'
      cases hp'
    | asked _ hc' | admitted _ hc' =>
      rw [hc] at hc'
      cases hc'
  have hrest : s.world.Spare 0 := ⟨h.main_lt, h.crew.host, by rw [World.atRest, hc]⟩
  have hlive : s.world.store.heap.Holds (.ref c) := by
    have hlast : (rest ++ [c])[rest.length]? = some c := by simp
    obtain ⟨i, -, rfl, -, -, hstage⟩ := h.crew.isolate _ _ hlast
    obtain ⟨slot, hslot⟩ := hstage.exists_future
    exact Heap.holds_ref.2 (Heap.live_iff_object?.2 ⟨_, hslot⟩)
  let vm := (s.world.thread 0).vm.push (.ref c)
  have hidle : Becomes 0 { s.world.thread 0 with control := .idle } s.world
      (s.world.setControl 0 .idle) := becomes_setControl rfl h.main_lt _
  have hbecomes : Becomes 0 { s.world.thread 0 with control := .idle, vm } s.world
      ((s.world.setControl 0 .idle).setVm 0 vm) :=
    hidle.modifyThread h.main_lt fun th => { th with vm }
  have hsound : ((s.world.setControl 0 .idle).setVm 0 vm).Sound own none := by
    have hset := ((h.sound.go 0).setControl (c := .idle) trivial).go 0
    refine (hset.setVm ((h.sound.holds_stack h.equipped.2).push hlive)).rest ?_
    rw [atRest_setVm, World.atRest, World.control, hidle.mine]
  refine ⟨⟨hsound, (h.balanced.spare hrest).setVm 0 vm,
    h.crew.of_becomes hbecomes h.crew.host (.refl _), ?_, h.doubling, h.breaking, ?_, ?_⟩, hbecomes⟩
  · show (((s.world.setControl 0 .idle).setVm 0 vm).thread 0).Equipped
    rw [hbecomes.mine]
    exact h.equipped
  · show (((s.world.setControl 0 .idle).setVm 0 vm).thread 0).vm.stack = _
    rw [hbecomes.mine]
    simp [vm, Vm.push, h.stack]
  · refine .launching rfl (congrArg Thread.control hbecomes.mine) hcreating ?_ hle
    simp [hfutures]

/-- It begins the join. -/
theorem join (h : Good o own d b cells s) (hp : s.phase = .launching)
    (hsize : s.futures.size = o.isolates.toNat) :
    ∃ own' j c, Good o own' d b cells
        (s.assign (.join s.futures s.world.store.isolates.poll true) .joining) ∧
      Becomes 0 { s.world.thread 0 with control := c } s.world
        (s.world.assign 0 (.request (.join s.futures s.world.store.isolates.poll true))) ∧
      Passed cells j s.world
        (s.world.assign 0 (.request (.join s.futures s.world.store.isolates.poll true))) c := by
  obtain ⟨hc, hfutures⟩ : s.world.control 0 = .idle ∧ s.futures = (cells.map .ref).toArray := by
    cases h.front with
    | launching _ hc _ hfutures => exact ⟨hc, hfutures⟩
    | asked hp' | admitted hp' | started hp' | waiting hp' | passing hp' | complete hp' =>
      rw [hp] at hp'
      cases hp'
  have hlen : cells.length = o.isolates.toNat := by
    rw [← hsize, hfutures]
    simp
  let poll := s.world.store.isolates.poll
  have hpoll : 0 < poll := by
    show 0 < s.world.store.isolates.poll
    rw [h.crew.isolates]
    decide
  let r : Request := .join s.futures poll true
  have hobject : ∀ c ∈ cells, ∃ slot, s.world.store.heap.object? c = some (.future slot) := by
    intro c hc
    obtain ⟨j, hj⟩ := List.mem_iff_getElem?.1 hc
    obtain ⟨i, -, rfl, -, -, hstage⟩ := h.crew.isolate j c hj
    exact hstage.exists_future
  have hhanded : r.Handed s.world.store.heap (s.world.thread 0) := by
    intro v hv
    rw [hfutures] at hv
    obtain ⟨c, hc, rfl⟩ := List.mem_map.1 (List.mem_toArray.1 hv)
    obtain ⟨slot, hslot⟩ := hobject c hc
    exact Heap.holds_ref.2 (Heap.live_iff_object?.2 ⟨_, hslot⟩)
  have hcells : Join.futures s.world.store.heap s.futures.toList = .ok cells := by
    rw [Join.futures_eq_ok_iff]
    exact ⟨by rw [hfutures], hobject⟩
  have hjoin : s.world.assign 0 (.request r) = s.world.joinStart 0 s.futures poll true .host := rfl
  cases hnil : cells with
  | nil =>
    subst hnil
    have hstart : s.world.assign 0 (.request r) =
        s.world.setControl 0 (.finished (.values #[])) := by
      rw [hjoin]
      unfold World.joinStart
      rw [hcells]
      rfl
    have hbecomes : Becomes 0 { s.world.thread 0 with control := .finished (.values #[]) } s.world
        (s.world.assign 0 (.request r)) := by
      rw [hstart]
      exact becomes_setControl rfl h.main_lt _
    obtain ⟨own', hgood⟩ := h.of_assign hc hhanded nofun hbecomes (hstart ▸ .refl _)
      (.complete rfl (congrArg Thread.control hbecomes.mine) .nil .nil hlen)
    exact ⟨own', ⟨[], 0, 0, poll, true⟩, _, hgood, hbecomes, .complete .nil .nil⟩
  | cons first rest =>
    let g₁ := (s.world.store.collector.addRoot (.pinned s.futures)).1
    let g₂ := (g₁.addRoot (.pinned #[])).1
    let w₁ : World := { s.world with store := { s.world.store with collector := g₂ } }
    let j : Join := ⟨cells, s.world.store.collector.nextId, g₁.nextId, poll, true⟩
    have hstart : s.world.assign 0 (.request r) = w₁.joinPass 0 j .host := by
      rw [hjoin]
      unfold World.joinStart
      rw [hcells, hnil]
      simp only [w₁, j, hnil]
      rfl
    have hseen : Seen w₁ cells j :=
      ⟨rfl, hpoll, #[], [], List.mem_cons_self, List.Perm.refl _, .nil⟩
    have hids : (w₁.store.collector.roots.map (·.1)).Nodup :=
      ((h.sound.tidy.addRoot _).addRoot _).rootIds
    have hstill₁ : s.world.store.Still w₁.store := .of_heap rfl
    have hthreads₁ : w₁.threads = s.world.threads := rfl
    obtain ⟨c, hpassed, hbecomes, hstill⟩ :=
      passed_joinPass h.main_lt hthreads₁ hstill₁ hseen hids
    rw [← hstart] at hpassed hbecomes hstill
    have hfront : Front o cells (s.assign r .joining) :=
      hpassed.front (s := s.assign r .joining) rfl (congrArg Thread.control hbecomes.mine) hfutures
        hlen
    obtain ⟨own', hgood⟩ := h.of_assign hc hhanded nofun hbecomes hstill hfront
    exact ⟨own', j, c, hnil ▸ hgood, hbecomes, hnil ▸ hpassed⟩

/-- The main thread is at work, or it waits for its program. -/
theorem main_step (h : Good o own d b cells s) (hready : s.world.ready 0 = true) :
    ∃ own' cells', Good o own' d b cells' { s with world := s.world.step 0 } := by
  have hrests : ∀ {c}, s.world.control 0 = c → s.world.ready 0 = true → c ≠ .idle ∧
      ∀ outcome, c ≠ .finished outcome := by
    rintro c hc hready
    refine ⟨?_, fun outcome => ?_⟩
    all_goals
      rintro rfl
      rw [World.ready, hc] at hready
      cases hready
  cases h.front with
  | launching _ hc => exact absurd rfl (hrests hc hready).1
  | started _ hc | complete _ hc => exact absurd rfl ((hrests hc hready).2 _)
  | asked _ hc =>
    obtain ⟨own', hgood, -⟩ := h.begin_start hready hc
    exact ⟨own', cells, hgood⟩
  | admitted _ hc =>
    obtain ⟨own', c, -, -, hgood, -⟩ := h.bear hready hc
    exact ⟨own', _, hgood⟩
  | waiting _ hc =>
    obtain ⟨own', -, hgood, -⟩ := h.wake hready hc
    exact ⟨own', cells, hgood⟩
  | passing _ hc =>
    obtain ⟨own', -, hgood, -⟩ := h.collects hready hc
    exact ⟨own', cells, hgood⟩

/-- **Every move** keeps the invariant, or it is the last one of the main thread, which has the
results. -/
theorem moves (h : Good o own d b cells s) (hN : ∀ j < o.isolates.toNat, 2 * j < 2 ^ 63)
    {s' : State} (hmove : Moves o s s') :
    (∃ own' cells', Good o own' d b cells' s') ∨ ∃ results, s.phase = .joining ∧
      s.world.control 0 = .finished (.values results) ∧
      s'.phase = .over (summary s.world results) := by
  cases hmove with
  | @step t hready =>
    by_cases ht : t = 0
    · subst ht
      exact .inl (h.main_step hready)
    · obtain ⟨own', -, -, hgood, -⟩ := h.turn ht hready hN
      exact .inl ⟨own', cells, hgood⟩
  | pass hw => exact .inl ⟨own, cells, h.pass hw⟩
  | launch hp hlt =>
    obtain ⟨own', -, hgood, -⟩ := h.launch hp hlt rfl
    exact .inl ⟨own', cells, hgood⟩
  | started hp hc => exact .inl ⟨own, cells, (h.started hp hc).1⟩
  | join hp hsize =>
    obtain ⟨own', -, -, hgood, -⟩ := h.join hp hsize
    exact .inl ⟨own', cells, hgood⟩
  | finish hp hc => exact .inr ⟨_, hp, hc, rfl⟩
  | fail hp hc =>
    cases h.front with
    | launching _ hc' | asked _ hc' | admitted _ hc' | started _ hc' | waiting _ hc' | passing _ hc'
    | complete _ hc' =>
      rw [hc] at hc'
      cases hc'
  | panic hp hc =>
    cases h.front with
    | launching _ hc' | asked _ hc' | admitted _ hc' | started _ hc' | waiting _ hc' | passing _ hc'
    | complete _ hc' =>
      rw [hc] at hc'
      cases hc'

end Good

/-! ### The opening -/

/-- A new machine has allocated nothing that a collection could free. -/
structure Pristine (s : Store) : Prop where
  mortal : ∀ c, ¬ s.heap.Mortal c
  count : s.collector.allocCount = 0
  freed : s.collector.freed = 0
  collecting : s.collector.sync.collecting = false
  isolates : s.isolates = {}
  supplied : s.shortage = none
  locks : s.locks = #[]
  creating : s.creating = false

theorem Pristine.publish {s : Store} (h : Pristine s) (fs : List Native) :
    Pristine (s.publish fs) := by
  induction fs generalizing s with
  | nil => exact h
  | cons f fs ih =>
    refine ih (s := (s.makeImmortal (.native f)).1.setGlobal f.name
      (.ref (s.makeImmortal (.native f)).2)) ⟨fun c hc => ?_, h.count, h.freed, h.collecting,
        h.isolates, h.supplied, h.locks, h.creating⟩
    exact h.mortal c ((Heap.mortal_alloc_immortal rfl).1 hc)

theorem pristine_new {settings : CollectorSettings} {store : Store}
    (hs : Store.new settings {} = .ok store) : Pristine store := by
  rw [← Store.publish_of_new hs]
  refine Pristine.publish ⟨fun c hc => ?_, rfl, rfl, rfl, rfl, rfl, rfl, rfl⟩ _
  obtain ⟨cell, hcell, -⟩ := hc
  have hnone : (Heap.empty).get? c = some cell := hcell
  simp at hnone

/-- The settings of the demonstration are in order if the limit is. -/
theorem exists_new {limit : UInt64} (hlimit : limit ≠ 0) :
    ∃ store, Store.new { allocLimit := limit } {} = .ok store := by
  have hcheck : ({ allocLimit := limit } : CollectorSettings).check = .ok () := by
    have hgrowth : Double.atLeastOne ⟨0x4000000000000000⟩ = true := by decide
    rw [CollectorSettings.check, if_neg hlimit]
    simp only [hgrowth]
    rfl
  have hsettings : IsolateSettings.check {} = .ok () := by rfl
  have hentries : Library.sync.entries = .ok (Library.sync.entries.toOption.getD []) := by rfl
  unfold Store.new
  rw [hcheck, hsettings]
  show ∃ store, Store.addLibrary _ .sync = .ok store
  unfold Store.addLibrary
  rw [hentries]
  exact ⟨_, rfl⟩

/-- The main thread, registered. -/
def enrolled (store : Store) : World where
  store := { store with collector := store.collector.enroll.1 }
  threads := #[{ storage := some store.collector.nextId, control := .finished .done }]
  line := [0]

/-- The main thread with its machine. -/
def furnished (store : Store) : World where
  store := { store with collector := (store.collector.enroll.1.addRoot (.stack 0)).1 }
  threads := #[{ storage := some store.collector.nextId, root := some (store.collector.nextId + 1),
                 control := .finished .done }]
  line := [0]

theorem enrolled_eq (store : Store) :
    ((World.addHost { store }).1.assign 0 .enroll).step 0 = enrolled store := rfl

theorem furnished_eq (store : Store) :
    ((enrolled store).assign 0 .equip).step 0 = furnished store := rfl

/-- Where a course begins. -/
theorem opening_eq (store : Store) : opening store =
    { world := (define (define (furnished store) 0 double).1 0 broken).1.setControl 0 .idle
      doubling := .ref store.heap.size
      breaking := .ref (store.heap.alloc { object := .function double }).1.size } := by
  simp only [opening, enrolled_eq, furnished_eq]
  rfl

/-- The main thread comes to its machine as every thread does. -/
theorem sound_furnished {settings : CollectorSettings} {store : Store}
    (hs : Store.new settings {} = .ok store) :
    ∃ own, (furnished store).Sound own none ∧ (furnished store).Balanced 0 := by
  let w₀ := (World.addHost { store }).1
  obtain ⟨own, hsound, -⟩ := Hosted.sound_new hs
  have hrun : Run Act.Orderly { world := { store } } := .new hs
  have hsound₀ : w₀.Sound own none := hsound.add rfl rfl rfl (fun i hi => by cases hi) trivial
  have hbalanced₀ : w₀.Balanced 0 := hrun.balanced.add rfl rfl rfl trivial
  have hspare₀ : w₀.Spare 0 := ⟨Nat.succ_pos 0, rfl, rfl⟩
  obtain ⟨own₁, -, hsound₁⟩ : (w₀.assign 0 .enroll).Kept own := hsound₀.assign hspare₀.host trivial
  have horderly₀ : Task.enroll.Orderly (w₀.thread 0) := trivial
  have hbalanced₁ : (w₀.assign 0 .enroll).Balanced 0 := hbalanced₀.assign hspare₀ horderly₀
  have hready₁ : (w₀.assign 0 .enroll).ready 0 = true := by
    show (!store.collector.sync.collecting) = true
    rw [(pristine_new hs).collecting]
    rfl
  obtain ⟨own₂, -, hsound₂⟩ : ((w₀.assign 0 .enroll).step 0).Kept own₁ :=
    hsound₁.step_given 0 trivial
  have hbalanced₂ : ((w₀.assign 0 .enroll).step 0).Balanced 0 := hbalanced₁.step hready₁
  rw [enrolled_eq] at hsound₂ hbalanced₂
  have hspare₂ : (enrolled store).Spare 0 := ⟨Nat.succ_pos 0, rfl, rfl⟩
  have horderly₂ : Task.equip.Orderly ((enrolled store).thread 0) := rfl
  obtain ⟨own₃, -, hsound₃⟩ : ((enrolled store).assign 0 .equip).Kept own₂ :=
    hsound₂.assign hspare₂.host trivial
  have hbalanced₃ : ((enrolled store).assign 0 .equip).Balanced 0 :=
    hbalanced₂.assign hspare₂ horderly₂
  have hready₃ : ((enrolled store).assign 0 .equip).ready 0 = true := rfl
  obtain ⟨own₄, -, hsound₄⟩ : (((enrolled store).assign 0 .equip).step 0).Kept own₃ :=
    hsound₃.step_given 0 trivial
  have hbalanced₄ : (((enrolled store).assign 0 .equip).step 0).Balanced 0 :=
    hbalanced₃.step hready₃
  rw [furnished_eq] at hsound₄ hbalanced₄
  exact ⟨own₄, hsound₄, hbalanced₄⟩

/-- A thread at rest allocates a function and keeps it on its stack. -/
theorem sound_define {own : Ledger} {w : World} (hw : w.Sound own none) (hrest : w.atRest 0 = true)
    (hequipped : (w.thread 0).Equipped) {code : Code}
    (hcode : ∀ v ∈ code.constants, ∀ c, v ≠ .ref c) : (define w 0 code).1.Sound own none := by
  let storage := ((w.thread 0).caller 0).storage
  have hedges : ∀ v ∈ (Object.function code).edges, w.store.heap.Holds v := fun v hv c hc =>
    absurd hc (hcode v (Array.mem_toList_iff.1 hv) c)
  have hmade : World.Sound own none { w with store := (w.store.make storage (.function code)).1 } :=
    hw.work hequipped.1 (Store.edited_make hedges)
  have hlive := Store.live_make w.store storage (.function code)
  have hpush := (hmade.holds_stack hequipped.2).push (Heap.holds_ref.2 hlive)
  exact ((hmade.go 0).setVm hpush).rest (by rwa [atRest_setVm])

theorem balanced_define {w : World} (hw : w.Balanced 0) (code : Code) :
    (define w 0 code).1.Balanced 0 := by
  have hmade : World.Balanced 0
      { w with store := (w.store.make ((w.thread 0).caller 0).storage (.function code)).1 } :=
    hw.congr rfl rfl
  exact hmade.setVm 0 _

/-- The demonstration begins well. -/
theorem good_opening (o : Options) {settings : CollectorSettings} {store : Store}
    (hs : Store.new settings {} = .ok store) :
    ∃ own d b, Good o own d b [] (opening store) := by
  obtain ⟨own, hsound, hbalanced⟩ := sound_furnished hs
  have hpristine := pristine_new hs
  let w₁ := (define (furnished store) 0 double).1
  let w₂ := (define w₁ 0 broken).1
  let w := w₂.setControl 0 .idle
  let d := store.heap.size
  let b := (store.heap.alloc { object := .function double }).1.size
  have hsound₁ : w₁.Sound own none := sound_define hsound rfl ⟨rfl, rfl⟩ (by simp [double])
  have hsound₂ : w₂.Sound own none := sound_define hsound₁ rfl ⟨rfl, rfl⟩ (by simp [broken])
  have hbalanced₂ : w₂.Balanced 0 := balanced_define (balanced_define hbalanced double) broken
  have hspare₂ : w₂.Spare 0 := ⟨Nat.succ_pos 0, rfl, rfl⟩
  have hheap : w.store.heap = ((store.heap.alloc { object := .function double }).1.alloc
      { object := .function broken }).1 := rfl
  have hne : d ≠ b := by
    rw [show b = d + 1 from Heap.size_alloc _ _]
    exact (Nat.succ_ne_self d).symm
  have hdoubling : w.store.heap.object? d = some (.function double) := by
    rw [hheap, Heap.object?_alloc, if_neg hne, Heap.object?_alloc, if_pos rfl]
  have hbreaking : w.store.heap.object? b = some (.function broken) := by
    rw [hheap, Heap.object?_alloc, if_pos rfl]
  have hcrew : Crew o.failEvery.toNat d b [] w := by
    refine ⟨hdoubling, hbreaking, rfl, rfl, .nil, fun j c hc => by simp at hc, fun c hc => ?_, ?_,
      hpristine.freed, hpristine.isolates, hpristine.supplied, hpristine.locks⟩
    · rw [hheap, Heap.mortal_alloc rfl, Heap.mortal_alloc rfl] at hc
      rcases hc with rfl | rfl | hc
      · exact .inr (.inl rfl)
      · exact .inl rfl
      · exact absurd hc (hpristine.mortal c)
    · have hcount : w.store.collector.allocCount = store.collector.allocCount + 1 + 1 := rfl
      rw [hcount, hpristine.count]
      rfl
  rw [opening_eq]
  exact ⟨own, d, b, (hsound₂.go 0).setControl trivial, hbalanced₂.spare hspare₂, hcrew, ⟨rfl, rfl⟩,
    rfl, rfl, rfl, .launching rfl rfl hpristine.creating rfl (Nat.zero_le _)⟩

end Demo

end ScriptCore
