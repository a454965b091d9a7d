import ScriptCore.Proofs.Join.Passes
import ScriptCore.Proofs.World.Accounts
import ScriptCore.Proofs.World.Seats

/-!
# Joins give every value, in order

A thread asks for the values of a list of futures.  Other threads resolve them at any time between
its passes, collections included.

* `World.Asks`: the acts by which a thread asks for something;
* `JoinCall.Goes`: the states in which a join is in progress, up to and including the one in which
  it hands over its values, with the heaps its passes have looked at and by how much others have
  changed the number of roots;
* `JoinCall.Holding`: what a waiting join relies on: the futures it still misses, the values it has,
  and that its two roots keep both alive;
* `Join.Unwraps`: what a value is without the tag of a result;
* `JoinCall.Report`: what a pass comes to;
* `joins_complete`: a join is refused exactly when one of its arguments is no future, and otherwise
  hands over one value for each of them in the first pass that sees all of them resolved.
-/

namespace ScriptCore

namespace World

variable {w w₁ : World} {t : ThreadId} {r : Request} {k : Consumer} {a : Act}

/-- The thread has gone on with a machine and a store. -/
def resumed (w : World) (t : ThreadId) (vm : Vm) (s : Store) : World :=
  { (w.setVm t {}) with store := s }.setVm t vm

/-- A machine that suspends has its request made. -/
theorem afterSignal_suspended {p : Vm × Store × Signal} {vm : Vm} {s : Store} {callee : Nat}
    (hp : p = (vm, s, .suspended callee r)) (outermost : Bool) :
    { (w.setVm t {}) with store := p.2.1 }.afterSignal t outermost p.1 p.2.2 =
      (w.resumed t vm s).request t r (.call callee outermost) := by
  subst hp
  rfl

/-- By an act, thread `t` asks for something in the last world. -/
inductive Asks (w : World) (t : ThreadId) (r : Request) : Act → Consumer → World → Prop
  /-- As the task of a host thread. -/
  | task : Asks w t r (.assign t (.request r)) .host w
  /-- By an instruction. -/
  | instruction {vm : Vm} {s : Store} {callee : Nat} : w.executes t = true →
      (w.thread t).vm.step ((w.thread t).caller t) w.store = (vm, s, .suspended callee r) →
      Asks w t r (.step t) (.call callee false) (w.resumed t vm s)
  /-- By the outermost call of a host thread. -/
  | call {vm : Vm} {s : Store} {callee : Nat} {function : Value} {args : Array Value} :
      (w.thread t).vm.enter ((w.thread t).caller t) function args w.store =
        (vm, s, .suspended callee r) →
      Asks w t r (.assign t (.call function args)) (.call callee true) (w.resumed t vm s)
  /-- By the outermost call of an isolate. -/
  | isolate {vm : Vm} {s : Store} {callee : Nat} {i : Isolate} : w.control t = .entering →
      (w.thread t).role = .isolate i →
      (w.thread t).vm.enter ((w.thread t).caller t) i.function i.args w.store =
        (vm, s, .suspended callee r) →
      Asks w t r (.step t) (.call callee true) (w.resumed t vm s)

theorem size_resumed (w : World) (t : ThreadId) (vm : Vm) (s : Store) :
    (w.resumed t vm s).threads.size = w.threads.size := by
  rw [resumed, setVm, size_modifyThread]
  exact size_modifyThread _

namespace Asks

/-- The request follows at once. -/
theorem apply_eq {h : Hosted} (hask : Asks h.world t r a k w₁) :
    (a.apply h).world = w₁.request t r k := by
  cases hask with
  | task => rfl
  | @instruction vm s callee hexec hstep =>
    have hexecute : h.world.step t = h.world.execute t := by
      have hframes : (h.world.thread t).vm.frames.isEmpty = false := by
        cases hf : (h.world.thread t).vm.frames with
        | nil => simp [Vm.step, hf] at hstep
        | cons => rfl
      unfold executes at hexec
      unfold World.step
      split at hexec
      · rename_i hc
        have hnot : h.world.store.collector.requested = false := by simpa using hexec
        simp [show (h.world.thread t).control = _ from hc, hframes, hnot]
      · rename_i hc
        simp only [show (h.world.thread t).control = _ from hc]
      · cases hexec
    show h.world.step t = _
    rw [hexecute]
    exact afterSignal_suspended hstep false
  | @call vm s callee function args henter =>
    exact afterSignal_suspended henter true
  | @isolate vm s callee i hc hrole henter =>
    have hstep : h.world.step t = h.world.enter t i.function i.args := by
      unfold World.step
      simp only [show (h.world.thread t).control = _ from hc, hrole]
    show h.world.step t = _
    rw [hstep]
    exact afterSignal_suspended henter true

/-- Nothing has happened to the registry of roots by then. -/
theorem same (hask : Asks w t r a k w₁) : w₁.threads.size = w.threads.size ∧
    w₁.store.collector.roots = w.store.collector.roots ∧
    w₁.store.collector.nextId = w.store.collector.nextId := by
  cases hask with
  | task => exact ⟨rfl, rfl, rfl⟩
  | @instruction vm s callee hexec hstep =>
    have hedit := (Vm.step_safe ((w.thread t).caller t) (w.thread t).vm w.store).edited
    rw [hstep] at hedit
    exact ⟨size_resumed w t vm s, hedit.roots, hedit.nextId⟩
  | @call vm s callee function args henter =>
    have hedit :=
      (Vm.enter_safe ((w.thread t).caller t) function args (w.thread t).vm w.store).edited
    rw [henter] at hedit
    exact ⟨size_resumed w t vm s, hedit.roots, hedit.nextId⟩
  | @isolate vm s callee i hc hrole henter =>
    have hedit :=
      (Vm.enter_safe ((w.thread t).caller t) i.function i.args (w.thread t).vm w.store).edited
    rw [henter] at hedit
    exact ⟨size_resumed w t vm s, hedit.roots, hedit.nextId⟩

theorem actor (hask : Asks w t r a k w₁) : a.actor? = some t := by
  cases hask <;> rfl

/-- A call asks for what its machine waits for. -/
theorem of_call {function : Value} {args : Array Value} {callee : Nat}
    (hsignal : ((w.thread t).vm.enter ((w.thread t).caller t) function args w.store).2.2 =
      .suspended callee r) :
    ∃ w₁, Asks w t r (.assign t (.call function args)) (.call callee true) w₁ :=
  ⟨_, .call (Prod.ext rfl (Prod.ext rfl hsignal))⟩

theorem of_isolate {i : Isolate} {callee : Nat} (hc : w.control t = .entering)
    (hrole : (w.thread t).role = .isolate i)
    (hsignal : ((w.thread t).vm.enter ((w.thread t).caller t) i.function i.args w.store).2.2 =
      .suspended callee r) :
    ∃ w₁, Asks w t r (.step t) (.call callee true) w₁ :=
  ⟨_, .isolate hc hrole (Prod.ext rfl (Prod.ext rfl hsignal))⟩

end Asks

/-- Whoever gets an outcome goes on outside of any join, and no root is touched. -/
theorem deliver_cases (w : World) (t : ThreadId) (k : Consumer) (o : Outcome) :
    ∃ w₁ ctrl, w.deliver t k o = setControl w₁ t ctrl ∧ ctrl.joined = [] ∧
      w₁.store.collector.roots = w.store.collector.roots := by
  have hended : ∀ role : Role, role.ended.joined = [] := fun role => by cases role <;> rfl
  have hentered : ∀ role : Role, role.entered.joined = [] := fun role => by cases role <;> rfl
  cases k with
  | host => exact ⟨w, .finished o, rfl, rfl, rfl⟩
  | call callee outermost =>
    have hnext : ∀ (w₁ : World) (vm : Vm), w₁.store.collector.roots = w.store.collector.roots →
        ∃ w₂ ctrl, w₁.proceed t outermost vm none = setControl w₂ t ctrl ∧ ctrl.joined = [] ∧
          w₂.store.collector.roots = w.store.collector.roots := by
      intro w₁ vm hroots
      cases outermost with
      | false => exact ⟨w₁.setVm t vm, .running, rfl, rfl, hroots⟩
      | true => exact ⟨w₁.setVm t vm, _, endEnter_eq _ t, hentered _, hroots⟩
    cases o with
    | value v => exact hnext _ _ rfl
    | values vs => exact hnext _ _ rfl
    | done => exact hnext _ _ rfl
    | absent => exact hnext _ _ rfl
    | failed e =>
      cases outermost with
      | false => exact ⟨_, _, endRun_eq _ t, hended _, rfl⟩
      | true => exact ⟨_, _, endEnter_eq _ t, hentered _, rfl⟩
    | panicked p =>
      refine ⟨_, _, interrupt_eq _ t p, ?_, rfl⟩
      cases (World.thread _ t).role <;> rfl

theorem roots_deliver (w : World) (t : ThreadId) (k : Consumer) (o : Outcome) :
    (w.deliver t k o).store.collector.roots = w.store.collector.roots := by
  obtain ⟨w₁, ctrl, heq, -, hroots⟩ := deliver_cases w t k o
  rw [heq]
  exact hroots

theorem joined_deliver (w : World) (t : ThreadId) (k : Consumer) (o : Outcome) :
    ((w.deliver t k o).control t).joined = [] := by
  obtain ⟨w₁, ctrl, heq, hjoined, -⟩ := deliver_cases w t k o
  rw [heq, control, setControl]
  by_cases ht : t < w₁.threads.size
  · rw [thread_modifyThread_self _ ht]
    exact hjoined
  · rw [modifyThread_of_size_le _ (Nat.not_lt.1 ht), thread_of_size_le (Nat.not_lt.1 ht)]
    rfl

end World

namespace Collector

variable {g : Collector} {id : RootId} {vs : Array Value}

/-- The values of a root are found by its name. -/
theorem pinned_eq (hids : (g.roots.map (·.1)).Nodup) (hmem : (id, .pinned vs) ∈ g.roots) :
    g.pinned id = vs := by
  have hfind : g.roots.find? (·.1 == id) = some (id, .pinned vs) := by
    revert hids hmem
    generalize g.roots = roots
    intro hids hmem
    induction roots with
    | nil => cases hmem
    | cons r roots ih =>
      obtain ⟨hnot, hids⟩ := List.nodup_cons.1 hids
      rcases List.mem_cons.1 hmem with rfl | hmem
      · simp
      · have hne : r.1 ≠ id := fun heq => hnot (List.mem_map.2 ⟨_, hmem, heq.symm⟩)
        rw [List.find?_cons_of_neg (by simpa using hne)]
        exact ih hids hmem
  rw [pinned, hfind]

theorem rootCount_setPinned : (g.setPinned id vs).rootCount = g.rootCount :=
  List.length_map ..

end Collector

/-- Taking out a root that is registered makes the registry shorter by one. -/
theorem World.rootCount_dropRoot {w : World} (hd : w.Drawn) (id : RootId) (hid : id ∈ w.rootIds) :
    (w.dropRoot id).store.collector.rootCount + 1 = w.store.collector.rootCount := by
  have hids : (w.dropRoot id).rootIds = w.rootIds.erase id := by
    rw [hd.nodup.erase_eq_filter, World.rootIds, World.roots_dropRoot, World.rootIds,
      List.filter_map]
    rfl
  have hlength := congrArg List.length hids
  rw [List.length_erase_of_mem hid] at hlength
  have hpos := List.length_pos_of_mem hid
  simp only [World.rootIds, List.length_map] at hlength hpos
  rw [Collector.rootCount, Collector.rootCount]
  omega

/-! ### Values without their tags -/

namespace Join

/-- What a value is without its tag: the payload of a result, even if this is a result again, and
any other value itself. -/
inductive Unwraps (h : Heap) : Value → Value → Prop
  | result {c : CellId} {isError : Bool} {payload : Value} :
      h.object? c = some (.result isError payload) → Unwraps h (.ref c) payload
  | other {v : Value} :
      (∀ c isError payload, v = .ref c → h.object? c ≠ some (.result isError payload)) →
      Unwraps h v v

theorem unwraps_payload (h : Heap) (v : Value) : Unwraps h v (payload h v) := by
  unfold payload
  split
  · rename_i isError p hresult
    cases v with
    | ref c =>
      unfold Heap.result? at hresult
      split at hresult
      · rename_i ho
        cases hresult
        exact .result ho
      · cases hresult
    | _ => cases hresult
  · rename_i hnone
    refine .other ?_
    rintro c isError p rfl ho
    have hderef : h.deref? (.ref c) = some (.result isError p) := ho
    rw [Heap.result?, hderef] at hnone
    cases hnone

end Join

/-! ### A join in progress -/

/-- A join that a thread asks for. -/
structure JoinCall where
  thread : ThreadId
  consumer : Consumer
  futures : Array Value
  poll : Nat
  tagged : Bool

/-- The number of registered roots. -/
def Chronicle.roots (c : Chronicle) : Int := c.world.store.collector.rootCount

namespace JoinCall

variable {q : JoinCall} {cells : List CellId} {n drift : Int} {passes : List Heap} {w : World}
  {c c₁ : Chronicle} {a : Act}

def request (q : JoinCall) : Request := .join q.futures q.poll q.tagged

/-- What is handed over: the values, or the payloads of those that are results. -/
def handover (q : JoinCall) (h : Heap) (vs : List Value) : Array Value :=
  (if q.tagged then vs else vs.map (Join.payload h)).toArray

/-- With their tags the values are handed over as they are, and else each without its tag. -/
theorem handed_handover (q : JoinCall) (h : Heap) (vs : List Value) :
    (q.tagged = true → (q.handover h vs).toList = vs) ∧
      (q.tagged = false → List.Forall₂ (Join.Unwraps h) vs (q.handover h vs).toList) := by
  refine ⟨fun htagged => ?_, fun htagged => ?_⟩
  · rw [handover, if_pos htagged]
  · rw [handover, if_neg (by rw [htagged]; exact Bool.false_ne_true), List.forall₂_map_right_iff]
    exact List.forall₂_same.2 fun v _ => Join.unwraps_payload h v

/-- The states of a join that was asked for in a world, with the heaps of its passes, newest first,
and by how much others have changed the number of roots. -/
inductive Goes (q : JoinCall) (w : World) (c₁ : Chronicle) : List Heap → Int → Chronicle → Prop
  | begins : Goes q w c₁ [w.store.heap] 0 c₁
  /-- Something else happens while the thread waits. -/
  | aside {passes : List Heap} {drift : Int} {c : Chronicle} {a : Act} :
      Goes q w c₁ passes drift c → a.Proper c → (c.world.control q.thread).joined ≠ [] →
      a.actor? ≠ some q.thread →
      Goes q w c₁ passes (drift + ((a.record c).roots - c.roots)) (a.record c)
  /-- The wait is over. -/
  | wakes {passes : List Heap} {drift : Int} {c : Chronicle} {wait : Wait} {j : Join}
      {k : Consumer} : Goes q w c₁ passes drift c → (Act.step q.thread).Proper c →
      c.world.control q.thread = .blocked wait (.join j k) →
      Goes q w c₁ passes drift ((Act.step q.thread).record c)
  /-- One more pass. -/
  | looks {passes : List Heap} {drift : Int} {c : Chronicle} {o : Outcome} {j : Join}
      {k : Consumer} : Goes q w c₁ passes drift c → (Act.step q.thread).Proper c →
      c.world.control q.thread = .leaving o (.join j k) →
      Goes q w c₁ (c.world.store.heap :: passes) drift ((Act.step q.thread).record c)

/-- Every value that a pass has seen is still there, and the futures are live. -/
structure Lasting (cells : List CellId) (passes : List Heap) (h : Heap) : Prop where
  values : ∀ h' ∈ passes, ∀ f ∈ cells, ∀ v, h'.resolved? f = some v → h.resolved? f = some v
  futures : ∀ f ∈ cells, ∃ slot, h.object? f = some (.future slot)

theorem Lasting.cons {h : Heap} (hl : Lasting cells passes h) : Lasting cells (h :: passes) h :=
  ⟨List.forall_mem_cons.2 ⟨fun _ _ _ hv => hv, hl.values⟩, hl.futures⟩

theorem resolved?_eq_some_iff {h : Heap} {f : CellId} {v : Value} :
    h.resolved? f = some v ↔ h.object? f = some (.future (some v)) := by
  unfold Heap.resolved?
  cases h.object? f with
  | none => simp
  | some o => cases o <;> simp

/-- Values last as long as the futures are live. -/
theorem Lasting.later {h h' : Heap} (hl : Lasting cells passes h) (hlasts : h.Lasts h')
    (hlive : ∀ f ∈ cells, h'.Live f) : Lasting cells passes h' where
  values g hg f hf v hv := by
    have hnow := resolved?_eq_some_iff.1 (hl.values g hg f hf v hv)
    exact resolved?_eq_some_iff.2 (hlasts.settled (Object.settled_future v) hnow (hlive f hf))
  futures f hf := by
    obtain ⟨slot, ho⟩ := hl.futures f hf
    obtain ⟨o', ho'⟩ := Heap.live_iff_object?.1 (hlive f hf)
    obtain ⟨o, hback, hgrows⟩ := hlasts.back f o' (Heap.lt_size_of_object? ho) ho'
    obtain rfl : o = .future slot := Option.some.inj (hback.symm.trans ho)
    obtain ⟨slot', rfl⟩ := hgrows.of_future
    exact ⟨slot', ho'⟩

/-- The roots of a join: one holds its arguments, one the values it has so far. -/
structure Anchored (q : JoinCall) (cells : List CellId) (passes : List Heap)
    (anchor results : RootId) (w : World) : Prop where
  distinct : anchor ≠ results
  anchor : (anchor, .pinned q.futures) ∈ w.store.collector.roots
  results : (results, .pinned (Join.collected cells passes).toArray) ∈ w.store.collector.roots

/-- What a waiting join relies on. -/
structure Holding (q : JoinCall) (cells : List CellId) (n : Int) (passes : List Heap) (drift : Int)
    (c : Chronicle) : Prop where
  missing : Join.unseen cells passes ≠ []
  known : q.thread < c.world.threads.size
  control : ∃ anchor results, Anchored q cells passes anchor results c.world ∧
    let k : After := .join ⟨Join.unseen cells passes, anchor, results, q.poll, q.tagged⟩ q.consumer
    (∃ f d, c.world.control q.thread = .blocked (.resolvedBy f d) k) ∨
      ∃ o, c.world.control q.thread = .leaving o k
  lasting : Lasting cells passes c.world.store.heap
  count : c.roots = n + 2 + drift

/-- The values are handed over. -/
structure Handed (q : JoinCall) (cells : List CellId) (n : Int) (passes : List Heap) (drift : Int)
    (c : Chronicle) : Prop where
  complete : Join.unseen cells passes = []
  world : ∃ (w : World) (h : Heap), passes.head? = some h ∧ w.store.heap = h ∧
    Lasting cells passes h ∧ c.world = w.deliver q.thread q.consumer (.values (q.handover h (Join.collected cells passes)))
  count : c.roots = n + drift

/-- What a join has come to. -/
def Stands (q : JoinCall) (cells : List CellId) (n : Int) (passes : List Heap) (drift : Int)
    (c : Chronicle) : Prop :=
  Holding q cells n passes drift c ∨ Handed q cells n passes drift c

/-- One pass. -/
theorem stands_pass {anchor results : RootId} (hd : w.Drawn) (ht : q.thread < w.threads.size)
    (hroots : Anchored q cells passes anchor results w)
    (hlasting : Lasting cells passes w.store.heap)
    (hcount : (w.store.collector.rootCount : Int) = n + 2 + drift)
    (hc : c.world = w.joinPass q.thread
      ⟨Join.unseen cells passes, anchor, results, q.poll, q.tagged⟩ q.consumer) :
    Stands q cells n (w.store.heap :: passes) drift c := by
  have hpinned : w.store.collector.pinned results = (Join.collected cells passes).toArray :=
    Collector.pinned_eq hd.nodup hroots.results
  have hresults : w.store.collector.pinned results ++
      (Join.arrived w.store.heap (Join.unseen cells passes)).toArray =
        (Join.collected cells (w.store.heap :: passes)).toArray := by
    rw [hpinned, List.append_toArray, Join.arrived_unseen]
  unfold World.joinPass at hc
  simp only [hresults, Join.missing_unseen] at hc
  cases hunseen : Join.unseen cells (w.store.heap :: passes) with
  | cons f rest =>
    rw [hunseen] at hc
    let k : After := .join ⟨f :: rest, anchor, results, q.poll, q.tagged⟩ q.consumer
    let w₁ := w.setPinned results (Join.collected cells (w.store.heap :: passes)).toArray
    replace hc : c.world = w₁.block q.thread (.resolvedBy f (w.store.now + q.poll)) k := hc
    have hbecomes := World.becomes_setControl (World.threads_park w₁ q.thread)
      (show q.thread < w₁.threads.size from ht) (.blocked (.resolvedBy f (w.store.now + q.poll)) k)
    have hregistry : c.world.store.collector.roots = w₁.store.collector.roots := by
      rw [hc]
      exact (World.park_same w₁ q.thread).2.2
    have hheap : c.world.store.heap = w.store.heap := by
      rw [hc]
      exact World.heap_park (w := w₁)
    refine .inl ⟨by simp [hunseen], ?_, ⟨anchor, results, ⟨hroots.distinct, ?_, ?_⟩,
      .inl ⟨f, w.store.now + q.poll, ?_⟩⟩, hheap ▸ hlasting.cons, ?_⟩
    · rw [hc]
      exact hbecomes.size.ge.trans_lt' ht
    · rw [hregistry]
      exact List.mem_map.2 ⟨_, hroots.anchor, if_neg hroots.distinct⟩
    · rw [hregistry]
      exact List.mem_map.2 ⟨_, hroots.results, if_pos rfl⟩
    · rw [hc, hunseen]
      exact congrArg Thread.control hbecomes.mine
    · rw [← hcount, Chronicle.roots, Collector.rootCount, hregistry]
      exact congrArg Nat.cast (Collector.rootCount_setPinned (g := w.store.collector))
  | nil =>
    rw [hunseen] at hc
    let w₁ := (w.dropRoot results).dropRoot anchor
    have hvalues : (if q.tagged then (Join.collected cells (w.store.heap :: passes)).toArray
        else (Join.collected cells (w.store.heap :: passes)).toArray.map
          (Join.payload w.store.heap)) =
        q.handover w.store.heap (Join.collected cells (w.store.heap :: passes)) := by
      unfold handover
      split <;> simp
    simp only [hvalues] at hc
    refine .inr ⟨hunseen, ⟨w₁, w.store.heap, rfl, ?_, hlasting.cons, hc⟩, ?_⟩
    · rw [World.heap_dropRoot, World.heap_dropRoot]
    · have hfirst := World.rootCount_dropRoot hd results
        (List.mem_map_of_mem hroots.results)
      have hsecond := World.rootCount_dropRoot (hd.dropRoot results) anchor
        ((World.mem_rootIds_dropRoot w).2 ⟨List.mem_map_of_mem hroots.anchor, hroots.distinct⟩)
      have hsame : c.world.store.collector.rootCount = w₁.store.collector.rootCount := by
        rw [hc, Collector.rootCount, World.roots_deliver]
        rfl
      rw [Chronicle.roots, hsame]
      show ((w.dropRoot results).dropRoot anchor).store.collector.rootCount = n + drift
      omega

/-- The futures are live as long as the arguments are a root. -/
theorem Anchored.live {own : Ledger} {anchor results : RootId}
    (hroots : Anchored q cells passes anchor results w) (hsound : w.Sound own none)
    (hcells : q.futures.toList = cells.map .ref) : ∀ f ∈ cells, w.store.heap.Live f := by
  intro f hf
  refine Heap.holds_ref.1 (hsound.held anchor _ hroots.anchor (.ref f) ?_)
  rw [World.heldBy, hcells]
  exact List.mem_map_of_mem hf

/-- Whatever others do, a waiting join can rely on the same. -/
theorem Holding.aside (h : Holding q cells n passes drift c) (hrun : Run Act.Proper c)
    (hcells : q.futures.toList = cells.map .ref) (ha : a.Proper c)
    (hactor : a.actor? ≠ some q.thread) :
    Holding q cells n passes (drift + ((a.record c).roots - c.roots)) (a.record c) := by
  obtain ⟨anchor, results, hroots, hcontrol⟩ := h.control
  obtain ⟨spent, hthread⟩ := Act.bystander ha.1 hactor h.known
  have hsame : (a.record c).world.control q.thread = c.world.control q.thread := by
    rw [World.control, hthread]
    rfl
  have hjoined : (c.world.control q.thread).joined = [anchor, results] := by
    rcases hcontrol with ⟨f, d, hc⟩ | ⟨o, hc⟩ <;> rw [hc] <;> rfl
  have hanswers : ∀ id ∈ [anchor, results], id ∈ (c.world.thread q.thread).rootIds := by
    intro id hid
    refine List.mem_append_left _ (List.mem_append_right _ ?_)
    rwa [← World.control, hjoined]
  have hroots' : Anchored q cells passes anchor results (a.record c).world :=
    ⟨hroots.distinct,
      hrun.root_kept ha hactor h.known hroots.anchor (hanswers _ List.mem_cons_self),
      hrun.root_kept ha hactor h.known hroots.results (hanswers _ (by simp))⟩
  obtain ⟨own, hsound, -⟩ := (hrun.act ha).hosted
  refine ⟨h.missing, h.known.trans_le (Act.size_le ha.1),
    ⟨anchor, results, hroots', hsame ▸ hcontrol⟩,
    h.lasting.later (Act.lasts ha.1) (hroots'.live hsound hcells), ?_⟩
  have hcount := h.count
  omega

/-- The wait is over: the next step is a pass. -/
theorem Holding.wakes {wait : Wait} {j : Join} {k : Consumer}
    (h : Holding q cells n passes drift c)
    (hc : c.world.control q.thread = .blocked wait (.join j k)) :
    Holding q cells n passes drift ((Act.step q.thread).record c) := by
  obtain ⟨anchor, results, hroots, hcontrol⟩ := h.control
  rcases hcontrol with ⟨f, d, hblocked⟩ | ⟨o, hleaving⟩
  · obtain ⟨o, hstep⟩ : ∃ o, c.world.step q.thread = c.world.setControl q.thread (.leaving o
        (.join ⟨Join.unseen cells passes, anchor, results, q.poll, q.tagged⟩ q.consumer)) := by
      unfold World.step
      simp only [show (c.world.thread q.thread).control = _ from hblocked, World.passWait]
      cases c.world.store.heap.resolved? f <;> exact ⟨_, rfl⟩
    have hworld : ((Act.step q.thread).record c).world = _ := hstep
    have hbecomes := World.becomes_setControl (w := c.world) rfl h.known (.leaving o
      (.join ⟨Join.unseen cells passes, anchor, results, q.poll, q.tagged⟩ q.consumer))
    refine ⟨h.missing, ?_, ⟨anchor, results, ?_, .inr ⟨o, ?_⟩⟩, ?_, ?_⟩
    · rw [hworld]
      exact hbecomes.size.ge.trans_lt' h.known
    · rw [hworld]
      exact ⟨hroots.distinct, hroots.anchor, hroots.results⟩
    · rw [hworld, World.control, hbecomes.mine]
    · rw [hworld]
      exact h.lasting
    · rw [← h.count, Chronicle.roots, hworld]
      rfl
  · rw [hc] at hleaving
    cases hleaving

/-- One more pass. -/
theorem Holding.looks {o : Outcome} {j : Join} {k : Consumer}
    (h : Holding q cells n passes drift c) (hrun : Run Act.Proper c)
    (hc : c.world.control q.thread = .leaving o (.join j k)) :
    Stands q cells n (c.world.store.heap :: passes) drift ((Act.step q.thread).record c) := by
  obtain ⟨anchor, results, hroots, hcontrol⟩ := h.control
  obtain ⟨own, hsound, -⟩ := hrun.hosted
  rcases hcontrol with ⟨f, d, hblocked⟩ | ⟨o', hleaving⟩
  · rw [hc] at hblocked
    cases hblocked
  · have hstep : ((Act.step q.thread).record c).world =
        (c.world.unpark q.thread).joinPass q.thread
          ⟨Join.unseen cells passes, anchor, results, q.poll, q.tagged⟩ q.consumer := by
      show c.world.step q.thread = _
      unfold World.step
      simp only [show (c.world.thread q.thread).control = _ from hleaving, World.continueWith]
    have hregistry := (World.unpark_same c.world q.thread).2.2
    have hheap : (c.world.unpark q.thread).store.heap = c.world.store.heap := World.heap_unpark
    rw [← hheap]
    refine stands_pass (hsound.unpark q.thread).drawn ?_ ⟨hroots.distinct, ?_, ?_⟩ ?_ ?_ hstep
    · rw [World.threads_unpark]
      exact h.known
    · rw [hregistry]
      exact hroots.anchor
    · rw [hregistry]
      exact hroots.results
    · rw [hheap]
      exact h.lasting
    · rw [← h.count, Collector.rootCount, hregistry]
      rfl

/-- The first pass is made as soon as the join is asked for. -/
theorem stands_begins (hd : w.Drawn) (ht : q.thread < w.threads.size)
    (hcells : q.futures.toList = cells.map .ref)
    (hfutures : ∀ f ∈ cells, ∃ slot, w.store.heap.object? f = some (.future slot))
    (hc : c.world = w.request q.thread q.request q.consumer) :
    Stands q cells w.store.collector.rootCount [w.store.heap] 0 c := by
  have hok := (Join.futures_eq_ok_iff (i := 0)).2 ⟨hcells, hfutures⟩
  have hlasting : Lasting cells [] w.store.heap := ⟨by simp, hfutures⟩
  simp only [World.request, JoinCall.request, World.joinStart, hok] at hc
  cases cells with
  | nil =>
    refine .inr ⟨rfl, ⟨w, w.store.heap, rfl, rfl, hlasting.cons, ?_⟩, ?_⟩
    · rw [hc]
      have hnone : q.handover w.store.heap (Join.collected [] [w.store.heap]) = #[] := by
        simp [handover, Join.collected, Join.unseen]
      rw [hnone]
    · rw [Chronicle.roots, hc, Collector.rootCount, World.roots_deliver, Int.add_zero]
      rfl
  | cons f cells =>
    let g := ((w.store.collector.addRoot (.pinned q.futures)).1.addRoot (.pinned #[])).1
    let id := w.store.collector.nextId
    let w₁ : World := { w with store := { w.store with collector := g } }
    have hdrawn : w₁.Drawn := by
      let w₀ : World := { w with store := { w.store with
        collector := (w.store.collector.addRoot (.pinned q.futures)).1 } }
      have hfirst : w₀.Drawn := hd.cons rfl rfl
      exact hfirst.cons rfl rfl
    have hroots : Anchored q (f :: cells) [] id (id + 1) w₁ :=
      ⟨(Nat.lt_succ_self id).ne, List.mem_cons_of_mem _ List.mem_cons_self, List.mem_cons_self⟩
    refine stands_pass (w := w₁) hdrawn ht hroots hlasting ?_ ?_
    · show ((w.store.collector.roots.length + 1 + 1 : Nat) : Int) = _
      rw [Collector.rootCount]
      omega
    · rw [hc, Join.unseen_nil]
      rfl

/-- A thread that is in a join has not been handed its values. -/
theorem Stands.holding (h : Stands q cells n passes drift c)
    (hjoined : (c.world.control q.thread).joined ≠ []) : Holding q cells n passes drift c := by
  refine h.resolve_right fun ⟨_, ⟨w, heap, _, _, _, hworld⟩, _⟩ => ?_
  rw [hworld] at hjoined
  exact hjoined (World.joined_deliver w _ _ _)

/-- The first pass is the oldest. -/
theorem Goes.first (h : Goes q w c₁ passes drift c) :
    ∃ later, passes = later ++ [w.store.heap] := by
  induction h with
  | begins => exact ⟨[], rfl⟩
  | aside _ _ _ _ ih | wakes _ _ _ ih => exact ih
  | looks _ _ _ ih =>
    obtain ⟨later, rfl⟩ := ih
    exact ⟨_ :: later, rfl⟩

/-- What holds of a join in each of its states; no pass but the last has left nothing. -/
theorem Goes.stands (h : Goes q w c₁ passes drift c) (hrun : Run Act.Proper c₁)
    (hcells : q.futures.toList = cells.map .ref)
    (hbegins : Stands q cells n [w.store.heap] 0 c₁) :
    Run Act.Proper c ∧ Stands q cells n passes drift c ∧
      (passes.tail ≠ [] → Join.unseen cells passes.tail ≠ []) := by
  induction h with
  | begins => exact ⟨hrun, hbegins, fun hne => absurd rfl hne⟩
  | aside _ ha hjoined hactor ih =>
    obtain ⟨hrun, hstands, hearly⟩ := ih
    exact ⟨hrun.act ha, .inl ((hstands.holding hjoined).aside hrun hcells ha hactor), hearly⟩
  | wakes _ ha hc ih =>
    obtain ⟨hrun, hstands, hearly⟩ := ih
    have hholding := hstands.holding (by rw [hc]; exact List.cons_ne_nil _ _)
    exact ⟨hrun.act ha, .inl (hholding.wakes hc), hearly⟩
  | looks _ ha hc ih =>
    obtain ⟨hrun, hstands, -⟩ := ih
    have hholding := hstands.holding (by rw [hc]; exact List.cons_ne_nil _ _)
    exact ⟨hrun.act ha, hholding.looks hrun hc, fun _ => hholding.missing⟩

/-! ### What a join hands over -/

/-- What a join has come to after its passes, the last of which has looked at heap `h`. It was asked
for in world `w` among `n` roots. -/
structure Report (q : JoinCall) (w : World) (cells : List CellId) (n : Int) (h : Heap)
    (earlier : List Heap) (drift : Int) (c : Chronicle) : Prop where
  /-- No earlier pass has seen all futures resolved. -/
  early : ∀ h' ∈ earlier, ∃ f ∈ cells, h'.resolved? f = none
  /-- If the last pass has not either, the thread waits and has two roots. -/
  waits : (∃ f ∈ cells, h.resolved? f = none) →
    (c.world.control q.thread).joined ≠ [] ∧ c.roots = n + 2 + drift
  /-- Else it hands over one value a future, as it is or without its tag: pass by pass those that
  were new in it, a permutation of the stored values, and these themselves if all were there at the
  beginning. -/
  returns : (∀ f ∈ cells, (h.resolved? f).isSome) →
    let values := Join.collected cells (h :: earlier)
    (∃ (w' : World) (handed : Array Value), w'.store.heap = h ∧
      c.world = w'.deliver q.thread q.consumer (.values handed) ∧
      (q.tagged = true → handed.toList = values) ∧
      (q.tagged = false → List.Forall₂ (Join.Unwraps h) values handed.toList)) ∧
    (∃ stored : List Value, stored.map some = cells.map h.resolved? ∧ values.Perm stored ∧
      values.length = q.futures.size ∧
      ((∀ f ∈ cells, (w.store.heap.resolved? f).isSome) → values = stored)) ∧
    c.roots = n + drift

/-- Futures that are all resolved have their values in order. -/
theorem map_some_filterMap {h : Heap} (hall : ∀ f ∈ cells, (h.resolved? f).isSome) :
    (cells.filterMap h.resolved?).map some = cells.map h.resolved? := by
  induction cells with
  | nil => rfl
  | cons f cells ih =>
    obtain ⟨hf, hcells⟩ := List.forall_mem_cons.1 hall
    obtain ⟨v, hv⟩ := Option.isSome_iff_exists.1 hf
    rw [List.filterMap_cons_some hv, List.map_cons, List.map_cons, ih hcells, hv]

/-- Values that a finished join has collected are those the futures hold. -/
theorem Handed.collected {h : Heap} {earlier : List Heap}
    (hh : Handed q cells n (h :: earlier) drift c) (hcells : q.futures.toList = cells.map .ref)
    (hall : ∀ f ∈ cells, (h.resolved? f).isSome) :
    (Join.collected cells (h :: earlier)).Perm (cells.filterMap h.resolved?) ∧
      (Join.collected cells (h :: earlier)).length = q.futures.size := by
  obtain ⟨w, heap, hhead, -, hlasting, -⟩ := hh.world
  obtain rfl : h = heap := Option.some.inj hhead
  have hperm := Join.collected_perm h.resolved? hlasting.values
  rw [hh.complete, List.filterMap_nil, List.append_nil] at hperm
  refine ⟨hperm, hperm.length_eq.trans ?_⟩
  have hlength := congrArg List.length (map_some_filterMap hall)
  rw [List.length_map, List.length_map] at hlength
  rw [hlength, ← Array.length_toList, hcells, List.length_map]

/-- What a join has come to in any of its states. -/
theorem Goes.report {h : Heap} {earlier : List Heap} (hgo : Goes q w c₁ (h :: earlier) drift c)
    (hrun : Run Act.Proper c₁) (hcells : q.futures.toList = cells.map .ref)
    (hbegins : Stands q cells n [w.store.heap] 0 c₁) : Report q w cells n h earlier drift c := by
  obtain ⟨-, hstands, hearly⟩ := hgo.stands hrun hcells hbegins
  have hunseen : ∀ {passes : List Heap}, Join.unseen cells passes ≠ [] →
      ∃ f ∈ cells, ∀ h' ∈ passes, h'.resolved? f = none := by
    intro passes hne
    obtain ⟨f, rest, hcons⟩ := List.exists_cons_of_ne_nil hne
    have hmem : f ∈ Join.unseen cells passes := hcons ▸ List.mem_cons_self
    obtain ⟨hf, hnone⟩ := List.mem_filter.1 hmem
    exact ⟨f, hf, by simpa using hnone⟩
  refine ⟨fun h' hh' => ?_, fun hmissing => ?_, fun hall => ?_⟩
  · obtain ⟨f, hf, hnone⟩ := hunseen (hearly (List.ne_nil_of_mem hh'))
    exact ⟨f, hf, hnone h' hh'⟩
  · rcases hstands with hholding | hhanded
    · obtain ⟨anchor, results, -, hcontrol⟩ := hholding.control
      refine ⟨?_, hholding.count⟩
      rcases hcontrol with ⟨f, d, hc⟩ | ⟨o, hc⟩ <;> rw [hc] <;> exact List.cons_ne_nil _ _
    · obtain ⟨w', heap, hhead, -, hlasting, -⟩ := hhanded.world
      obtain rfl : h = heap := Option.some.inj hhead
      obtain ⟨f, hf, hnone⟩ := hmissing
      have hsome := (Join.unseen_eq_nil_iff fun h' hh' =>
        hlasting.values h' (List.mem_cons_of_mem _ hh')).1 hhanded.complete f hf
      rw [hnone] at hsome
      cases hsome
  · rcases hstands with hholding | hhanded
    · obtain ⟨f, hf, hnone⟩ := hunseen hholding.missing
      have hsome := hall f hf
      rw [hnone h List.mem_cons_self] at hsome
      cases hsome
    · obtain ⟨hperm, hlength⟩ := hhanded.collected hcells hall
      obtain ⟨w', heap, hhead, hheap, -, hworld⟩ := hhanded.world
      obtain rfl : h = heap := Option.some.inj hhead
      refine ⟨⟨w', _, hheap, hworld, q.handed_handover h _⟩,
        ⟨_, map_some_filterMap hall, hperm, hlength, fun hfirst => ?_⟩, hhanded.count⟩
      -- a pass before this one would have seen all futures resolved
      have hnone : earlier = [] := by
        by_contra hne
        obtain ⟨f, hf, hnone⟩ := hunseen (hearly hne)
        obtain ⟨later, hlater⟩ := hgo.first
        have hmem : w.store.heap ∈ earlier := by
          cases later with
          | nil => exact absurd (List.cons.inj hlater).2 hne
          | cons h' later =>
            rw [(List.cons.inj hlater).2]
            simp
        have hsome := hfirst f hf
        rw [hnone _ hmem] at hsome
        cases hsome
      subst hnone
      simp [Join.collected]

end JoinCall

/-! ### Refusals -/

namespace World

/-- A native call that fails leaves an error object. -/
theorem object?_deliver_failed (w : World) (t : ThreadId) (callee : Nat) (outermost : Bool)
    (e : Cause) : (w.deliver t (.call callee outermost) (.failed e)).store.heap.object?
      w.store.heap.size = some (.error e.failure) := by
  rw [deliver_call]
  simp only [Vm.receive, afterSignal, proceed]
  split
  · rw [endEnter_eq]
    exact Store.object?_make _ _ _
  · rw [endRun_eq]
    exact Store.object?_make _ _ _

/-- A native call that gives values leaves a list. -/
theorem object?_deliver_values (w : World) (t : ThreadId) (callee : Nat) (outermost : Bool)
    (vs : Array Value) : (w.deliver t (.call callee outermost) (.values vs)).store.heap.object?
      w.store.heap.size = some (.list vs) := by
  rw [deliver_call]
  simp only [Vm.receive, afterSignal, proceed]
  split
  · rw [endEnter_eq]
    exact Store.object?_make _ _ _
  · exact Store.object?_make _ _ _

/-- A failure is not handed over as values are. -/
theorem deliver_failed_ne_values {w w' : World} {t : ThreadId} (ht : t < w.threads.size)
    (hheap : w'.store.heap = w.store.heap) (k : Consumer) (e : Cause) (vs : Array Value) :
    w.deliver t k (.failed e) ≠ w'.deliver t k (.values vs) := by
  intro heq
  cases k with
  | host =>
    have hcontrol : (w.setControl t (.finished (.failed e))).control t = .finished (.failed e) :=
      congrArg Thread.control (thread_modifyThread_self _ ht)
    replace heq : w.setControl t (.finished (.failed e)) =
      w'.setControl t (.finished (.values vs)) := heq
    rw [heq, control, setControl] at hcontrol
    by_cases ht' : t < w'.threads.size
    · rw [thread_modifyThread_self _ ht'] at hcontrol
      cases hcontrol
    · rw [modifyThread_of_size_le _ (Nat.not_lt.1 ht'), thread_of_size_le (Nat.not_lt.1 ht')]
        at hcontrol
      cases hcontrol
  | call callee outermost =>
    have hfailed := object?_deliver_failed w t callee outermost e
    rw [heq, ← hheap, object?_deliver_values] at hfailed
    cases hfailed

end World

/-- **Joins are complete and in order.** A thread asks for the values of some arguments. It is
refused exactly when one of them is no future: the first such argument is named, and nothing has
happened. Without arguments it gets no values at once. Otherwise, whatever others do meanwhile, what
its passes come to is as in `JoinCall.Report`. -/
theorem joins_complete (q : JoinCall) (c : Chronicle) (a : Act) (w : World)
    (hrun : Run Act.Proper c) (ha : a.Proper c)
    (hask : World.Asks c.world q.thread q.request a q.consumer w) :
    ((∃ e, (a.record c).world = w.deliver q.thread q.consumer (.failed e)) ↔
      ∃ v ∈ q.futures.toList, w.store.heap.future? v = none) ∧
    (∀ i v, Join.Refused w.store.heap q.futures.toList i v → ∃ e : Cause,
      e.failure = ⟨.type, "wait_until_completed: element " ++ toString i ++ " is " ++
        (w.store.heap.typeOf v).text ++ ", expected Future"⟩ ∧
      (a.record c).world = w.deliver q.thread q.consumer (.failed e)) ∧
    (q.futures = #[] → (a.record c).world = w.deliver q.thread q.consumer (.values #[])) ∧
    ∀ cells, q.futures.toList = cells.map .ref →
      (∀ f ∈ cells, ∃ slot, w.store.heap.object? f = some (.future slot)) →
      ∀ h earlier drift c', q.Goes w (a.record c) (h :: earlier) drift c' →
        q.Report w cells c.roots h earlier drift c' := by
  obtain ⟨hsize, hroots, hnext⟩ := hask.same
  have hworld : (a.record c).world = w.request q.thread q.request q.consumer := hask.apply_eq
  have hcount : (w.store.collector.rootCount : Int) = c.roots := by
    rw [Chronicle.roots, Collector.rootCount, hroots]
    rfl
  have ht : q.thread < w.threads.size := hsize ▸ Act.lt_size_of_actor ha.1 hask.actor
  have hdrawn : w.Drawn := by
    obtain ⟨own, hsound, -⟩ := hrun.hosted
    have hids : w.rootIds = c.world.rootIds := congrArg (List.map Prod.fst) hroots
    exact ⟨hids ▸ hsound.drawn.nodup, hids ▸ hnext ▸ hsound.drawn.lt⟩
  have hbegins : ∀ cells : List CellId, q.futures.toList = cells.map .ref →
      (∀ f ∈ cells, ∃ slot, w.store.heap.object? f = some (.future slot)) →
      q.Stands cells c.roots [w.store.heap] 0 (a.record c) := fun cells hcells hfutures =>
    hcount ▸ JoinCall.stands_begins hdrawn ht hcells hfutures hworld
  have hrefused : ∀ i v, Join.Refused w.store.heap q.futures.toList i v →
      (a.record c).world = w.deliver q.thread q.consumer
        (.failed (.notAFuture i (w.store.heap.typeOf v))) := by
    intro i v hv
    have herror := Join.futures_of_refused (i := 0) hv
    rw [Nat.zero_add] at herror
    rw [hworld]
    simp only [World.request, JoinCall.request, World.joinStart, herror]
  refine ⟨⟨?_, ?_⟩, fun i v hv => ⟨_, rfl, hrefused i v hv⟩, ?_, ?_⟩
  · rintro ⟨e, hfailed⟩
    by_contra hall
    obtain ⟨cells, hcells, hfutures⟩ := Join.exists_futures hall
    rcases hbegins cells hcells hfutures with hholding | hhanded
    · obtain ⟨anchor, results, -, hcontrol⟩ := hholding.control
      have hjoined := World.joined_deliver w q.thread q.consumer (.failed e)
      rw [← hfailed] at hjoined
      rcases hcontrol with ⟨f, d, hc⟩ | ⟨o, hc⟩ <;> rw [hc] at hjoined <;> cases hjoined
    · obtain ⟨w', heap, hhead, hheap, -, hvalues⟩ := hhanded.world
      obtain rfl : w.store.heap = heap := Option.some.inj hhead
      exact World.deliver_failed_ne_values ht hheap q.consumer e _ (hfailed.symm.trans hvalues)
  · intro hnone
    obtain ⟨i, v, hv⟩ := Join.exists_refused hnone
    exact ⟨_, hrefused i v hv⟩
  · intro hempty
    rw [hworld]
    simp only [World.request, JoinCall.request, World.joinStart, hempty, Join.futures]
  · intro cells hcells hfutures h earlier drift c' hgo
    exact hgo.report (hrun.act ha) hcells (hbegins cells hcells hfutures)

/-! ### A future that is listed twice, and results without their tags -/

/-- A host thread has two futures, the first of which is resolved. -/
def Chronicle.expecting : Chronicle :=
  List.foldl Act.record .standard
    [.spawn, .assign 0 .enroll, .step 0, .make 0 (.future none), .make 0 (.future none),
      .resolve 11 (.int 7)]

/-- The thread asks for the second future, the first and again the second. -/
def JoinCall.twice : JoinCall := ⟨0, .host, #[.ref 12, .ref 11, .ref 12], 10, true⟩

theorem run_expecting : Run Act.Proper .expecting :=
  (Run.standard _).acts ⟨⟨trivial, trivial⟩, ⟨⟨⟨by decide, rfl, rfl⟩, trivial⟩, rfl, trivial⟩,
    ⟨rfl, trivial⟩, ⟨trivial, rfl, by simp [Object.edges]⟩, ⟨trivial, rfl, by simp [Object.edges]⟩,
    ⟨trivial, by decide, by simp⟩, trivial⟩

/-- Asked for, the second future resolved, woken, and one more pass. -/
def Chronicle.expected : Chronicle :=
  List.foldl Act.record .expecting
    [.assign 0 (.request JoinCall.twice.request), .resolve 12 (.int 8), .step 0, .step 0]

/-- The first pass sees one of the futures resolved, the second pass the other one. -/
theorem goes_twice : JoinCall.twice.Goes Chronicle.expecting.world
    ((Act.assign 0 (.request JoinCall.twice.request)).record .expecting)
    [Chronicle.expected.world.store.heap, Chronicle.expecting.world.store.heap] 0 .expected := by
  let c₁ := (Act.assign 0 (.request JoinCall.twice.request)).record .expecting
  let c₂ := (Act.resolve 12 (.int 8)).record c₁
  let c₃ := (Act.step 0).record c₂
  have hresolve : (Act.resolve 12 (.int 8)).Proper c₁ := ⟨trivial, by decide +kernel, by simp⟩
  have hblocked : c₂.world.control 0 = .blocked (.resolvedBy 12 10)
      (.join ⟨[12, 12], 3, 4, 10, true⟩ .host) ∧ c₂.world.ready 0 = true := by decide +kernel
  have hleaving : c₃.world.control 0 = .leaving (.value (.int 8))
      (.join ⟨[12, 12], 3, 4, 10, true⟩ .host) ∧ c₃.world.ready 0 = true := by decide +kernel
  have hgo : JoinCall.twice.Goes Chronicle.expecting.world c₁
      [c₃.world.store.heap, Chronicle.expecting.world.store.heap] (0 + (c₂.roots - c₁.roots))
      .expected := by
    have haside := JoinCall.Goes.begins.aside (q := .twice) (w := Chronicle.expecting.world)
      hresolve (by decide +kernel) (by simp [Act.actor?])
    exact (haside.wakes ⟨hblocked.2, trivial⟩ hblocked.1).looks ⟨hleaving.2, trivial⟩ hleaving.1
  have hdrift : 0 + (c₂.roots - c₁.roots) = 0 := by decide +kernel
  have hheap : c₃.world.store.heap = Chronicle.expected.world.store.heap := by decide +kernel
  rwa [hdrift, hheap] at hgo

/-- A host thread has a future with a result that holds a result, and a future with a number. -/
def Chronicle.boxed : Chronicle :=
  List.foldl Act.record .standard
    [.spawn, .assign 0 .enroll, .step 0, .make 0 (.future none), .make 0 (.future none),
      .make 0 (.result false (.int 7)), .make 0 (.result true (.ref 13)), .resolve 11 (.ref 14),
      .resolve 12 (.int 8)]

/-- The thread asks for both, without their tags. -/
def JoinCall.untagged : JoinCall := ⟨0, .host, #[.ref 11, .ref 12], 10, false⟩

theorem run_boxed : Run Act.Proper .boxed :=
  (Run.standard _).acts ⟨⟨trivial, trivial⟩, ⟨⟨⟨by decide, rfl, rfl⟩, trivial⟩, rfl, trivial⟩,
    ⟨rfl, trivial⟩, ⟨trivial, rfl, by simp [Object.edges]⟩, ⟨trivial, rfl, by simp [Object.edges]⟩,
    ⟨trivial, rfl, by simp [Object.edges]⟩,
    ⟨trivial, rfl, fun v hv => List.mem_singleton.1 hv ▸ Heap.holds_ref.2 rfl⟩,
    ⟨trivial, by decide, Heap.holds_ref.2 rfl⟩, ⟨trivial, by decide, by simp⟩, trivial⟩

/-- With tags in two passes, and in one pass without the tags, one level deep. -/
theorem joins_complete_twice :
    (Run Act.Proper .expecting ∧ World.Asks Chronicle.expecting.world 0 JoinCall.twice.request
      (.assign 0 (.request JoinCall.twice.request)) .host Chronicle.expecting.world) ∧
    JoinCall.twice.Report Chronicle.expecting.world [12, 11, 12] Chronicle.expecting.roots
      Chronicle.expected.world.store.heap [Chronicle.expecting.world.store.heap] 0 .expected ∧
    Chronicle.expected.world.control 0 = .finished (.values #[.int 7, .int 8, .int 8]) ∧
    let asked := (Act.assign 0 (.request JoinCall.untagged.request)).record .boxed
    JoinCall.untagged.Report Chronicle.boxed.world [11, 12] Chronicle.boxed.roots
      Chronicle.boxed.world.store.heap [] 0 asked ∧
    asked.world.control 0 = .finished (.values #[.ref 13, .int 8]) ∧
    asked.world.store.heap.object? 13 = some (.result false (.int 7)) := by
  have hlive : ∀ v ∈ #[Value.ref 12, .ref 11, .ref 12],
      Chronicle.expecting.world.store.heap.Holds v := by
    simp only [List.mem_toArray, List.forall_mem_cons, Heap.holds_ref]
    exact ⟨by decide +kernel, by decide +kernel, by decide +kernel, by simp⟩
  have ha : (Act.assign 0 (.request JoinCall.twice.request)).Proper .expecting :=
    ⟨⟨⟨by decide, rfl, rfl⟩, trivial⟩, rfl, hlive⟩
  have hfutures : ∀ f ∈ [12, 11, 12], ∃ slot,
      Chronicle.expecting.world.store.heap.object? f = some (.future slot) := by
    simp only [List.forall_mem_cons]
    exact ⟨⟨none, by decide +kernel⟩, ⟨some (.int 7), by decide +kernel⟩, ⟨none, by decide +kernel⟩,
      by simp⟩
  have hreport := (joins_complete .twice .expecting _ _ run_expecting ha .task).2.2.2 [12, 11, 12]
    rfl hfutures _ _ _ _ goes_twice
  have hheld : ∀ v ∈ #[Value.ref 11, .ref 12], Chronicle.boxed.world.store.heap.Holds v := by
    simp only [List.mem_toArray, List.forall_mem_cons, Heap.holds_ref]
    exact ⟨by decide +kernel, by decide +kernel, by simp⟩
  have hasked : (Act.assign 0 (.request JoinCall.untagged.request)).Proper .boxed :=
    ⟨⟨⟨by decide, rfl, rfl⟩, trivial⟩, rfl, hheld⟩
  have hboxed : ∀ f ∈ [11, 12], ∃ slot,
      Chronicle.boxed.world.store.heap.object? f = some (.future slot) := by
    simp only [List.forall_mem_cons]
    exact ⟨⟨some (.ref 14), by decide +kernel⟩, ⟨some (.int 8), by decide +kernel⟩, by simp⟩
  have huntagged := (joins_complete .untagged .boxed _ _ run_boxed hasked .task).2.2.2 [11, 12] rfl
    hboxed _ _ _ _ .begins
  exact ⟨⟨run_expecting, .task⟩, hreport, by decide +kernel, huntagged, by decide +kernel,
    by decide +kernel⟩

end ScriptCore
