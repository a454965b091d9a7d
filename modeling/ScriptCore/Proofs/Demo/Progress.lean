import ScriptCore.Proofs.Demo.Outcome

/-!
# The demonstration can always be finished

In every state of a course someone can make a step, whoever it is that the others wait for: an
isolate waits for a collection only, a collection only for isolates, and the main thread for
isolates and collections. Every isolate comes closer to its end with each of its steps, so there is
a way from every state to the summary.

* `Good.exists_ready`: while the main thread is parked, an isolate can go on;
* `State.ahead`: what lies ahead of a state;
* `Good.advances`, `Good.ends`: a move that brings a state closer to its end, and the end.
-/

namespace ScriptCore

namespace World

section count

variable {p q : Thread → Bool} {w : World}

theorem exists_of_one_le_count (h : 1 ≤ w.count p) :
    ∃ t < w.threads.size, p (w.thread t) = true := by
  obtain ⟨t, ht⟩ := Finset.card_pos.1 h
  exact ⟨t, Finset.mem_range.1 (Finset.mem_filter.1 ht).1, (Finset.mem_filter.1 ht).2⟩

theorem exists_of_count_lt (h : w.count p < w.count q) :
    ∃ t < w.threads.size, q (w.thread t) = true ∧ p (w.thread t) = false := by
  obtain ⟨t, hq, hp⟩ := Finset.exists_mem_notMem_of_card_lt_card h
  obtain ⟨ht, hqt⟩ := Finset.mem_filter.1 hq
  refine ⟨t, Finset.mem_range.1 ht, hqt, Bool.eq_false_iff.2 fun hpt => ?_⟩
  exact hp (Finset.mem_filter.2 ⟨ht, hpt⟩)

end count

/-- The steps that the isolates are from their ends. -/
def togo (w : World) : Nat :=
  ∑ j ∈ Finset.range (w.threads.size - 1), (w.thread (j + 1)).togo

/-- The isolates do not notice what the main thread does. -/
theorem togo_congr {w w' : World} (hsize : w'.threads.size = w.threads.size)
    (hothers : ∀ u, u ≠ 0 → w'.thread u = w.thread u) : w'.togo = w.togo := by
  rw [togo, togo, hsize]
  exact Finset.sum_congr rfl fun j _ => by rw [hothers (j + 1) (Nat.succ_ne_zero j)]

/-- A new isolate has all its steps before it. -/
theorem togo_born {w w' : World} {n : Nat} {name : String} {i : Isolate}
    (hold : w.threads.size = n + 1) (hsize : w'.threads.size = n + 1 + 1)
    (hothers : ∀ u, u ≠ 0 → w'.thread u = if u = w.threads.size then
      { name, role := .isolate i, control := .enrolling } else w.thread u) :
    w'.togo = w.togo + 37 := by
  rw [togo, togo, hsize, hold, Nat.add_sub_cancel, Nat.add_sub_cancel, Finset.sum_range_succ,
    hothers _ (Nat.succ_ne_zero _), if_pos hold.symm]
  refine congrArg (· + 37) (Finset.sum_congr rfl fun j hj => ?_)
  rw [hothers _ (Nat.succ_ne_zero _), if_neg]
  rw [hold]
  exact fun heq => (Finset.mem_range.1 hj).ne (Nat.succ.inj heq)

end World

/-- What a thread in a wait is from the end of that. -/
def Control.waits : Control → Nat
  | .blocked _ _ => 2
  | .leaving _ _ => 1
  | _ => 0

theorem Control.waits_le (c : Control) : c.waits ≤ 2 := by
  cases c <;> simp [waits]

namespace Demo

open World

variable {o : Options} {own : Ledger} {d b : CellId} {cells : List CellId} {s : State}

/-! ### Someone can go on -/

/-- Only a collection holds an isolate up. -/
theorem ready_of_plain {w : World} {t : ThreadId} (hplain : (w.control t).plain = true)
    (hcollecting : w.collecting = true → (w.control t).parked = false ∧ w.control t ≠ .enrolling)
    (hcoordinates : w.collecting = false → (w.control t).coordinates = false)
    (hgone : w.control t ≠ .gone) : w.ready t = true := by
  unfold World.ready
  cases hw : w.collecting with
  | false =>
    have hfree := hcoordinates hw
    revert hplain hgone hfree
    cases w.control t <;> simp [Control.plain, Control.interprets, Control.coordinates]
  | true =>
    obtain ⟨hparked, henrolling⟩ := hcollecting hw
    revert hplain hgone hparked henrolling
    cases w.control t <;> simp [Control.plain, Control.interprets, Control.parked]

namespace Good

theorem plain (h : Good o own d b cells s) {j : Nat} (hj : j < cells.length) :
    (s.world.control (j + 1)).plain = true := by
  obtain ⟨i, -, -, -, -, hstage⟩ := h.crew.isolate j _ (List.getElem?_eq_getElem hj)
  exact hstage.plain

/-- An isolate that is gone has left the collector and has published. -/
theorem resolved_of_gone (h : Good o own d b cells s) {j : Nat} (hj : j < cells.length)
    (hgone : s.world.control (j + 1) = .gone) :
    (s.world.thread (j + 1)).storage = none ∧
      ∃ v, s.world.store.heap.resolved? cells[j] = some v := by
  obtain ⟨i, -, hfuture, -, -, hstage⟩ := h.crew.isolate j _ (List.getElem?_eq_getElem hj)
  have hcontrol : (s.world.thread (j + 1)).control = .gone := hgone
  cases hstage with
  | early hc =>
    rw [hcontrol] at hc
    simp at hc
  | calling _ _ hc =>
    rw [hcontrol] at hc
    cases hc
  | ended hc =>
    rw [hcontrol] at hc
    simp [Control.ending?] at hc
  | reported hclosing _ hreported =>
    obtain ⟨r, e, v, hobject, -⟩ := hreported
    rw [hcontrol] at hclosing
    exact ⟨hclosing.1, .ref r, hfuture ▸ JoinCall.resolved?_eq_some_iff.2 hobject⟩

theorem exists_number (h : Good o own d b cells s) {t : ThreadId} (ht : t < s.world.threads.size)
    (hne : t ≠ 0) : ∃ j < cells.length, t = j + 1 := by
  obtain ⟨j, rfl⟩ := Nat.exists_eq_succ_of_ne_zero hne
  rw [h.crew.size] at ht
  exact ⟨j, Nat.lt_of_succ_lt_succ ht, rfl⟩

/-- The main thread coordinates no collection. -/
theorem main_free (h : Good o own d b cells s) : (s.world.thread 0).coordinates = false := by
  cases h.front with
  | launching _ hc | asked _ hc | admitted _ hc | started _ hc | waiting _ hc | passing _ hc
  | complete _ hc =>
    rw [Thread.coordinates, show (s.world.thread 0).control = _ from hc]
    rfl

/-- A collection waits for nobody but isolates, if the main thread is parked. -/
theorem exists_ready_of_collecting (h : Good o own d b cells s)
    (hmain : (s.world.control 0).parked = true) (hcollecting : s.world.collecting = true) :
    ∃ t ≠ 0, s.world.ready t = true := by
  have hcount := h.balanced.coordinators
  rw [show s.world.sync.collecting = true from hcollecting] at hcount
  obtain ⟨t, -, hcoordinates⟩ := exists_of_one_le_count hcount.ge
  have hcontrol : (s.world.control t).coordinates = true := hcoordinates
  have hne : t ≠ 0 := by
    rintro rfl
    rw [h.main_free] at hcoordinates
    cases hcoordinates
  cases hc : s.world.control t <;> rw [hc] at hcontrol <;>
    simp only [Control.coordinates, reduceCtorEq] at hcontrol
  case sweeping k => exact ⟨t, hne, by rw [World.ready, hc]⟩
  case gathering k =>
    cases hgathered : s.world.sync.gathered with
    | true => exact ⟨t, hne, by rw [World.ready, hc]; exact hgathered⟩
    | false =>
      -- someone registered is not parked, and nothing holds it up
      have hlt : s.world.count Thread.parked < s.world.count Thread.registered := by
        rw [← h.balanced.parked, ← h.balanced.mutators]
        exact Nat.lt_of_not_le (of_decide_eq_false hgathered)
      obtain ⟨u, hu, hregistered, hparked⟩ := exists_of_count_lt hlt
      have hunparked : (s.world.control u).parked = false := by
        rw [Thread.parked, show (s.world.thread u).storage.isSome = true from hregistered,
          Bool.true_and] at hparked
        exact hparked
      have hne : u ≠ 0 := by
        rintro rfl
        rw [hmain] at hunparked
        cases hunparked
      obtain ⟨j, hj, rfl⟩ := h.exists_number hu hne
      have horder := h.balanced.inOrder (j + 1)
      refine ⟨j + 1, hne, ready_of_plain (h.plain hj) (fun _ => ⟨hunparked, fun hc' => ?_⟩)
        (fun hno => ?_) fun hgone => ?_⟩
      · rw [Thread.InOrder, show (s.world.thread (j + 1)).control = _ from hc'] at horder
        rw [show (s.world.thread (j + 1)).registered = false from horder] at hregistered
        cases hregistered
      · rw [hcollecting] at hno
        cases hno
      · rw [Thread.registered, (h.resolved_of_gone hj hgone).1] at hregistered
        cases hregistered

/-- If nobody collects, an isolate can go on unless it is gone. -/
theorem exists_ready_of_present (h : Good o own d b cells s)
    (hcollecting : s.world.collecting = false) {j : Nat} (hj : j < cells.length)
    (hpresent : s.world.control (j + 1) ≠ .gone) : s.world.ready (j + 1) = true := by
  refine ready_of_plain (h.plain hj) ?_ (fun _ => ?_) hpresent
  · rw [hcollecting]
    nofun
  · cases hcoordinates : (s.world.control (j + 1)).coordinates with
    | false => rfl
    | true =>
      have hlt : j + 1 < s.world.threads.size := by
        rw [h.crew.size]
        exact Nat.succ_lt_succ hj
      have hsync := h.balanced.collecting_of_coordinates hlt hcoordinates
      rw [show s.world.sync.collecting = false from hcollecting] at hsync
      cases hsync

/-- While the main thread is parked, an isolate can go on, unless all have published and nobody
collects. -/
theorem exists_ready (h : Good o own d b cells s) (hmain : (s.world.control 0).parked = true) :
    (∃ t ≠ 0, s.world.ready t = true) ∨ s.world.collecting = false ∧
      ∀ c ∈ cells, ∃ v, s.world.store.heap.resolved? c = some v := by
  cases hcollecting : s.world.collecting with
  | true => exact .inl (h.exists_ready_of_collecting hmain hcollecting)
  | false =>
    by_cases hpresent : ∃ j < cells.length, s.world.control (j + 1) ≠ .gone
    · obtain ⟨j, hj, hgone⟩ := hpresent
      exact .inl ⟨j + 1, Nat.succ_ne_zero j, h.exists_ready_of_present hcollecting hj hgone⟩
    · refine .inr ⟨rfl, fun c hc => ?_⟩
      obtain ⟨j, hj, rfl⟩ := List.getElem_of_mem hc
      refine (h.resolved_of_gone hj ?_).2
      by_contra hgone
      exact hpresent ⟨j, hj, hgone⟩

/-- As long as the main thread has something to do, an isolate can go on, or it can, and then all
futures have values. -/
theorem busy (h : Good o own d b cells s) (hrest : s.world.atRest 0 = false) :
    (∃ t ≠ 0, s.world.ready t = true) ∨ s.world.ready 0 = true ∧
      ∀ c ∈ cells, ∃ v, s.world.store.heap.resolved? c = some v := by
  have hmain : (s.world.control 0).parked = true ∧ (s.world.collecting = false →
      (∀ c ∈ cells, ∃ v, s.world.store.heap.resolved? c = some v) → s.world.ready 0 = true) := by
    cases h.front with
    | launching _ hc | started _ hc | complete _ hc =>
      rw [World.atRest, hc] at hrest
      cases hrest
    | asked _ hc hcreating =>
      rw [World.ready, hc]
      refine ⟨rfl, fun _ _ => ?_⟩
      show (!s.world.store.creating) = true
      rw [hcreating]
      rfl
    | admitted _ hc | passing _ hc =>
      rw [World.ready, hc]
      refine ⟨rfl, fun hcollecting _ => ?_⟩
      rw [hcollecting]
      rfl
    | waiting _ hc hmem hseen =>
      rw [World.ready, hc]
      refine ⟨rfl, fun _ hresolved => ?_⟩
      obtain ⟨v, hv⟩ := hresolved _ (hseen.mem hmem)
      show (_ || _) = true
      rw [hv]
      rfl
  rcases h.exists_ready hmain.1 with hother | ⟨hcollecting, hresolved⟩
  · exact .inl hother
  · exact .inr ⟨hmain.2 hcollecting hresolved, hresolved⟩

end Good

/-! ### What lies ahead -/

/-- What the main thread is from its end when so many isolates are still to be started, the steps
of these included. -/
def Phase.rest (missing : Nat) (c : Control) : Phase → Nat
  | .launching => 60 * missing + 5
  | .starting => if c.waits = 0 then 60 * missing - 40 else 60 * missing + 2 + c.waits
  | .joining => c.waits + 1
  | _ => 0

/-- What lies ahead of a state when so many isolates are to be started all in all. -/
def State.ahead (n : Nat) (s : State) : Nat :=
  s.world.togo + s.phase.rest (n - s.futures.size) (s.world.control 0)

theorem Phase.rest_starting_le (missing : Nat) (c : Control) :
    Phase.starting.rest missing c ≤ 60 * missing + 4 := by
  have hwaits := c.waits_le
  simp only [Phase.rest]
  split <;> omega

theorem Phase.rest_joining_le (missing : Nat) (c : Control) : Phase.joining.rest missing c ≤ 3 :=
  Nat.succ_le_succ c.waits_le

namespace Good

/-- A step of an isolate brings it closer to its end. -/
theorem togo_turn (h : Good o own d b cells s) {t : ThreadId} (ht : t ≠ 0)
    (hready : s.world.ready t = true) {own' : Ledger} {i : Isolate} {th : Thread}
    (hturn : Turn own' t i s.world (s.world.step t) th) :
    (s.world.step t).togo < s.world.togo := by
  obtain ⟨j, -, rfl, hj, -⟩ := h.isolate_of_ready ht hready
  have hsize : s.world.threads.size - 1 = cells.length := by rw [h.crew.size, Nat.add_sub_cancel]
  rw [togo, togo, hturn.becomes.size, hsize]
  refine Finset.sum_lt_sum (fun k _ => ?_) ⟨j, Finset.mem_range.2 hj, ?_⟩
  · by_cases hk : k = j
    · subst hk
      rw [hturn.becomes.mine]
      exact hturn.togo.le
    · rw [hturn.becomes.others (k + 1) fun heq => hk (Nat.succ.inj heq)]
  · rw [hturn.becomes.mine]
    exact hturn.togo

end Good

/-- Some move brings a course closer to its end. -/
def Nears (o : Options) (d b : CellId) (s : State) : Prop :=
  ∃ own cells s', Moves o s s' ∧ Good o own d b cells s' ∧
    s'.ahead o.isolates.toNat < s.ahead o.isolates.toNat

namespace Good

/-- An isolate goes on. -/
theorem nears_of_isolate (h : Good o own d b cells s)
    (hN : ∀ j < o.isolates.toNat, 2 * j < 2 ^ 63) (hready : ∃ t ≠ 0, s.world.ready t = true) :
    Nears o d b s := by
  obtain ⟨t, ht, hready⟩ := hready
  obtain ⟨own', i, th, hgood, hturn⟩ := h.turn ht hready hN
  refine ⟨own', cells, _, .step hready, hgood, ?_⟩
  have hcontrol : (s.world.step t).control 0 = s.world.control 0 :=
    congrArg Thread.control (hturn.becomes.others 0 ht.symm)
  show (s.world.step t).togo + s.phase.rest _ ((s.world.step t).control 0) <
    s.world.togo + s.phase.rest _ (s.world.control 0)
  rw [hcontrol]
  exact Nat.add_lt_add_right (h.togo_turn ht hready hturn) _

/-- A move that changes only the main thread, and brings that closer to its end. -/
theorem nears_of_becomes {s' : State} {th : Thread} (hmove : Moves o s s')
    (hgood : Good o own d b cells s') (hbecomes : Becomes 0 th s.world s'.world)
    (hlt : s'.phase.rest (o.isolates.toNat - s'.futures.size) th.control <
      s.phase.rest (o.isolates.toNat - s.futures.size) (s.world.control 0)) : Nears o d b s := by
  refine ⟨own, cells, s', hmove, hgood, ?_⟩
  rw [State.ahead, State.ahead, togo_congr hbecomes.size hbecomes.others, hbecomes.control]
  exact Nat.add_lt_add_left hlt _

/-- The main thread starts an isolate. -/
theorem nears_of_bear (h : Good o own d b cells s) (hp : s.phase = .starting)
    (hready : s.world.ready 0 = true) {function : Value} {args : Array Value}
    (hc : s.world.control 0 = .leaving .done (.start function args .host))
    (hsize : s.futures.size = cells.length) (hlt : cells.length < o.isolates.toNat) :
    Nears o d b s := by
  obtain ⟨own', c, i, name, hgood, hc', hothers⟩ := h.bear hready hc
  refine ⟨own', _, _, .step hready, hgood, ?_⟩
  have hsize' : (s.world.step 0).threads.size = cells.length + 1 + 1 := by
    rw [hgood.crew.size, List.length_append, List.length_singleton]
  have htogo := togo_born h.crew.size hsize' hothers
  have hbefore : s.ahead o.isolates.toNat =
      s.world.togo + (60 * (o.isolates.toNat - cells.length) + 3) := by
    rw [State.ahead, hp, hc, hsize]
    rfl
  have hafter : State.ahead o.isolates.toNat { s with world := s.world.step 0 } =
      s.world.togo + 37 + (60 * (o.isolates.toNat - cells.length) - 40) := by
    show (s.world.step 0).togo + s.phase.rest (o.isolates.toNat - s.futures.size)
      ((s.world.step 0).control 0) = _
    rw [htogo, hp, hc', hsize]
    rfl
  rw [hbefore, hafter]
  omega

/-- **Every state** of a course has what the main thread prints before it, or a move that brings it
closer to that. -/
theorem advances (h : Good o own d b cells s) (hN : ∀ j < o.isolates.toNat, 2 * j < 2 ^ 63) :
    (∃ results, s.phase = .joining ∧ s.world.control 0 = .finished (.values results)) ∨
      Nears o d b s := by
  -- while the main thread has to wait, the isolates come first
  have hbusy : s.world.atRest 0 = false → (s.world.ready 0 = true →
      (∀ c ∈ cells, ∃ v, s.world.store.heap.resolved? c = some v) → Nears o d b s) →
      Nears o d b s := by
    intro hrest hmain
    rcases h.busy hrest with hother | ⟨hready, hresolved⟩
    · exact h.nears_of_isolate hN hother
    · exact hmain hready hresolved
  cases h.front with
  | launching hp hc hcreating hfutures hle =>
    refine .inr ?_
    have hsize : s.futures.size = cells.length := by simp [hfutures]
    rcases hle.lt_or_eq with hlt | heq
    · obtain ⟨own', c, hgood, hbecomes⟩ := h.launch hp (hsize ▸ hlt) rfl
      refine nears_of_becomes (.launch hp (hsize ▸ hlt)) hgood hbecomes ?_
      rw [hp]
      exact Nat.lt_succ_of_le (Phase.rest_starting_le _ c)
    · obtain ⟨own', -, c, hgood, hbecomes, -⟩ := h.join hp (hsize.trans heq)
      refine nears_of_becomes (.join hp (hsize.trans heq)) hgood hbecomes ?_
      rw [hp]
      refine (Phase.rest_joining_le _ c).trans_lt ?_
      exact Nat.lt_of_lt_of_le (by decide) (Nat.le_add_left 5 _)
  | asked hp hc =>
    refine .inr (hbusy (by rw [World.atRest, hc]) fun hready _ => ?_)
    obtain ⟨own', hgood, hbecomes⟩ := h.begin_start hready hc
    refine nears_of_becomes (.step hready) hgood hbecomes ?_
    rw [hp, hc]
    exact Nat.lt_succ_self _
  | admitted hp hc hfutures hlt =>
    refine .inr (hbusy (by rw [World.atRest, hc]) fun hready _ => ?_)
    exact h.nears_of_bear hp hready hc (by simp [hfutures]) hlt
  | @started c rest hp hc _ hcells hfutures hle =>
    obtain ⟨hgood, hbecomes⟩ := h.started hp hc
    refine .inr (nears_of_becomes (.started hp hc) hgood hbecomes ?_)
    have hsize : s.futures.size + 1 ≤ o.isolates.toNat := by
      rw [hcells, List.length_append, List.length_singleton] at hle
      rw [hfutures]
      simpa using hle
    rw [hp, hc]
    show 60 * (o.isolates.toNat - (s.futures.push (.ref c)).size) + 5 <
      60 * (o.isolates.toNat - s.futures.size) - 40
    rw [Array.size_push]
    omega
  | waiting hp hc =>
    refine .inr (hbusy (by rw [World.atRest, hc]) fun hready _ => ?_)
    obtain ⟨own', outcome, hgood, hbecomes, -⟩ := h.wake hready hc
    refine nears_of_becomes (.step hready) hgood hbecomes ?_
    rw [hp, hc]
    exact Nat.lt_succ_self _
  | passing hp hc hseen =>
    refine .inr (hbusy (by rw [World.atRest, hc]) fun hready hresolved => ?_)
    obtain ⟨own', c, hgood, hbecomes, hpassed⟩ := h.collects hready hc
    refine nears_of_becomes (.step hready) hgood hbecomes ?_
    rw [hp, hc]
    cases hpassed with
    | complete => exact Nat.lt_succ_self _
    | waiting hmissing =>
      -- nothing is missing any more
      obtain ⟨hf, hnone⟩ := List.mem_filter.1 (hmissing ▸ List.mem_cons_self)
      obtain ⟨v, hv⟩ := hresolved _ (hseen.mem hf)
      rw [hv] at hnone
      cases hnone
  | complete hp hc => exact .inl ⟨_, hp, hc⟩

/-- A course under way has printed nothing and is not broken. -/
theorem under_way (h : Good o own d b cells s) :
    (∀ lines, s.phase ≠ .over lines) ∧ ∀ b, s.phase ≠ .broken b := by
  cases h.front with
  | launching hp | asked hp | admitted hp | started hp | waiting hp | passing hp | complete hp =>
    simp [hp]

/-- From every state of a course there is a way to its end. -/
theorem ends (h : Good o own d b cells s) (hN : ∀ j < o.isolates.toNat, 2 * j < 2 ^ 63) :
    ∃ s' lines, Relation.ReflTransGen (Moves o) s s' ∧ s'.phase = .over lines := by
  induction hn : s.ahead o.isolates.toNat using Nat.strong_induction_on
    generalizing own cells s with
  | _ n ih =>
    rcases h.advances hN with ⟨results, hp, hc⟩ | ⟨own', cells', s', hmove, hgood, hlt⟩
    · exact ⟨_, _, .single (.finish hp hc), rfl⟩
    · obtain ⟨s'', lines, hcourse, hover⟩ := ih _ (hn ▸ hlt) hgood rfl
      exact ⟨s'', lines, .head hmove hcourse, hover⟩

end Good

end Demo

end ScriptCore
