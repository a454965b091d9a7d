import ScriptCore.Proofs.Demo.Course
import ScriptCore.Proofs.Isolate.Outcome

/-!
# What the demonstration prints

Whatever the schedule, the outcomes are those of the isolates, in some order, nothing has been
freed, and what is allocated is what the functions, futures, results and errors take.
-/

namespace ScriptCore.Demo

open World

variable {o : Options} {own : Ledger} {d b : CellId} {cells : List CellId} {s : State}

/-! ### The lines -/

/-- The line about the isolate with number `j`. -/
def line (k j : Nat) : String :=
  if fails k j then "Err(ArithmeticError: division by zero)" else "Ok(" ++ toString (2 * j) ++ ")"

/-- What is to be printed: a line for every isolate, in some order, the summary, and the counters of
a collector that has freed nothing. -/
def Printed (o : Options) (lines : List String) : Prop :=
  let count := o.isolates.toNat
  let failed := count / o.failEvery.toNat
  ∃ outcomes : List String, ∃ counters : Statistics,
    outcomes.Perm ((List.range count).map (line o.failEvery.toNat)) ∧
    counters.freed = 0 ∧ counters.allocCount = 2 + 2 * count + failed ∧
    lines = outcomes ++ [toString count ++ " isolates, " ++ toString (count - failed) ++
      " succeeded, " ++ toString failed ++ " failed", counters.text]

/-- Every so many isolates one fails. -/
theorem sum_fails (k n : Nat) : ∑ j ∈ Finset.range n, (fails k j).toNat = n / k := by
  rw [← Nat.card_multiples, Finset.card_filter]
  refine Finset.sum_congr rfl fun j _ => ?_
  have hiff : fails k j = true ↔ k ∣ j + 1 := by
    rw [fails, Bool.and_eq_true, decide_eq_true_iff, beq_iff_eq, ← Nat.dvd_iff_mod_eq_zero]
    exact ⟨fun h => h.2, fun h => ⟨Nat.pos_of_dvd_of_pos h j.succ_pos, h⟩⟩
  by_cases hk : k ∣ j + 1
  · rw [if_pos hk, hiff.2 hk]
    rfl
  · rw [if_neg hk, Bool.eq_false_iff.2 fun h => hk (hiff.1 h)]
    rfl

theorem countP_range (p : Nat → Bool) (n : Nat) :
    (List.range n).countP p = ∑ j ∈ Finset.range n, (p j).toNat := by
  induction n with
  | zero => rfl
  | succ n ih =>
    rw [List.range_succ, List.countP_append, Finset.sum_range_succ, ih, List.countP_singleton]
    cases p n <;> rfl

/-- A published answer is shown as the line about its isolate. -/
theorem Answers.shown {k j : Nat} {h : Heap} {e : Bool} {v : Value} (ha : Answers k j h e v)
    (hj : 2 * j < 2 ^ 63) {r : CellId} (hr : h.object? r = some (.result e v)) :
    h.result? (.ref r) = some (fails k j, v) ∧ h.text? (.ref r) = some (line k j) := by
  have hsize : ∃ n, h.size = n + 1 :=
    Nat.exists_eq_succ_of_ne_zero (Nat.ne_of_gt (Nat.zero_lt_of_lt (Heap.lt_size_of_object? hr)))
  obtain ⟨n, hn⟩ := hsize
  refine ⟨?_, ?_⟩
  · rw [← ha.error]
    simp [Heap.result?, Heap.deref?, hr]
  · unfold Answers at ha
    unfold line Heap.text?
    rw [hn]
    split at ha
    · rename_i hfails
      obtain ⟨rfl, c, rfl, hc⟩ := ha
      rw [if_pos hfails]
      simp only [Heap.textWithin, hr, hc]
      decide
    · rename_i hfails
      obtain ⟨rfl, rfl⟩ := ha
      rw [if_neg hfails]
      simp only [Heap.textWithin, hr, Int64.toInt_ofNat_of_lt hj]
      rfl

/-! ### The end of the join -/

/-- The isolate of a future that has a value has published. -/
theorem Good.shown (h : Good o own d b cells s) (hN : ∀ j < o.isolates.toNat, 2 * j < 2 ^ 63)
    {j : Nat} {c : CellId} (hj : cells[j]? = some c) {v : Value}
    (hv : s.world.store.heap.resolved? c = some v) :
    (∃ p, s.world.store.heap.result? v = some (fails o.failEvery.toNat j, p)) ∧
      s.world.store.heap.text? v = some (line o.failEvery.toNat j) ∧
      (s.world.thread (j + 1)).cells = 2 + (fails o.failEvery.toNat j).toNat := by
  have hobject := JoinCall.resolved?_eq_some_iff.1 hv
  obtain ⟨i, hrole, rfl, -, -, hstage⟩ := h.crew.isolate j c hj
  have hlt : j < o.isolates.toNat :=
    (List.getElem?_eq_some_iff.1 hj).1.trans_le h.length_le
  cases hstage with
  | early _ _ hnone | calling _ _ _ _ hnone | ended _ _ _ hnone =>
    rw [hobject] at hnone
    cases hnone
  | reported hclosing hvm hreported =>
    obtain ⟨r, e, v', hfuture, hresult, hanswers⟩ := hreported
    rw [hobject] at hfuture
    cases hfuture
    obtain ⟨hshown, htext⟩ := hanswers.shown (hN j hlt) hresult
    refine ⟨⟨v', hshown⟩, htext, ?_⟩
    have hreported := Control.Closing.reported hclosing
    simp only [Thread.cells, hrole, hvm, hreported, Bool.toNat_true]
    omega

/-- Lists whose members correspond have the same image. -/
theorem map_eq_of_forall₂ {α β γ : Type} {f : α → γ} {g : β → γ} {as : List α} {bs : List β}
    (h : List.Forall₂ (fun a b => g b = f a) as bs) : bs.map g = as.map f := by
  induction h with
  | nil => rfl
  | cons hhead _ ih => rw [List.map_cons, List.map_cons, hhead, ih]

/-- The join has ended with the values of all futures, in the order in which they have come. -/
theorem Good.collected (h : Good o own d b cells s) {results : Array Value}
    (hp : s.phase = .joining) (hc : s.world.control 0 = .finished (.values results)) :
    ∃ order : List CellId, order.Perm cells ∧
      Collected s.world.store.heap order results.toList ∧ cells.length = o.isolates.toNat := by
  cases h.front with
  | complete _ hc' hperm hcollected hlen =>
    rw [hc] at hc'
    cases hc'
    exact ⟨_, hperm, hcollected, hlen⟩
  | launching hp' | asked hp' | admitted hp' | started hp' =>
    rw [hp] at hp'
    cases hp'
  | waiting _ hc' | passing _ hc' =>
    rw [hc] at hc'
    cases hc'

/-- Each isolate is behind one of the values, which is shown as the line about it. -/
theorem Good.numbered (h : Good o own d b cells s) (hN : ∀ j < o.isolates.toNat, 2 * j < 2 ^ 63)
    {order : List CellId} {vs : List Value} (hperm : order.Perm cells)
    (hcollected : Collected s.world.store.heap order vs) (hlen : cells.length = o.isolates.toNat) :
    ∃ js : List Nat, js.Perm (List.range o.isolates.toNat) ∧
      List.Forall₂ (fun j v =>
        (∃ p, s.world.store.heap.result? v = some (fails o.failEvery.toNat j, p)) ∧
          s.world.store.heap.text? v = some (line o.failEvery.toNat j)) js vs := by
  refine ⟨order.map cells.idxOf, ?_, List.forall₂_map_left_iff.2
    (List.forall₂_iff_zip.2 ⟨hcollected.length_eq, fun {c v} hmem => ?_⟩)⟩
  · refine (hperm.map _).trans (.of_eq ?_)
    rw [← hlen]
    refine List.ext_getElem (by simp) fun n hn _ => ?_
    have hn' : n < cells.length := by simpa using hn
    simp [h.crew.distinct.idxOf_getElem n hn']
  · have hnumber := List.getElem?_idxOf (hperm.mem_iff.1 (List.of_mem_zip hmem).1)
    obtain ⟨hinfo, htext, -⟩ := h.shown hN hnumber ((List.forall₂_iff_zip.1 hcollected).2 hmem)
    exact ⟨hinfo, htext⟩

/-- Functions, futures, results and errors are all that is allocated. -/
theorem Good.allocCount_eq (h : Good o own d b cells s)
    (hN : ∀ j < o.isolates.toNat, 2 * j < 2 ^ 63) {order : List CellId} {vs : List Value}
    (hperm : order.Perm cells) (hcollected : Collected s.world.store.heap order vs)
    (hlen : cells.length = o.isolates.toNat) : s.world.store.collector.allocCount =
      2 + 2 * o.isolates.toNat + o.isolates.toNat / o.failEvery.toNat := by
  have hcells : ∀ j ∈ Finset.range o.isolates.toNat,
      (s.world.thread (j + 1)).cells = 2 + (fails o.failEvery.toNat j).toNat := by
    intro j hj
    have hlt : j < cells.length := hlen.symm ▸ Finset.mem_range.1 hj
    have hmem : cells[j] ∈ order := hperm.mem_iff.2 (List.getElem_mem hlt)
    obtain ⟨n, hn, hget⟩ := List.getElem_of_mem hmem
    have hv := hcollected.get hn (hcollected.length_eq ▸ hn)
    rw [List.get_eq_getElem, hget] at hv
    exact (h.shown hN (List.getElem?_eq_getElem hlt) hv).2.2
  have hhost : (s.world.thread 0).cells = 0 := by rw [Thread.cells, h.crew.host]
  rw [h.crew.count, total, h.crew.size, hlen, Finset.sum_range_succ', hhost, Nat.add_zero,
    Finset.sum_congr rfl hcells, Finset.sum_add_distrib, sum_fails, Finset.sum_const,
    Finset.card_range, smul_eq_mul]
  ring

/-- What the main thread prints when its join is done. -/
theorem Good.printed (h : Good o own d b cells s) (hN : ∀ j < o.isolates.toNat, 2 * j < 2 ^ 63)
    {results : Array Value} (hp : s.phase = .joining)
    (hc : s.world.control 0 = .finished (.values results)) :
    Printed o (summary s.world results) := by
  let k := o.failEvery.toNat
  let heap := s.world.store.heap
  obtain ⟨order, hperm, hcollected, hlen⟩ := h.collected hp hc
  obtain ⟨js, hjs, hshown⟩ := h.numbered hN hperm hcollected hlen
  have htexts : results.toList.map (fun v => (heap.text? v).getD "") = js.map (line k) :=
    map_eq_of_forall₂ (hshown.imp fun j v hv => by rw [hv.2, Option.getD_some])
  have herrors : results.toList.map (fun v => ((heap.result? v).map (·.1)).getD false) =
      js.map (fails k) :=
    map_eq_of_forall₂ (hshown.imp fun j v hv => by
      obtain ⟨p, hp⟩ := hv.1
      rw [hp, Option.map_some, Option.getD_some])
  have htagged : results.toList.filter (fun v => (heap.result? v).isSome) = results.toList := by
    have hall : results.toList.map (fun v => (heap.result? v).isSome) = js.map fun _ => true :=
      map_eq_of_forall₂ (hshown.imp fun j v hv => by
        obtain ⟨p, hp⟩ := hv.1
        rw [hp, Option.isSome_some])
    refine List.filter_eq_self.2 fun v hv => ?_
    have hmem := List.mem_map_of_mem (f := fun v => (heap.result? v).isSome) hv
    rw [hall] at hmem
    obtain ⟨-, -, heq⟩ := List.mem_map.1 hmem
    exact heq.symm
  have hsize : results.size = o.isolates.toNat := by
    rw [← Array.length_toList, ← hcollected.length_eq, hperm.length_eq, hlen]
  have hfailed : (results.toList.filter fun v => ((heap.result? v).map (·.1)).getD false).length =
      o.isolates.toNat / k := by
    have hid : ∀ {α : Type} (p : α → Bool) (l : List α), l.countP p = (l.map p).countP id :=
      fun p l => by rw [List.countP_map, Function.id_comp]
    rw [← List.countP_eq_length_filter, hid, herrors, ← hid, hjs.countP_eq, countP_range, sum_fails]
  refine ⟨results.toList.map fun v => (heap.text? v).getD "", s.world.store.collector.statistics,
    ?_, h.crew.freed, h.allocCount_eq hN hperm hcollected hlen, ?_⟩
  · rw [htexts]
    exact hjs.map (line k)
  · unfold summary
    simp only [htagged, hfailed, hsize, heap, k]

end ScriptCore.Demo
