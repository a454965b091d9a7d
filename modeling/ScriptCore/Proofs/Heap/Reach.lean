import Mathlib.Data.Finset.Card
import ScriptCore.Heap.Trace

/-!
# What a trace marks

The cells that a list of values reaches, and the worklist trace that marks them.

* `Mortal`, `Immortal`, `Points`: the heap as a graph;
* `Reaches`: reachability from a list of values;
* `ClearPath`: reachability along a path whose mortal cells carry no mark;
* `Trace.Inv`: the invariant of the worklist. Marked cells are reached, and a cell that got its mark
  in this trace and has left the worklist has met all its edges;
* `Trace.potential`: unmarked cells and cells on the worklist together; every round takes one away.

A cell that carries a mark before the trace is taken to be traced already: what only such cells lead
to stays unmarked. Immortal cells are never marked, so their edges have to be among the starts.
-/

namespace ScriptCore

namespace Heap

/-- A live cell that may be collected. -/
def Mortal (h : Heap) (c : CellId) : Prop := ∃ cell, h.get? c = some cell ∧ cell.immortal = false

/-- A live cell that is never collected. -/
def Immortal (h : Heap) (c : CellId) : Prop := ∃ cell, h.get? c = some cell ∧ cell.immortal = true

/-- The object of the first cell holds a reference to the second. -/
def Points (h : Heap) (c d : CellId) : Prop := ∃ o, h.object? c = some o ∧ .ref d ∈ o.edges

/-- A live cell without a mark, or an immortal one whatever its mark. -/
def Clear (h : Heap) (c : CellId) : Prop :=
  h.Immortal c ∨ h.Mortal c ∧ h.isMarked c = false

/-- Reached from some of the values through the edges of objects. -/
inductive Reaches (h : Heap) (starts : List Value) : CellId → Prop
  | start {c : CellId} : .ref c ∈ starts → Reaches h starts c
  | step {c d : CellId} : Reaches h starts c → h.Points c d → Reaches h starts d

/-- Reached from some of the values along clear cells, the last one included. -/
inductive ClearPath (h : Heap) (starts : List Value) : CellId → Prop
  | start {c : CellId} : .ref c ∈ starts → h.Clear c → ClearPath h starts c
  | step {c d : CellId} : ClearPath h starts c → h.Points c d → h.Clear d → ClearPath h starts d

variable {h : Heap} {starts : List Value} {c d : CellId}

theorem live_iff : h.Live c ↔ h.Mortal c ∨ h.Immortal c := by
  simp only [Live, Mortal, Immortal, Option.isSome_iff_exists]
  constructor
  · rintro ⟨cell, hc⟩
    cases hi : cell.immortal
    · exact .inl ⟨cell, hc, hi⟩
    · exact .inr ⟨cell, hc, hi⟩
  · rintro (⟨cell, hc, -⟩ | ⟨cell, hc, -⟩) <;> exact ⟨cell, hc⟩

theorem Mortal.live (hc : h.Mortal c) : h.Live c := live_iff.2 (.inl hc)

theorem Immortal.live (hc : h.Immortal c) : h.Live c := live_iff.2 (.inr hc)

theorem Mortal.not_immortal (hc : h.Mortal c) : ¬ h.Immortal c := by
  rintro ⟨cell, hcell, hi⟩
  obtain ⟨cell', hcell', hi'⟩ := hc
  simp_all

theorem object?_eq_some_iff {o : Object} :
    h.object? c = some o ↔ ∃ cell, h.get? c = some cell ∧ cell.object = o := by
  simp [object?]

theorem Points.live (hp : h.Points c d) : h.Live c := by
  obtain ⟨o, ho, -⟩ := hp
  obtain ⟨cell, hcell, -⟩ := object?_eq_some_iff.1 ho
  simp [Live, hcell]

theorem ClearPath.clear (hc : h.ClearPath starts c) : h.Clear c := by
  cases hc with
  | start _ hc => exact hc
  | step _ _ hc => exact hc

theorem ClearPath.reaches (hc : h.ClearPath starts c) : h.Reaches starts c := by
  induction hc with
  | start hc _ => exact .start hc
  | step _ hp _ ih => exact .step ih hp

/-- Without marks on mortal cells, paths are clear as long as they stay among live cells. -/
theorem Reaches.clearPath (hfree : ∀ c, h.Mortal c → h.isMarked c = false)
    (hc : h.Reaches starts c) (hlive : h.Live c) : h.ClearPath starts c := by
  have hclear : ∀ c, h.Live c → h.Clear c := fun c hc =>
    (live_iff.1 hc).elim (fun hm => .inr ⟨hm, hfree c hm⟩) .inl
  induction hc with
  | start hc => exact .start hc (hclear _ hlive)
  | step _ hp ih => exact .step (ih hp.live) hp (hclear _ hlive)

/-- What is reached is reached as well where all that is reached has stayed. -/
theorem Reaches.of_object? {h' : Heap}
    (hsame : ∀ c, h.Reaches starts c → h'.object? c = h.object? c) (hd : h.Reaches starts d) :
    h'.Reaches starts d := by
  induction hd with
  | start hd => exact .start hd
  | step hc hp ih =>
    obtain ⟨o, ho, hmem⟩ := hp
    exact .step ih ⟨o, (hsame _ hc).trans ho, hmem⟩

/-- Then nothing else is. -/
theorem reaches_congr {h' : Heap} (hsame : ∀ c, h.Reaches starts c → h'.object? c = h.object? c) :
    h'.Reaches starts d ↔ h.Reaches starts d := by
  refine ⟨fun hd => ?_, .of_object? hsame⟩
  induction hd with
  | start hd => exact .start hd
  | step _ hp ih =>
    obtain ⟨o, ho, hmem⟩ := hp
    exact .step ih ⟨o, (hsame _ ih).symm.trans ho, hmem⟩

end Heap

namespace Trace

open Heap

/-- The cell needs no more visit: it has a mark, or it never gets one. -/
def Met (h : Heap) (t : Trace) (c : CellId) : Prop := h.Mortal c → t.heap.isMarked c = true

/-- The invariant of a trace of `h` from `starts`, with some values still to be met. -/
structure Inv (h : Heap) (starts pending : List Value) (t : Trace) : Prop where
  /-- Only mark bits differ. -/
  same : ∀ c, t.heap.get? c =
    (h.get? c).map fun cell => { cell with marked := t.heap.isMarked c }
  immortal : ∀ c, h.Immortal c → t.heap.isMarked c = h.isMarked c
  grows : ∀ c, h.isMarked c = true → t.heap.isMarked c = true
  reached : ∀ c, t.heap.isMarked c = true → h.isMarked c = true ∨ h.ClearPath starts c
  work : ∀ c ∈ t.work, h.ClearPath starts c
  queued : ∀ c, .ref c ∈ pending → h.Clear c → h.ClearPath starts c
  entered : ∀ c, .ref c ∈ starts → Met h t c ∨ .ref c ∈ pending
  /-- A cell marked by this trace is on the worklist until its edges are met. -/
  scanned : ∀ c d, t.heap.isMarked c = true → h.isMarked c = false → c ∉ t.work →
    h.Points c d → Met h t d ∨ .ref d ∈ pending

variable {h : Heap} {starts pending : List Value} {t : Trace} {c d : CellId} {v : Value}

theorem inv_init (h : Heap) (starts : List Value) : Inv h starts starts ⟨h, []⟩ where
  same c := by
    cases hcell : h.get? c with
    | none => rfl
    | some cell => simp [isMarked, hcell]
  immortal _ _ := rfl
  grows _ hc := hc
  reached _ hc := .inl hc
  work c hc := absurd hc List.not_mem_nil
  queued _ hc hclear := .start hc hclear
  entered _ hc := .inr hc
  scanned c d hc hnot := by simp [hnot] at hc

namespace Inv

theorem object?_eq (hi : Inv h starts pending t) (c : CellId) :
    t.heap.object? c = h.object? c := by
  rw [object?, hi.same, Option.map_map]
  rfl

/-- A value that is met leaves the pending ones. -/
theorem dismiss (hi : Inv h starts (v :: pending) t) (hv : ∀ c, v = .ref c → Met h t c) :
    Inv h starts pending t := by
  have hmet : ∀ c, .ref c ∈ v :: pending → Met h t c ∨ .ref c ∈ pending := by
    intro c hc
    rcases List.mem_cons.1 hc with rfl | hc
    · exact .inl (hv c rfl)
    · exact .inr hc
  refine ⟨hi.same, hi.immortal, hi.grows, hi.reached, hi.work, ?_, ?_, ?_⟩
  · exact fun c hc => hi.queued c (List.mem_cons_of_mem _ hc)
  · exact fun c hc => (hi.entered c hc).elim .inl (hmet c)
  · exact fun c d hc hnot hw hp => (hi.scanned c d hc hnot hw hp).elim .inl (hmet d)

/-- Marking a mortal cell without a mark and putting it on the worklist. -/
theorem mark (hi : Inv h starts (.ref c :: pending) t) (hc : h.Mortal c)
    (hnot : t.heap.isMarked c = false) :
    Inv h starts pending ⟨t.heap.mark c, c :: t.work⟩ := by
  have hnot' : h.isMarked c = false := by
    cases hm : h.isMarked c with
    | false => rfl
    | true => rw [hi.grows c hm] at hnot; exact hnot
  have hlive : (t.heap.get? c).isSome := by
    rw [hi.same, Option.isSome_map]
    exact hc.live
  have hmark : ∀ d, (t.heap.mark c).isMarked d = if c = d then true else t.heap.isMarked d := by
    intro d
    rw [isMarked_mark]
    split
    · rename_i hcd; rw [← hcd, hlive]
    · rfl
  have hpath : h.ClearPath starts c :=
    hi.queued c List.mem_cons_self (.inr ⟨hc, hnot'⟩)
  have hmet : ∀ d, Met h t d ∨ .ref d ∈ (.ref c : Value) :: pending →
      Met h ⟨t.heap.mark c, c :: t.work⟩ d ∨ .ref d ∈ pending := by
    intro d hd
    by_cases hcd : c = d
    · exact .inl fun _ => (hmark d).trans (if_pos hcd)
    · refine hd.imp (fun hm hmortal => ?_) fun hmem => ?_
      · simpa [hmark, hcd] using hm hmortal
      · exact (List.mem_cons.1 hmem).resolve_left fun heq => hcd (by cases heq; rfl)
  -- the fields of the invariant in their order; each asks whether the cell is the new grey one
  refine ⟨?_, ?_, ?_, ?_, ?_, ?_, ?_, ?_⟩
  · intro d
    show (t.heap.mark c).get? d = _
    rw [Heap.mark, get?_modify, ← Heap.mark, hmark]
    by_cases hcd : c = d
    · subst hcd
      simp only [↓reduceIte, hi.same, Option.map_map]
      rfl
    · simpa only [hcd, ↓reduceIte] using hi.same d
  · intro d hd
    have hcd : c ≠ d := fun hcd => hc.not_immortal (hcd ▸ hd)
    simpa [hmark, hcd] using hi.immortal d hd
  · intro d hd
    by_cases hcd : c = d
    · exact (hmark d).trans (if_pos hcd)
    · simpa [hmark, hcd] using hi.grows d hd
  · intro d hd
    by_cases hcd : c = d
    · exact .inr (hcd ▸ hpath)
    · exact hi.reached d (by simpa [hmark, hcd] using hd)
  · intro d hd
    rcases List.mem_cons.1 hd with rfl | hd
    · exact hpath
    · exact hi.work d hd
  · exact fun d hd => hi.queued d (List.mem_cons_of_mem _ hd)
  · exact fun d hd => hmet d (hi.entered d hd)
  · intro b d hb hnotb hw hp
    have hcb : c ≠ b := fun hcb => hw (hcb ▸ List.mem_cons_self)
    refine hmet d (hi.scanned b d ?_ hnotb (fun hmem => hw (List.mem_cons_of_mem _ hmem)) hp)
    simpa [hmark, hcb] using hb

theorem visit (hi : Inv h starts (v :: pending) t) : Inv h starts pending (t.visit v) := by
  cases v with
  | ref c =>
    cases hcell : t.heap.get? c with
    | none =>
      have hdead : ¬ h.Mortal c := by
        rintro ⟨cell, hget, -⟩
        simp [hi.same c, hget] at hcell
      have hstay : t.visit (.ref c) = t := by simp [Trace.visit, hcell]
      rw [hstay]
      refine hi.dismiss ?_
      rintro _ ⟨⟩ hm
      exact absurd hm hdead
    | some cell =>
      by_cases hpass : cell.immortal || cell.marked
      -- immortal, or marked already: a mark from before the trace hides what is below the cell
      · have hstay : t.visit (.ref c) = t := by simp only [Trace.visit, hcell, hpass, ↓reduceIte]
        rw [hstay]
        refine hi.dismiss ?_
        rintro _ ⟨⟩ ⟨old, hold, himm⟩
        rw [hi.same c, hold] at hcell
        cases hcell
        simpa [himm] using hpass
      · have hgo : t.visit (.ref c) = ⟨t.heap.mark c, c :: t.work⟩ := by
          simp only [Trace.visit, hcell, hpass, Bool.false_eq_true, ↓reduceIte]
        simp only [Bool.or_eq_true, not_or, Bool.not_eq_true] at hpass
        have hmortal : h.Mortal c := by
          have hsame := hi.same c
          rw [hcell] at hsame
          obtain ⟨old, hold, heq⟩ := Option.map_eq_some_iff.1 hsame.symm
          exact ⟨old, hold, by rw [← hpass.1, ← heq]⟩
        rw [hgo]
        exact hi.mark hmortal (by simp [isMarked, hcell, hpass.2])
  | nil | bool _ | int _ | float _ => exact hi.dismiss (by simp)

theorem visitAll {vs : List Value} (hi : Inv h starts (vs ++ pending) t) :
    Inv h starts pending (t.visitAll vs) := by
  induction vs generalizing t with
  | nil => exact hi
  | cons v vs ih => exact ih hi.visit

/-- Taking a cell from the worklist makes its edges pending. -/
theorem take {rest : List CellId} (hi : Inv h starts [] t) (hw : t.work = c :: rest) :
    Inv h starts ((h.object? c).map Object.edges |>.getD []) ⟨t.heap, rest⟩ := by
  have hpath : h.ClearPath starts c := hi.work c (by simp [hw])
  refine ⟨hi.same, hi.immortal, hi.grows, hi.reached, ?_, ?_, ?_, ?_⟩
  · exact fun d hd => hi.work d (by rw [hw]; exact List.mem_cons_of_mem _ hd)
  · intro d hd hclear
    cases ho : h.object? c with
    | none => simp [ho] at hd
    | some o => exact .step hpath ⟨o, ho, by simpa [ho] using hd⟩ hclear
  · exact fun d hd => .inl ((hi.entered d hd).resolve_right List.not_mem_nil)
  · intro b d hb hnot hmem hp
    by_cases hbc : b = c
    -- the cell has left the worklist, and its edges wait among the pending values instead
    · obtain ⟨o, ho, hd⟩ := hbc ▸ hp
      exact .inr (by simpa [ho] using hd)
    · have hout : b ∉ t.work := by simp [hw, hbc, hmem]
      exact .inl ((hi.scanned b d hb hnot hout hp).resolve_right List.not_mem_nil)

theorem drain (hi : Inv h starts [] t) (rounds : Nat) : Inv h starts [] (t.drain rounds) := by
  fun_induction Trace.drain rounds t with
  | case1 | case2 => exact hi
  | case3 rounds t c rest hw edges ih =>
    refine ih (visitAll ?_)
    have hedges : edges = ((h.object? c).map Object.edges).getD [] := by
      simp only [edges, hi.object?_eq]
    rw [List.append_nil, hedges]
    exact hi.take hw

end Inv

/-! ### The trace ends -/

/-- A live mortal cell without a mark. -/
def isWhite (h : Heap) (c : CellId) : Bool :=
  match h.get? c with
  | some cell => !(cell.immortal || cell.marked)
  | none => false

/-- The rounds a trace may still take: unmarked cells and cells on the worklist. -/
def potential (t : Trace) : Nat :=
  t.work.length + ((Finset.range t.heap.size).filter fun c => isWhite t.heap c).card

/-- Marking a white cell takes it out of the white ones. -/
theorem card_white_mark (hc : isWhite h c = true) :
    ((Finset.range h.size).filter fun d => isWhite (h.mark c) d).card + 1 =
      ((Finset.range h.size).filter fun d => isWhite h d).card := by
  have hlive : h.Live c := by
    unfold isWhite at hc
    split at hc
    · rename_i cell hcell; simp [Live, hcell]
    · cases hc
  have hmem : c ∈ (Finset.range h.size).filter fun d => isWhite h d := by
    simp [hc, lt_size_of_live hlive]
  have hset : ((Finset.range h.size).filter fun d => isWhite (h.mark c) d) =
      ((Finset.range h.size).filter fun d => isWhite h d).erase c := by
    ext d
    by_cases hcd : c = d
    · subst hcd
      cases hcell : h.get? c <;> simp [isWhite, Heap.mark, get?_modify, hcell]
    · simp [isWhite, Heap.mark, get?_modify, hcd, Ne.symm hcd]
  rw [hset, Finset.card_erase_add_one hmem]

theorem potential_visit (t : Trace) (v : Value) : (t.visit v).potential = t.potential := by
  unfold visit
  split
  · rename_i c
    split
    · rename_i cell hcell
      split
      · rfl
      · rename_i hpass
        have hwhite : isWhite t.heap c = true := by
          simp only [isWhite, hcell]
          simpa using hpass
        have hcard := card_white_mark hwhite
        have hsize : (t.heap.mark c).size = t.heap.size := size_modify _ _ _
        simp only [potential, List.length_cons, hsize]
        omega
    · rfl
  · rfl

theorem potential_visitAll (t : Trace) (vs : List Value) :
    (t.visitAll vs).potential = t.potential := by
  induction vs generalizing t with
  | nil => rfl
  | cons v vs ih => rw [visitAll_cons, ih, potential_visit]

/-- Enough rounds empty the worklist. -/
theorem work_drain {rounds : Nat} (hr : t.potential ≤ rounds) : (t.drain rounds).work = [] := by
  fun_induction Trace.drain rounds t with
  | case1 t =>
    have hlen : t.work.length = 0 := by unfold potential at hr; omega
    exact List.length_eq_zero_iff.1 hlen
  | case2 rounds t hw => exact hw
  | case3 rounds t c rest hw edges ih =>
    -- visits keep the potential, so the round costs the cell it takes
    refine ih ?_
    rw [potential_visitAll]
    simp only [potential, hw, List.length_cons] at hr ⊢
    omega

theorem potential_init_le (h : Heap) : (Trace.mk h []).potential ≤ h.size := by
  have hle := Finset.card_filter_le (Finset.range h.size) fun c => isWhite h c = true
  simpa [potential] using hle

end Trace

namespace Heap

variable {h : Heap} {starts : List Value} {c d : CellId}

/-- The trace behind `Heap.trace` comes to an end: nothing is left to follow. -/
theorem work_trace (h : Heap) (starts : List Value) :
    (((Trace.mk h []).visitAll starts).drain h.size).work = [] := by
  apply Trace.work_drain
  rw [Trace.potential_visitAll]
  exact Trace.potential_init_le h

theorem inv_trace (h : Heap) (starts : List Value) :
    Trace.Inv h starts [] (((Trace.mk h []).visitAll starts).drain h.size) := by
  refine Trace.Inv.drain (Trace.Inv.visitAll ?_) _
  rw [List.append_nil]
  exact Trace.inv_init h starts

/-- A trace changes nothing but mark bits. -/
theorem get?_trace (h : Heap) (starts : List Value) (c : CellId) :
    (h.trace starts).get? c =
      (h.get? c).map fun cell => { cell with marked := (h.trace starts).isMarked c } :=
  (inv_trace h starts).same c

/-- A trace marks no immortal cell. -/
theorem get?_trace_of_immortal (hc : h.Immortal c) : (h.trace starts).get? c = h.get? c := by
  obtain ⟨cell, hcell, -⟩ := id hc
  have hmark : (h.trace starts).isMarked c = h.isMarked c := (inv_trace h starts).immortal c hc
  rw [get?_trace, hmark, hcell]
  simp [isMarked, hcell]

/-- The edges of immortal cells have been met, so a clear path leads to a mark. -/
theorem isMarked_trace_of_clearPath (hedges : ∀ c d, h.Immortal c → h.Points c d → .ref d ∈ starts)
    (hp : h.ClearPath starts c) (hc : h.Mortal c) : (h.trace starts).isMarked c = true := by
  have hinv := inv_trace h starts
  have hmet : ∀ d, .ref d ∈ starts → h.Mortal d → (h.trace starts).isMarked d = true :=
    fun d hd => (hinv.entered d hd).resolve_right List.not_mem_nil
  induction hp with
  | start hstart _ => exact hmet _ hstart hc
  | @step b d hb hpoints _ ih =>
    rcases hb.clear with himm | ⟨hmortal, hnot⟩
    -- an immortal cell is never scanned: its edges are among the starts
    · exact hmet d (hedges b d himm hpoints) hc
    · have hwork : b ∉ (((Trace.mk h []).visitAll starts).drain h.size).work := by
        simp [work_trace]
      exact ((hinv.scanned b d (ih hmortal) hnot hwork hpoints).resolve_right
        List.not_mem_nil) hc

/-- **Exactness of a trace.** A mortal cell is marked afterwards if it was before, or if a clear
path leads to it. -/
theorem isMarked_trace_iff (hedges : ∀ c d, h.Immortal c → h.Points c d → .ref d ∈ starts)
    (hc : h.Mortal c) :
    (h.trace starts).isMarked c = true ↔ h.isMarked c = true ∨ h.ClearPath starts c := by
  constructor
  · exact (inv_trace h starts).reached c
  · rintro (hm | hp)
    · exact (inv_trace h starts).grows c hm
    · exact isMarked_trace_of_clearPath hedges hp hc

end Heap

end ScriptCore
