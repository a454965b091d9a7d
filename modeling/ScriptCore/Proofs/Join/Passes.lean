import Mathlib.Data.List.Perm.Basic
import ScriptCore.Join

/-!
# The passes of a join

A join looks at its futures in passes, and futures are resolved in between.  What a pass adds are
the values of the futures that no pass before it has seen resolved, in the order of the arguments.

* `Join.futures_eq_ok_iff`, `Join.futures_of_refused`: when the arguments are futures, and which of
  them is named if they are not;
* `Join.unseen`, `Join.collected`: the futures that no pass has seen resolved, and the values that
  the passes have given; passes are listed newest first;
* `Join.collected_perm`: together they are the values of all futures, if values last.
-/

namespace ScriptCore.Join

variable {h : Heap} {vs : List Value} {cells : List CellId} {passes : List Heap}

/-! ### Arguments that are futures -/

/-- The first argument that is no future. -/
def Refused (h : Heap) (vs : List Value) (i : Nat) (v : Value) : Prop :=
  vs[i]? = some v ∧ h.future? v = none ∧ ∀ u ∈ vs.take i, (h.future? u).isSome

theorem future?_ref_iff {f : CellId} :
    (h.future? (.ref f)).isSome ↔ ∃ slot, h.object? f = some (.future slot) := by
  unfold Heap.future? Heap.deref?
  cases ho : h.object? f with
  | none => simp [ho]
  | some o => cases o <;> simp [ho]

theorem futures_cons_ref {f : CellId} (hf : ∃ slot, h.object? f = some (.future slot))
    (vs : List Value) (i : Nat) :
    futures h (.ref f :: vs) i = (futures h vs (i + 1)).map (f :: ·) := by
  obtain ⟨slot, ho⟩ := hf
  simp [futures, Heap.future?, Heap.deref?, ho]

theorem futures_cons_of_none {v : Value} (hv : h.future? v = none) (vs : List Value) (i : Nat) :
    futures h (v :: vs) i = .error (.notAFuture i (h.typeOf v)) := by
  rw [futures]
  intro f slot _ hsome
  rw [hv] at hsome
  cases hsome

/-- A value that is a future is a reference to one. -/
theorem exists_ref_of_future? {v : Value} (hv : (h.future? v).isSome) :
    ∃ f, v = .ref f ∧ ∃ slot, h.object? f = some (.future slot) := by
  cases v with
  | ref f => exact ⟨f, rfl, future?_ref_iff.1 hv⟩
  | _ => simp [Heap.future?, Heap.deref?] at hv

/-- Arguments are accepted when all of them are futures. -/
theorem futures_eq_ok_iff {i : Nat} : futures h vs i = .ok cells ↔
    vs = cells.map .ref ∧ ∀ f ∈ cells, ∃ slot, h.object? f = some (.future slot) := by
  induction vs generalizing i cells with
  | nil =>
    rw [futures]
    cases cells <;> simp
  | cons v vs ih =>
    cases hv : h.future? v with
    | none =>
      rw [futures_cons_of_none hv]
      refine iff_of_false (by simp) ?_
      rintro ⟨hvs, hcells⟩
      cases cells with
      | nil => cases hvs
      | cons f cells =>
        obtain ⟨rfl, -⟩ := List.cons.inj hvs
        have hsome := future?_ref_iff.2 (hcells f List.mem_cons_self)
        rw [hv] at hsome
        cases hsome
    | some slot =>
      obtain ⟨f, rfl, hf⟩ := exists_ref_of_future? (h := h) (v := v) (by rw [hv]; rfl)
      rw [futures_cons_ref hf]
      cases hrest : futures h vs (i + 1) with
      | error e =>
        refine iff_of_false (by simp [Except.map]) ?_
        rintro ⟨hvs, hcells⟩
        cases cells with
        | nil => cases hvs
        | cons g cells =>
          obtain ⟨-, hvs⟩ := List.cons.inj hvs
          have hok := (ih (i := i + 1)).2 ⟨hvs, fun f hf => hcells f (List.mem_cons_of_mem _ hf)⟩
          rw [hrest] at hok
          cases hok
      | ok rest =>
        obtain ⟨rfl, hfutures⟩ := ih.1 hrest
        simp only [Except.map, Except.ok.injEq]
        constructor
        · rintro rfl
          exact ⟨rfl, List.forall_mem_cons.2 ⟨hf, hfutures⟩⟩
        · rintro ⟨hmap, -⟩
          exact List.map_injective_iff.2 (fun a b hab => by cases hab; rfl) hmap

/-- Otherwise the first that is none is named. -/
theorem futures_of_refused {i n : Nat} {v : Value} (hv : Refused h vs n v) :
    futures h vs i = .error (.notAFuture (i + n) (h.typeOf v)) := by
  induction vs generalizing i n with
  | nil => simp [Refused] at hv
  | cons u vs ih =>
    obtain ⟨hget, hnone, hbefore⟩ := hv
    cases n with
    | zero =>
      obtain rfl : u = v := by simpa using hget
      exact futures_cons_of_none hnone vs i
    | succ n =>
      rw [List.take_succ_cons, List.forall_mem_cons] at hbefore
      obtain ⟨f, rfl, hf⟩ := exists_ref_of_future? hbefore.1
      have hrest : Refused h vs n v := ⟨by simpa using hget, hnone, hbefore.2⟩
      rw [futures_cons_ref hf, ih hrest, Nat.add_right_comm]
      rfl

/-- Among arguments that are not all futures there is a first that is none. -/
theorem exists_refused (hvs : ∃ v ∈ vs, h.future? v = none) : ∃ i v, Refused h vs i v := by
  induction vs with
  | nil => simp at hvs
  | cons u vs ih =>
    cases hu : h.future? u with
    | none => exact ⟨0, u, rfl, hu, by simp⟩
    | some slot =>
      obtain ⟨v, hv, hnone⟩ := hvs
      have hv : v ∈ vs := (List.mem_cons.1 hv).resolve_left fun heq => by
        rw [heq, hu] at hnone
        cases hnone
      obtain ⟨i, w, hget, hnone, hbefore⟩ := ih ⟨v, hv, hnone⟩
      refine ⟨i + 1, w, by simpa using hget, hnone, ?_⟩
      rw [List.take_succ_cons, List.forall_mem_cons]
      exact ⟨by rw [hu]; rfl, hbefore⟩

/-- Arguments that are all futures have cells. -/
theorem exists_futures (hvs : ¬ ∃ v ∈ vs, h.future? v = none) :
    ∃ cells : List CellId, vs = cells.map .ref ∧
      ∀ f ∈ cells, ∃ slot, h.object? f = some (.future slot) := by
  induction vs with
  | nil => exact ⟨[], rfl, by simp⟩
  | cons v vs ih =>
    have hv : (h.future? v).isSome := by
      rw [Option.isSome_iff_ne_none]
      exact fun hnone => hvs ⟨v, List.mem_cons_self, hnone⟩
    obtain ⟨f, rfl, hf⟩ := exists_ref_of_future? hv
    obtain ⟨cells, rfl, hcells⟩ := ih fun ⟨u, hu, hnone⟩ =>
      hvs ⟨u, List.mem_cons_of_mem _ hu, hnone⟩
    exact ⟨f :: cells, rfl, List.forall_mem_cons.2 ⟨hf, hcells⟩⟩

/-! ### Passes -/

/-- The futures that no pass has seen resolved. -/
def unseen (cells : List CellId) (passes : List Heap) : List CellId :=
  cells.filter fun f => passes.all fun h => (h.resolved? f).isNone

/-- The values of the futures, pass by pass: each pass gives those that it is the first to see. -/
def collected (cells : List CellId) : List Heap → List Value
  | [] => []
  | h :: earlier => collected cells earlier ++ (unseen cells earlier).filterMap h.resolved?

@[simp] theorem unseen_nil (cells : List CellId) : unseen cells [] = cells := by simp [unseen]

/-- A pass leaves the futures that it does not see resolved either. -/
theorem missing_unseen (h : Heap) (cells : List CellId) (passes : List Heap) :
    missing h (unseen cells passes) = unseen cells (h :: passes) := by
  simp only [missing, unseen, List.filter_filter, List.all_cons]

theorem arrived_unseen (h : Heap) (cells : List CellId) (passes : List Heap) :
    collected cells passes ++ arrived h (unseen cells passes) = collected cells (h :: passes) :=
  rfl

/-- If values last, a pass leaves nothing when every future is resolved. -/
theorem unseen_eq_nil_iff
    (hval : ∀ h' ∈ passes, ∀ f ∈ cells, ∀ v, h'.resolved? f = some v → h.resolved? f = some v) :
    unseen cells (h :: passes) = [] ↔ ∀ f ∈ cells, (h.resolved? f).isSome := by
  simp only [unseen, List.filter_eq_nil_iff, List.all_cons, Bool.and_eq_true, List.all_eq_true]
  refine forall₂_congr fun f hf => ⟨fun hseen => ?_, fun hsome hnone => ?_⟩
  · by_contra hnone
    have hnone : h.resolved? f = none := by simpa using hnone
    refine hseen ⟨by rw [hnone]; rfl, fun h' hh' => ?_⟩
    cases hr : h'.resolved? f with
    | none => rfl
    | some v =>
      have hlast := hval h' hh' f hf v hr
      rw [hnone] at hlast
      cases hlast
  · rw [Option.isNone_iff_eq_none.1 hnone.1] at hsome
    cases hsome

/-- What a pass sees and what it leaves are the values of the futures it looks at. -/
theorem arrived_append_perm (val : CellId → Option Value) (h : Heap) (l : List CellId)
    (hval : ∀ f ∈ l, ∀ v, h.resolved? f = some v → val f = some v) :
    (l.filterMap h.resolved? ++ (missing h l).filterMap val).Perm (l.filterMap val) := by
  induction l with
  | nil => exact .refl _
  | cons f l ih =>
    obtain ⟨hf, hl⟩ := List.forall_mem_cons.1 hval
    have ih := ih hl
    cases hr : h.resolved? f with
    | some v => simpa [missing, hr, hf v hr] using ih
    | none =>
      have hkeep : missing h (f :: l) = f :: missing h l := by simp [missing, hr]
      rw [hkeep, List.filterMap_cons_none hr]
      cases hv : val f with
      | none => simpa [hv] using ih
      | some v =>
        rw [List.filterMap_cons_some hv, List.filterMap_cons_some hv]
        exact List.perm_middle.trans (ih.cons v)

/-- If values last, the passes have given the values of the futures that they have seen. -/
theorem collected_perm (val : CellId → Option Value)
    (hval : ∀ h ∈ passes, ∀ f ∈ cells, ∀ v, h.resolved? f = some v → val f = some v) :
    (collected cells passes ++ (unseen cells passes).filterMap val).Perm (cells.filterMap val) := by
  induction passes with
  | nil => simp [collected]
  | cons h passes ih =>
    obtain ⟨hh, hpasses⟩ := List.forall_mem_cons.1 hval
    have hpass := arrived_append_perm val h (unseen cells passes) fun f hf =>
      hh f (List.mem_filter.1 hf).1
    rw [missing_unseen] at hpass
    rw [collected, List.append_assoc]
    exact (hpass.append_left _).trans (ih hpasses)

end ScriptCore.Join
