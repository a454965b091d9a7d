import Mathlib.Logic.Relation
import ScriptCore.Proofs.Heap.Reach

/-!
# How heaps change

Threads change the heap in few ways: they allocate, and they write into lists, futures and objects
of library types. `Heap.Evolves` is the order these changes generate.

* `Holds`, `Closed`: values whose cells are live, and heaps in which every stored value is so;
* `Object.Becomes`: the three writes into an object;
* `Evolves`: no cell is freed, and objects change by writes only.

Functions, bound methods and resolved futures are *settled*: no write changes them.
-/

namespace ScriptCore

/-- One write into an object. -/
inductive Object.Becomes : Object → Object → Prop
  | push (items : Array Value) (v : Value) : Becomes (.list items) (.list (items.push v))
  | resolve (v : Value) : Becomes (.future none) (.future (some v))
  | write (i j : Instance) : Becomes (.custom i) (.custom j)

/-- An object that no write changes. -/
def Object.Settled (o : Object) : Prop := ∀ o', ¬ o.Becomes o'

theorem Object.settled_bound (c : CellId) (m : Method) : (Object.bound c m).Settled := by
  rintro _ ⟨⟩

theorem Object.settled_future (v : Value) : (Object.future (some v)).Settled := by
  rintro _ ⟨⟩

/-- Some number of writes into an object. -/
abbrev Object.Grows (o o' : Object) : Prop := Relation.ReflTransGen Object.Becomes o o'

theorem Object.Settled.eq {o o' : Object} (hs : o.Settled) (h : o.Grows o') : o' = o := by
  rcases Relation.ReflTransGen.cases_head h with heq | ⟨b, hb, -⟩
  · exact heq.symm
  · exact absurd hb (hs b)

/-- Only a function becomes a function. -/
theorem Object.Grows.function {o : Object} {code : Code} (h : o.Grows (.function code)) :
    o = .function code := by
  rcases Relation.ReflTransGen.cases_tail h with heq | ⟨b, -, hb⟩
  · exact heq.symm
  · cases hb

namespace Heap

/-- A value that refers to no freed cell. -/
def Holds (h : Heap) (v : Value) : Prop := ∀ c, v = .ref c → h.Live c

/-- Every value stored in a live cell refers to a live cell. -/
def Closed (h : Heap) : Prop := ∀ c o, h.object? c = some o → ∀ v ∈ o.edges, h.Holds v

variable {h h' : Heap} {c d : CellId} {o o' : Object} {v : Value}

@[simp] theorem holds_ref : h.Holds (.ref c) ↔ h.Live c :=
  ⟨fun hc => hc c rfl, by rintro hc _ ⟨⟩; exact hc⟩

@[simp] theorem holds_nil (h : Heap) : h.Holds .nil := by rintro _ ⟨⟩
@[simp] theorem holds_bool (h : Heap) (b : Bool) : h.Holds (.bool b) := by rintro _ ⟨⟩
@[simp] theorem holds_int (h : Heap) (n : Int64) : h.Holds (.int n) := by rintro _ ⟨⟩
@[simp] theorem holds_float (h : Heap) (x : Double) : h.Holds (.float x) := by rintro _ ⟨⟩

theorem live_iff_object? : h.Live c ↔ ∃ o, h.object? c = some o := by
  simp [Live, object?, Option.isSome_iff_exists]

/-- In a closed heap nothing reachable has been freed. -/
theorem Closed.live_of_reaches {starts : List Value} (hh : h.Closed)
    (hstarts : ∀ v ∈ starts, h.Holds v) (hc : h.Reaches starts c) : h.Live c := by
  induction hc with
  | start hc => exact holds_ref.1 (hstarts _ hc)
  | step _ hp _ =>
    obtain ⟨o, ho, hd⟩ := hp
    exact holds_ref.1 (hh _ o ho _ hd)

theorem Closed.holds_deref? (hh : h.Closed) (hv : h.deref? v = some o) {w : Value}
    (hw : w ∈ o.edges) : h.Holds w := by
  cases v with
  | ref c => exact hh c o hv w hw
  | _ => cases hv

/-- The value a live future was resolved with is live. -/
theorem Closed.holds_resolved? (hh : h.Closed) (hv : h.resolved? c = some v) : h.Holds v := by
  unfold resolved? at hv
  split at hv
  · rename_i slot ho
    subst hv
    exact hh c _ ho v (by simp [Object.edges])
  · cases hv

/-- No cell is freed, objects change by writes only, and no place is used twice. -/
structure Evolves (h h' : Heap) : Prop where
  size_le : h.size ≤ h'.size
  forth : ∀ c o, h.object? c = some o → ∃ o', h'.object? c = some o' ∧ o.Grows o'
  back : ∀ c o', c < h.size → h'.object? c = some o' → ∃ o, h.object? c = some o ∧ o.Grows o'

namespace Evolves

theorem refl (h : Heap) : h.Evolves h :=
  ⟨le_rfl, fun _ o ho => ⟨o, ho, .refl⟩, fun _ o _ ho => ⟨o, ho, .refl⟩⟩

theorem trans {h'' : Heap} (h₁ : h.Evolves h') (h₂ : h'.Evolves h'') : h.Evolves h'' where
  size_le := h₁.size_le.trans h₂.size_le
  forth c o ho := by
    obtain ⟨o', ho', hg⟩ := h₁.forth c o ho
    obtain ⟨o'', ho'', hg'⟩ := h₂.forth c o' ho'
    exact ⟨o'', ho'', hg.trans hg'⟩
  back c o'' hc ho'' := by
    obtain ⟨o', ho', hg'⟩ := h₂.back c o'' (hc.trans_le h₁.size_le) ho''
    obtain ⟨o, ho, hg⟩ := h₁.back c o' hc ho'
    exact ⟨o, ho, hg.trans hg'⟩

theorem live (he : h.Evolves h') (hc : h.Live c) : h'.Live c := by
  obtain ⟨o, ho⟩ := live_iff_object?.1 hc
  obtain ⟨o', ho', -⟩ := he.forth c o ho
  exact live_iff_object?.2 ⟨o', ho'⟩

theorem holds (he : h.Evolves h') (hv : h.Holds v) : h'.Holds v :=
  fun c hc => he.live (hv c hc)

theorem settled (he : h.Evolves h') (hs : o.Settled) (ho : h.object? c = some o) :
    h'.object? c = some o := by
  obtain ⟨o', ho', hg⟩ := he.forth c o ho
  rw [ho', hs.eq hg]

end Evolves

/-! ### The changes themselves -/

theorem object?_alloc (h : Heap) (cell : Cell) (c : CellId) :
    (h.alloc cell).1.object? c = if c = h.size then some cell.object else h.object? c := by
  rw [object?, get?_alloc]
  split <;> rfl

theorem live_alloc (h : Heap) (cell : Cell) : (h.alloc cell).1.Live h.size := by
  simp [Live, get?_alloc]

theorem lt_size_of_object? (ho : h.object? c = some o) : c < h.size :=
  lt_size_of_live (live_iff_object?.2 ⟨o, ho⟩)

theorem evolves_alloc (h : Heap) (cell : Cell) : h.Evolves (h.alloc cell).1 where
  size_le := by rw [size_alloc]; omega
  forth c o ho := by
    have hne : c ≠ h.size := (lt_size_of_object? ho).ne
    exact ⟨o, by rw [object?_alloc, if_neg hne, ho], .refl⟩
  back c o hc ho := by
    rw [object?_alloc, if_neg hc.ne] at ho
    exact ⟨o, ho, .refl⟩

/-- A heap stays closed when an object with live edges is allocated. -/
theorem Closed.alloc (hh : h.Closed) {cell : Cell} (he : ∀ v ∈ cell.object.edges, h.Holds v) :
    (h.alloc cell).1.Closed := by
  intro c o ho v hv
  rw [object?_alloc] at ho
  split at ho
  · cases ho
    exact (evolves_alloc h cell).holds (he v hv)
  · exact (evolves_alloc h cell).holds (hh c o ho v hv)

theorem object?_setObject (h : Heap) (c d : CellId) (o : Object) :
    (h.setObject c o).object? d = if c = d then (h.object? d).map fun _ => o else h.object? d := by
  rw [object?, setObject, get?_modify]
  split <;> simp [object?, Function.comp_def]

theorem size_setObject (h : Heap) (c : CellId) (o : Object) : (h.setObject c o).size = h.size :=
  size_modify _ _ _

theorem evolves_setObject (ho : h.object? c = some o) (hb : o.Becomes o') :
    h.Evolves (h.setObject c o') where
  size_le := (size_setObject h c o').ge
  forth d p hp := by
    rw [object?_setObject]
    by_cases hcd : c = d
    · subst hcd
      rw [ho] at hp
      cases hp
      exact ⟨o', by simp [ho], .single hb⟩
    · exact ⟨p, by rw [if_neg hcd, hp], .refl⟩
  back d p hd hp := by
    rw [object?_setObject] at hp
    by_cases hcd : c = d
    · subst hcd
      simp only [↓reduceIte, ho, Option.map_some, Option.some.injEq] at hp
      exact ⟨o, ho, hp ▸ .single hb⟩
    · exact ⟨p, by rwa [if_neg hcd] at hp, .refl⟩

theorem holds_setObject (hv : h.Holds v) : (h.setObject c o).Holds v := by
  intro d hd
  have hlive := hv d hd
  rw [live_iff_object?] at hlive ⊢
  obtain ⟨p, hp⟩ := hlive
  rw [object?_setObject]
  by_cases hcd : c = d
  · exact ⟨o, by simp [hcd, hp]⟩
  · exact ⟨p, by simp [hcd, hp]⟩

/-- A heap stays closed under a write whose new edges are live. -/
theorem Closed.setObject (hh : h.Closed) (ho : h.object? c = some o)
    (he : ∀ v ∈ o'.edges, v ∈ o.edges ∨ h.Holds v) : (h.setObject c o').Closed := by
  intro d p hp v hv
  refine holds_setObject ?_
  rw [object?_setObject] at hp
  by_cases hcd : c = d
  · subst hcd
    simp only [↓reduceIte, ho, Option.map_some, Option.some.injEq] at hp
    subst hp
    exact (he v hv).elim (hh c o ho v) id
  · rw [if_neg hcd] at hp
    exact hh d p hp v hv

/-- Two changes of a cell that agree on it give the same heap. -/
theorem modify_congr {f f' : Cell → Cell} (hf : ∀ cell, h.get? c = some cell → f cell = f' cell) :
    h.modify c f = h.modify c f' := by
  simp only [modify, Heap.mk.injEq]
  apply Array.ext_getElem?
  intro i
  simp only [Array.getElem?_modify]
  split
  · rename_i hci
    subst hci
    rcases hcell : h.cells[c]? with _ | _ | cell
    · rfl
    · rfl
    · have hget : h.get? c = some cell := by simp [get?, hcell]
      simp [hf cell hget]
  · rfl

/-- Appending to a list is a write of the longer list. -/
theorem pushItem_eq {items : Array Value} (ho : h.object? c = some (.list items)) (v : Value) :
    h.pushItem c v = h.setObject c (.list (items.push v)) := by
  refine modify_congr fun cell hcell => ?_
  obtain ⟨cell', hcell', hobj⟩ := object?_eq_some_iff.1 ho
  rw [hcell] at hcell'
  cases hcell'
  cases cell
  simp_all

/-- Appending to what is no list changes nothing. -/
theorem pushItem_eq_self (ho : ∀ items, h.object? c ≠ some (.list items)) (v : Value) :
    h.pushItem c v = h := by
  have hid : h.pushItem c v = h.modify c id := by
    refine modify_congr fun cell hcell => ?_
    obtain ⟨o, immortal, marked⟩ := cell
    cases o <;> try rfl
    rename_i items
    exact absurd (object?_eq_some_iff.2 ⟨_, hcell, rfl⟩) (ho items)
  rw [hid]
  simp only [modify, Option.map_id]
  congr 1
  apply Array.ext_getElem?
  intro i
  rw [Array.getElem?_modify]
  split <;> simp

/-- Resolving a future is a write, or leaves the heap alone. -/
theorem resolve_cases (hr : h.resolve c v = .ok h') :
    h' = h ∨ h.object? c = some (.future none) ∧ h' = h.setObject c (.future (some v)) := by
  unfold resolve at hr
  split at hr
  · rename_i ho
    cases hr
    exact .inr ⟨ho, rfl⟩
  · cases hr
  · cases hr
    exact .inl rfl

theorem size_resolve (hr : h.resolve c v = .ok h') : h'.size = h.size := by
  rcases resolve_cases hr with rfl | ⟨-, rfl⟩
  · rfl
  · exact size_setObject h c _

end Heap

end ScriptCore
