import Mathlib.Data.Finset.Card
import ScriptCore.Heap.Text
import ScriptCore.Proofs.Heap.Reach

/-!
# Texts and the depth they are read to

The text of a value is read to a depth that the size of the heap gives, so a heap that grows could
show another text. It does not: as many containers as there are cells are deep enough for every text
there is, and so the text of a value depends on nothing but the objects the value reaches.

* `textWithin_succ`: who looks deeper sees the same text;
* `textWithin_eq_text?`: from the size of the heap on all depths agree;
* `text?_congr`: heaps that agree on what a value reaches give it the same text.
-/

namespace ScriptCore.Heap

variable {h h' : Heap} {c : CellId} {v : Value} {d d' : Nat} {o : Object}

theorem mapM_congr {f g : Value → Option String} {vs : List Value} (hfg : ∀ v ∈ vs, f v = g v) :
    vs.mapM f = vs.mapM g := by
  induction vs with
  | nil => rfl
  | cons v vs ih =>
    rw [List.mapM_cons, List.mapM_cons, hfg v List.mem_cons_self,
      ih fun w hw => hfg w (List.mem_cons_of_mem v hw)]

theorem mapM_mono {f g : Value → Option String} (hfg : ∀ v s, f v = some s → g v = some s)
    {vs : List Value} {texts : List String} (hf : vs.mapM f = some texts) :
    vs.mapM g = some texts := by
  induction vs generalizing texts with
  | nil => exact hf
  | cons v vs ih =>
    simp only [List.mapM_cons, Option.bind_eq_bind, Option.bind_eq_some_iff] at hf ⊢
    obtain ⟨s, hs, rest, hrest, heq⟩ := hf
    exact ⟨s, hfg v s hs, rest, ih hrest, heq⟩

/-- The text of a cell depends on its object, and on the texts and the types of what it holds. -/
theorem textWithin_ref_congr (ho : h.object? c = some o) (ho' : h'.object? c = some o)
    (htext : ∀ v ∈ o.edges, h.textWithin d v = h'.textWithin d' v)
    (htype : ∀ v ∈ o.edges, h.typeOf v = h'.typeOf v) :
    h.textWithin (d + 1) (.ref c) = h'.textWithin (d' + 1) (.ref c) := by
  simp only [textWithin, ho, ho']
  cases o with
  | list items => exact congrArg (Option.map _) (mapM_congr htext)
  | bound receiver m => simp only [htype (.ref receiver) (by simp [Object.edges])]
  | future slot =>
    cases slot with
    | none => rfl
    | some v => simp only [htext v (by simp [Object.edges])]
  | result isError payload => simp only [htext payload (by simp [Object.edges])]
  | custom i =>
    cases i with
    | cell v => simp only [htext v (by simp [Object.edges])]
    | _ => rfl
  | _ => rfl

/-- Who looks deeper sees the same text. -/
theorem textWithin_succ {s : String} (hs : h.textWithin d v = some s) :
    h.textWithin (d + 1) v = some s := by
  induction d generalizing v s with
  | zero => cases v <;> first | exact hs | cases hs
  | succ d ih =>
    have hmap : ∀ (f : String → String) (w : Value),
        (h.textWithin d w).map f = some s → (h.textWithin (d + 1) w).map f = some s := by
      intro f w hw
      obtain ⟨t, ht, rfl⟩ := Option.map_eq_some_iff.1 hw
      rw [ih ht]
      rfl
    cases v with
    | ref c =>
      rw [textWithin] at hs ⊢
      cases ho : h.object? c with
      | none =>
        rw [ho] at hs
        cases hs
      | some o =>
        rw [ho] at hs
        cases o with
        | list items =>
          obtain ⟨texts, htexts, rfl⟩ := Option.map_eq_some_iff.1 hs
          exact congrArg (Option.map _) (mapM_mono (fun w t => ih) htexts)
        | result isError payload => exact hmap _ payload hs
        | future slot =>
          cases slot with
          | none => exact hs
          | some w => exact hmap _ w hs
        | custom i =>
          cases i with
          | cell w => exact hmap _ w hs
          | _ => exact hs
        | _ => exact hs
    | _ => exact hs

/-! ### Deep enough -/

/-- The cells that have a text of that depth. -/
def worded (h : Heap) (d : Nat) : Finset CellId :=
  (Finset.range h.size).filter fun c => (h.textWithin d (.ref c)).isSome

theorem worded_subset (h : Heap) (d : Nat) : h.worded d ⊆ h.worded (d + 1) := by
  intro c hc
  obtain ⟨hlt, hsome⟩ := Finset.mem_filter.1 hc
  obtain ⟨s, hs⟩ := Option.isSome_iff_exists.1 hsome
  exact Finset.mem_filter.2 ⟨hlt, by rw [textWithin_succ hs]; rfl⟩

/-- A depth that brings no text to a further cell brings no further text at all. -/
theorem textWithin_eq_succ_of_worded (hd : h.worded d = h.worded (d + 1)) (v : Value) :
    h.textWithin (d + 1) v = h.textWithin d v := by
  cases hs : h.textWithin d v with
  | some s => exact textWithin_succ hs
  | none =>
    by_contra hsome
    obtain ⟨s, hs'⟩ := Option.ne_none_iff_exists'.1 hsome
    cases v with
    | ref c =>
      have hlt : c < h.size := by
        cases ho : h.object? c with
        | none =>
          rw [textWithin, ho] at hs'
          cases hs'
        | some o =>
          obtain ⟨cell, hcell, -⟩ := object?_eq_some_iff.1 ho
          exact lt_size_of_live (by rw [Live, hcell]; rfl)
      have hmem : c ∈ h.worded (d + 1) :=
        Finset.mem_filter.2 ⟨Finset.mem_range.2 hlt, by rw [hs']; rfl⟩
      rw [← hd] at hmem
      have hnot := (Finset.mem_filter.1 hmem).2
      rw [hs] at hnot
      cases hnot
    | _ => cases d <;> cases hs

/-- Once two depths agree on all values, so do the next ones. -/
theorem textWithin_add_eq (hd : ∀ v, h.textWithin (d + 1) v = h.textWithin d v) (n : Nat)
    (v : Value) : h.textWithin (d + n) v = h.textWithin d v := by
  have hnext : ∀ n v, h.textWithin (d + n + 1) v = h.textWithin (d + n) v := by
    intro n
    induction n with
    | zero => exact hd
    | succ n ih =>
      intro v
      cases v with
      | ref c =>
        cases ho : h.object? c with
        | none => simp only [textWithin, ho]
        | some o => exact textWithin_ref_congr ho ho (fun v _ => ih v) fun _ _ => rfl
      | _ => rfl
  induction n with
  | zero => rfl
  | succ n ih => exact (hnext n v).trans ih

/-- Some depth up to the size of the heap brings no text to a further cell. -/
theorem exists_worded_eq (h : Heap) : ∃ d ≤ h.size, h.worded d = h.worded (d + 1) := by
  by_contra hnone
  have hcard : ∀ d ≤ h.size + 1, d ≤ (h.worded d).card := by
    intro d hd
    induction d with
    | zero => exact Nat.zero_le _
    | succ d ih =>
      have hlt : h.worded d ⊂ h.worded (d + 1) := by
        refine (Finset.ssubset_iff_subset_ne).2 ⟨h.worded_subset d, fun heq => hnone ⟨d, ?_, heq⟩⟩
        omega
      exact (ih (by omega)).trans_lt (Finset.card_lt_card hlt)
  have hle : (h.worded (h.size + 1)).card ≤ h.size :=
    (Finset.card_filter_le _ _).trans (Finset.card_range _).le
  have := hcard (h.size + 1) le_rfl
  omega

/-- From the size of the heap on all depths agree. -/
theorem textWithin_eq_text? (hd : h.size ≤ d) (v : Value) : h.textWithin d v = h.text? v := by
  obtain ⟨n, hn, heq⟩ := h.exists_worded_eq
  have hstable := textWithin_add_eq (textWithin_eq_succ_of_worded heq)
  have hdeep : ∀ d, h.size ≤ d → h.textWithin d v = h.textWithin n v := fun d hd => by
    rw [← Nat.add_sub_cancel' (hn.trans hd)]
    exact hstable _ v
  rw [text?, hdeep d hd, hdeep _ (Nat.le_succ _)]

/-! ### What a text depends on -/

theorem typeOf_congr {P : CellId → Prop} (hP : ∀ c, P c → h'.object? c = h.object? c)
    (hv : ∀ c, v = .ref c → P c) : h'.typeOf v = h.typeOf v := by
  cases v with
  | ref c => simp only [typeOf, hP c (hv c rfl)]
  | _ => rfl

theorem textWithin_congr {P : CellId → Prop} (hP : ∀ c, P c → h'.object? c = h.object? c)
    (hedges : ∀ c e, P c → h.Points c e → P e) (d : Nat) {v : Value} (hv : ∀ c, v = .ref c → P c) :
    h'.textWithin d v = h.textWithin d v := by
  induction d generalizing v with
  | zero => cases v <;> rfl
  | succ d ih =>
    cases v with
    | ref c =>
      have hc := hv c rfl
      cases ho : h.object? c with
      | none => simp only [textWithin, hP c hc, ho]
      | some o =>
        have hheld : ∀ w ∈ o.edges, ∀ e, w = .ref e → P e := fun w hw e he =>
          hedges c e hc ⟨o, ho, he ▸ hw⟩
        exact textWithin_ref_congr ((hP c hc).trans ho) ho (fun w hw => ih (hheld w hw))
          fun w hw => typeOf_congr hP (hheld w hw)
    | _ => rfl

/-- Heaps that agree on all that a value reaches give it the same text. -/
theorem text?_congr {P : CellId → Prop} (hP : ∀ c, P c → h'.object? c = h.object? c)
    (hedges : ∀ c e, P c → h.Points c e → P e) {v : Value} (hv : ∀ c, v = .ref c → P c) :
    h'.text? v = h.text? v := by
  rw [← textWithin_eq_text? (le_max_right h.size h'.size) v,
    ← textWithin_eq_text? (le_max_left h.size h'.size) v]
  exact textWithin_congr hP hedges _ hv

end ScriptCore.Heap
