import ScriptCore.Proofs.Collector.Exact
import ScriptCore.Proofs.Machine.Words

/-!
# When the text of a value comes to an end

The text of a value is written by recursion over a graph that scripts can change: a list writes its
items, a result its payload, a resolved future its value, and nothing stops a list from holding
itself. Here the recursion has no bound but its own end.

* `Object.display`: the text of an object, from the texts of its contents;
* `Heap.Displays`: the recursion comes to an end with a text;
* `Heap.displays_iff_text?`: that text is the one the machine finds;
* `Heap.exists_displays_iff`: it comes to an end exactly on values that do not contain themselves;
* `Collector.text?_collect`: collections change no text;
* `Heap.Displayable`, `displayable`: all this for a value, and what raising it fails with.
-/

namespace ScriptCore

/-- The text of an object in the cell `c`, from the texts of what it contains. -/
def Object.display (h : Heap) (c : CellId) (text : Value → String) : Object → String
  | .str s => s
  | .list items => "[" ++ ", ".intercalate (items.toList.map text) ++ "]"
  | .function code => "<function " ++ code.name ++ ">"
  | .native f => "<native function " ++ f.name ++ ">"
  | .bound receiver m => "<bound method " ++ (h.typeOf (.ref receiver)).text ++ "." ++ m.name ++ ">"
  | .future none => "<Future pending>"
  | .future (some v) => "<Future " ++ text v ++ ">"
  | .mutex l => "<Mutex at " ++ Heap.address l ++ ">"
  | .result isError payload => (if isError then "Err(" else "Ok(") ++ text payload ++ ")"
  | .error f => f.text
  | .custom (.cell v) => "Cell(" ++ text v ++ ")"
  | .custom (.counter _) => "<Counter at " ++ Heap.address c ++ ">"
  | .custom .plain => "<Plain at " ++ Heap.address c ++ ">"

/-- The values that an object of a built-in kind writes into its text. -/
def Object.parts : Object → List Value
  | .list items => items.toList
  | .future (some v) | .result _ v => [v]
  | _ => []

theorem Object.contents_eq_parts {o : Object} (ho : ∀ w, o ≠ .custom (.cell w)) :
    o.contents = o.parts := by
  unfold contents parts
  split <;> simp_all

namespace Heap

variable {h h' : Heap} {c d : CellId} {v : Value} {n : Nat} {o : Object} {t : String}

/-- The recursion that writes a value comes to an end with a text: an immediate is written at once,
an object once all that it contains is written. -/
inductive Displays (h : Heap) : Value → String → Prop
  | immediate {v : Value} {t : String} : h.textWithin 0 v = some t → Displays h v t
  | object {c : CellId} {o : Object} (text : Value → String) : h.object? c = some o →
      (∀ w ∈ o.contents, Displays h w (text w)) → Displays h (.ref c) (o.display h c text)

/-! ### The recursion and the text the machine finds -/

theorem mapM_eq_some_map {f : Value → Option String} {text : Value → String} {vs : List Value}
    (hf : ∀ v ∈ vs, f v = some (text v)) : vs.mapM f = some (vs.map text) := by
  induction vs with
  | nil => simp only [List.mapM_nil, Option.pure_def, List.map_nil]
  | cons v vs ih =>
    have hvs := ih fun w hw => hf w (List.mem_cons_of_mem _ hw)
    simp only [List.mapM_cons, hf v List.mem_cons_self, hvs, Option.bind_eq_bind,
      Option.bind_some, Option.pure_def, List.map_cons]

/-- An object whose contents have texts has the text made of them. -/
theorem textWithin_ref (ho : h.object? c = some o) {text : Value → String}
    (htext : ∀ w ∈ o.contents, h.textWithin n w = some (text w)) :
    h.textWithin (n + 1) (.ref c) = some (o.display h c text) := by
  rw [textWithin, ho]
  cases o with
  | list items =>
    have hitems : items.toList.mapM (h.textWithin n) = some (items.toList.map text) :=
      mapM_eq_some_map htext
    simp only []
    rw [hitems]
    rfl
  | result isError payload =>
    have hpayload := htext payload (by simp [Object.contents])
    simp only []
    rw [hpayload]
    rfl
  | future slot =>
    cases slot with
    | none => rfl
    | some w =>
      have hvalue := htext w (by simp [Object.contents])
      simp only []
      rw [hvalue]
      rfl
  | custom i =>
    cases i with
    | cell w =>
      have hvalue := htext w (by simp [Object.contents])
      simp only []
      rw [hvalue]
      rfl
    | _ => rfl
  | _ => rfl

theorem isSome_of_mapM {f : Value → Option String} {vs : List Value} (hf : (vs.mapM f).isSome) :
    ∀ v ∈ vs, (f v).isSome := by
  induction vs with
  | nil => simp
  | cons v vs ih =>
    obtain ⟨texts, htexts⟩ := Option.isSome_iff_exists.1 hf
    simp only [List.mapM_cons, Option.bind_eq_bind, Option.bind_eq_some_iff] at htexts
    obtain ⟨s, hs, rest, hrest, -⟩ := htexts
    rintro w (_ | ⟨_, hw⟩)
    · simp [hs]
    · exact ih (by simp [hrest]) w hw

/-- An object that has a text has texts of its contents. -/
theorem isSome_contents (ho : h.object? c = some o)
    (ht : (h.textWithin (n + 1) (.ref c)).isSome) :
    ∀ w ∈ o.contents, (h.textWithin n w).isSome := by
  rw [textWithin, ho] at ht
  cases o with
  | list items =>
    have hitems : (items.toList.mapM (h.textWithin n)).isSome := by simpa using ht
    exact isSome_of_mapM hitems
  | result isError payload =>
    intro w hw
    obtain rfl : w = payload := by simpa [Object.contents] using hw
    simpa using ht
  | future slot =>
    cases slot with
    | none => simp [Object.contents]
    | some v =>
      intro w hw
      obtain rfl : w = v := by simpa [Object.contents] using hw
      simpa using ht
  | custom i =>
    cases i with
    | cell v =>
      intro w hw
      obtain rfl : w = v := by simpa [Object.contents] using hw
      simpa using ht
    | _ => simp [Object.contents]
  | _ => simp [Object.contents]

/-- A text of any depth is what the recursion ends with. -/
theorem displays_of_textWithin (ht : h.textWithin n v = some t) : h.Displays v t := by
  induction n generalizing v t with
  | zero => exact .immediate ht
  | succ n ih =>
    cases v with
    | ref c =>
      cases ho : h.object? c with
      | none => simp [textWithin, ho] at ht
      | some o =>
        let text : Value → String := fun w => (h.textWithin n w).getD ""
        have htext : ∀ w ∈ o.contents, h.textWithin n w = some (text w) := by
          intro w hw
          have hsome := isSome_contents ho (Option.isSome_of_eq_some ht) w hw
          obtain ⟨s, hs⟩ := Option.isSome_iff_exists.1 hsome
          simp [text, hs]
        have heq := ht.symm.trans (textWithin_ref ho htext)
        cases heq
        exact .object text ho fun w hw => ih (htext w hw)
    | _ => exact .immediate ht

theorem textWithin_mono {n' : Nat} (hn : n ≤ n') (ht : h.textWithin n v = some t) :
    h.textWithin n' v = some t := by
  induction hn with
  | refl => exact ht
  | step _ ih => exact textWithin_succ ih

/-- All depths that are deep enough agree. -/
theorem textWithin_unique {n' : Nat} {t' : String} (ht : h.textWithin n v = some t)
    (ht' : h.textWithin n' v = some t') : t = t' :=
  Option.some.inj ((textWithin_mono (Nat.le_max_left n n') ht).symm.trans
    (textWithin_mono (Nat.le_max_right n n') ht'))

/-- What the recursion ends with is the text of some depth. -/
theorem Displays.exists_textWithin (hd : h.Displays v t) : ∃ n, h.textWithin n v = some t := by
  induction hd with
  | immediate ht => exact ⟨0, ht⟩
  | @object c o text ho _ ih =>
    have htexts : ∀ w ∈ o.contents, ∃ n, (h.textWithin n w).isSome := fun w hw =>
      (ih w hw).imp fun n hn => by simp [hn]
    obtain ⟨n, hn⟩ := exists_textWithin_forall htexts
    refine ⟨n + 1, textWithin_ref ho fun w hw => ?_⟩
    obtain ⟨m, hm⟩ := ih w hw
    obtain ⟨s, hs⟩ := Option.isSome_iff_exists.1 (hn w hw)
    rw [hs, ← textWithin_unique hs hm]

/-- The recursion ends with a text exactly if it is the text the machine finds. -/
theorem displays_iff_text? : h.Displays v t ↔ h.text? v = some t := by
  constructor
  · intro hd
    obtain ⟨n, hn⟩ := hd.exists_textWithin
    rw [← textWithin_eq_text? (Nat.le_max_left h.size n)]
    exact textWithin_mono (Nat.le_max_right h.size n) hn
  · exact displays_of_textWithin

theorem exists_displays_iff_isSome : (∃ t, h.Displays v t) ↔ (h.text? v).isSome := by
  simp only [displays_iff_text?, Option.isSome_iff_exists]

/-! ### Where it ends -/

/-- A cell with a text is the root of a recursion that ends. -/
theorem acc_of_isSome (ht : (h.textWithin n (.ref c)).isSome) :
    Acc (Function.swap h.Contains) c := by
  induction n generalizing c with
  | zero => cases ht
  | succ n ih =>
    refine .intro c fun e he => ?_
    obtain ⟨o, ho, hmem⟩ := he
    exact ih (isSome_contents ho ht _ hmem)

theorem acc_of_contains (hacc : Acc (Function.swap h.Contains) c)
    (hreach : Relation.ReflTransGen h.Contains c d) : Acc (Function.swap h.Contains) d := by
  induction hreach with
  | refl => exact hacc
  | tail _ hstep ih => exact ih.inv hstep

/-- The recursion does not come back to where it ends. -/
theorem not_contains_self_of_acc (hacc : Acc (Function.swap h.Contains) c) :
    ¬ Relation.TransGen h.Contains c c := by
  intro hcycle
  have hback : Relation.TransGen (Function.swap h.Contains) c c := Relation.transGen_swap.2 hcycle
  induction hacc.transGen with
  | intro c _ ih => exact ih c hback (acc_of_contains hacc .refl) hcycle hback

/-- The recursion comes to an end exactly on the values that do not contain themselves. -/
theorem exists_displays_iff (hh : h.Closed) (hv : h.Holds v) :
    (∃ t, h.Displays v t) ↔ h.Acyclic v := by
  constructor
  · rintro ⟨t, hd⟩ c e rfl hreach
    obtain ⟨n, hn⟩ := hd.exists_textWithin
    exact not_contains_self_of_acc
      (acc_of_contains (acc_of_isSome (Option.isSome_of_eq_some hn)) hreach)
  · intro hacyclic
    exact exists_displays_iff_isSome.2 (text?_isSome hh hv hacyclic)

/-! ### The built-in kinds -/

/-- The first cell writes the second one into its text: as an item, as a payload or as the value of
a resolved future. -/
def Writes (h : Heap) (c d : CellId) : Prop := ∃ o, h.object? c = some o ∧ .ref d ∈ o.parts

/-- No cycle of items, payloads and values of futures is reachable along such edges. -/
def Ends (h : Heap) (v : Value) : Prop :=
  ∀ c d, v = .ref c → Relation.ReflTransGen h.Writes c d → ¬ Relation.TransGen h.Writes d d

/-- Where no library object writes what it holds, the built-in kinds decide. -/
theorem acyclic_iff_ends (hbuiltIn : ∀ c d w, v = .ref c → Relation.ReflTransGen h.Writes c d →
    h.object? d ≠ some (.custom (.cell w))) : h.Acyclic v ↔ h.Ends v := by
  have hwrites : ∀ c d, h.Writes c d → h.Contains c d := by
    rintro c d ⟨o, ho, hmem⟩
    refine ⟨o, ho, ?_⟩
    rwa [Object.contents_eq_parts]
    rintro w rfl
    cases hmem
  have hcontains : ∀ c d e, v = .ref c → Relation.ReflTransGen h.Writes c d → h.Contains d e →
      h.Writes d e := by
    rintro c d e hv hreach ⟨o, ho, hmem⟩
    refine ⟨o, ho, ?_⟩
    rwa [← Object.contents_eq_parts]
    rintro w rfl
    exact hbuiltIn c d w hv hreach ho
  have hreach : ∀ c d, v = .ref c → Relation.ReflTransGen h.Contains c d →
      Relation.ReflTransGen h.Writes c d := by
    intro c d hv hd
    induction hd with
    | refl => exact .refl
    | tail _ hstep ih => exact ih.tail (hcontains c _ _ hv ih hstep)
  constructor
  · intro hacyclic c d hv hd hcycle
    exact hacyclic c d hv (Relation.ReflTransGen.mono hwrites _ _ hd)
      (Relation.TransGen.mono hwrites _ _ hcycle)
  · intro hends c d hv hd hcycle
    have hfrom := hreach c d hv hd
    refine hends c d hv hfrom ?_
    -- what the cycle passes is reachable as well
    have hpath : ∀ e, Relation.TransGen h.Contains d e → Relation.TransGen h.Writes d e := by
      intro e he
      induction he with
      | single hstep => exact .single (hcontains c d _ hv hfrom hstep)
      | tail _ hstep ih => exact ih.tail (hcontains c _ _ hv (hfrom.trans ih.to_reflTransGen) hstep)
    exact hpath d hcycle

end Heap

/-! ### Collections -/

namespace Collector

variable {g : Collector} {roots : List Value} {v : Value} {c d : CellId}

/-- What is left by a collection is as it was. -/
theorem object?_collect_of_live (hg : g.Listed) (hc : (g.collect roots).heap.Live c) :
    (g.collect roots).heap.object? c = g.heap.object? c := by
  by_cases hm : g.heap.Mortal c
  · rw [Heap.object?, get?_collect_of_survives hg hm ((live_collect_iff hg hm).1 hc),
      Option.map_map]
    rfl
  · rw [Heap.object?, get?_collect_of_not_mortal hg hm]
    rfl

/-- From clear marks, what is left keeps what it points to. -/
theorem live_collect_of_points (hg : g.Listed) (hh : g.heap.Closed)
    (hclear : ∀ c, g.heap.Mortal c → g.heap.isMarked c = false)
    (hc : (g.collect roots).heap.Live c) (hp : g.heap.Points c d) :
    (g.collect roots).heap.Live d := by
  obtain ⟨o, ho, hmem⟩ := id hp
  have hd : g.heap.Live d := Heap.holds_ref.1 (hh c o ho _ hmem)
  have hreaches : g.heap.Reaches (g.starts roots) d := by
    rcases Heap.live_iff.1 hp.live with hm | himm
    · rcases (live_collect_iff hg hm).1 hc with hmark | hpath
      · simp [hclear c hm] at hmark
      · exact .step hpath.reaches hp
    · exact .start (List.mem_append_right _ (mem_immortalEdges ((hg.mem_immortals c).2 himm) hp))
  by_cases hm : g.heap.Mortal d
  · exact (live_collect_iff hg hm).2 (.inr (hreaches.clearPath hclear hd))
  · rwa [Heap.Live, get?_collect_of_not_mortal hg hm]

/-- A collection that keeps a value keeps its text. -/
theorem text?_collect (hg : g.Listed) (hh : g.heap.Closed)
    (hclear : ∀ c, g.heap.Mortal c → g.heap.isMarked c = false)
    (hv : (g.collect roots).heap.Holds v) :
    (g.collect roots).heap.text? v = g.heap.text? v :=
  Heap.text?_congr (P := (g.collect roots).heap.Live) (fun _ => object?_collect_of_live hg)
    (fun _ _ => live_collect_of_points hg hh hclear) hv

end Collector

/-! ### Raising a value -/

namespace Vm

variable {me : Caller} {vm : Vm} {s : Store} {v : Value} {t : String}

/-- A value that is no error object is raised with its text. -/
theorem raised_of_text (he : s.heap.error? v = none) (ht : s.heap.text? v = some t) :
    raised s.heap v = .failed (.raised ⟨.raised, t⟩) := by
  simp [raised, he, ht]

theorem step_raise (hcurrent : vm.current? s.heap = some .raise) (hv : vm.peek? = some v) :
    (vm.step me s).2 = (s, raised s.heap v) := by
  obtain ⟨f, rest, code, -, -, -, hstep⟩ := step_of_current? me hcurrent
  rw [hstep]
  have hpeek : peek? { vm with frames := { f with ip := f.ip + 1 } :: rest } = some v := hv
  simp only [exec, hpeek]

end Vm

/-- The text of a value in a heap: when the recursion that writes it comes to an end, that nothing
but its contents decides, and where it is seen. -/
structure Heap.Displayable (h : Heap) (v : Value) : Prop where
  /-- The recursion comes to an end exactly if no cycle of items, payloads and values of resolved
  futures is reachable along such edges. Edges of other kinds play no part. -/
  ends : (∀ c d w, v = .ref c → Relation.ReflTransGen h.Writes c d →
    h.object? d ≠ some (.custom (.cell w))) → ((∃ t, h.Displays v t) ↔ h.Ends v)
  /-- A library object that writes what it holds is one more kind of that sort. -/
  acyclic : (∃ t, h.Displays v t) ↔ h.Acyclic v
  /-- It ends with the text the machine finds. -/
  text : ∀ t, h.Displays v t ↔ h.text? v = some t
  /-- A collection that begins without marks and keeps the value keeps the text. -/
  collected : ∀ (g : Collector) (roots : List Value), g.heap = h → g.Listed →
    (∀ c, g.heap.Mortal c → g.heap.isMarked c = false) → (g.collect roots).heap.Holds v →
    ∀ t, (g.collect roots).heap.Displays v t ↔ h.Displays v t
  /-- A value that is no error object is raised as a failure with its text for a message. -/
  raised : ∀ (me : Caller) (vm : Vm) (s : Store) (t : String), s.heap = h →
    vm.current? h = some .raise → vm.peek? = some v → h.error? v = none → h.Displays v t →
    (vm.step me s).2 = (s, .failed (.raised ⟨.raised, t⟩)) ∧
      ∃ vm' s' e, (vm.step me s).1.fail me (.raised ⟨.raised, t⟩) s = (vm', s') ∧
        vm'.error = true ∧ vm'.peek? = some (.ref e) ∧
        s'.heap.object? e = some (.error ⟨.raised, t⟩)

theorem Heap.displayable {h : Heap} {v : Value} (hh : h.Closed) (hv : h.Holds v) :
    h.Displayable v where
  ends hbuiltIn := (exists_displays_iff hh hv).trans (acyclic_iff_ends hbuiltIn)
  acyclic := exists_displays_iff hh hv
  text _ := displays_iff_text?
  collected g roots hheap hg hclear hkept t := by
    subst hheap
    rw [displays_iff_text?, displays_iff_text?, Collector.text?_collect hg hh hclear hkept]
  raised me vm s t hheap hcurrent hpeek herror hd := by
    subst hheap
    refine ⟨?_, _, _, _, rfl, rfl, ?_, Store.object?_make _ _ _⟩
    · rw [Vm.step_raise hcurrent hpeek, Vm.raised_of_text herror (displays_iff_text?.1 hd)]
    · exact Array.back?_push

/-- A list of a function that holds itself among its constants and of a method bound to the
list. -/
def Heap.looped : Heap :=
  ⟨#[some ⟨.list #[.ref 1, .ref 2], false, false⟩,
    some ⟨.function ⟨"f", 0, #[.ref 1], #[]⟩, false, false⟩,
    some ⟨.bound 0 .listLen, false, false⟩]⟩

theorem Heap.displayable_looped :
    looped.Closed ∧ looped.Displayable (.ref 0) ∧
      looped.Displays (.ref 0) "[<function f>, <bound method List.len>]" := by
  have hclosed : looped.Closed := by
    intro c o ho w hw
    match c with
    | 0 | 1 | 2 =>
      cases ho
      simp only [Object.edges, List.mem_cons, List.not_mem_nil, or_false] at hw
      rcases hw with rfl | rfl <;> simp [looped, Live, get?]
    | c + 3 => simp [looped, object?, get?] at ho
  have hd : looped.Displayable (.ref 0) := displayable hclosed (by simp [looped, Live, get?])
  exact ⟨hclosed, hd, (hd.text _).2 (by decide)⟩

end ScriptCore
