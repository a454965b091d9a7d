import ScriptCore.Proofs.Demo.Progress
import ScriptCore.Proofs.World.Line

/-!
# The demonstration as it is run

The demonstration runs in rounds: one thread after the other goes on until it has to wait, and time
passes when all have to. What it does is one course among all, and this one comes to its end: no
thread is forgotten, no isolate uses up the steps of a round, and the main thread goes on with its
join only when a future has come.

* `Control.errand`, `World.left`: what is left of what the main thread has asked for;
* `Paced`: the invariant of a run, beyond that of a course;
* `Good.round`, `Good.run`: a turn, or the beginning of a round, and a whole run.
-/

namespace ScriptCore

open World

/-- What the main thread is from the end of what it has asked for. -/
def Control.errand : Control → Nat
  | .blocked _ (.start _ _ _) => 39
  | .leaving _ (.start _ _ _) => 38
  | .blocked _ (.join j _) => 3 * j.pending.length + 2
  | .leaving _ (.join j _) => 3 * j.pending.length + 1
  | _ => 0

namespace World

/-- What is left of a run: twice the steps, so that a round can begin in between. -/
def left (w : World) : Nat :=
  2 * (w.togo + (w.control 0).errand) + if (w.thread 0).spent < roundSteps then 0 else 1

theorem rescheduled_lineUp (w : World) (t : ThreadId) : w.Rescheduled (w.lineUp t) :=
  ⟨rfl, rfl, fun u => ⟨(w.thread u).spent, rfl⟩⟩

theorem rescheduled_beginRound (w : World) (now : Nat) : w.Rescheduled (w.beginRound now) :=
  ⟨rfl, Array.size_map, fun u => ⟨0, thread_beginRound w now u⟩⟩

section turn

variable {w : World} {t : ThreadId}

/-- A turn counts one step. -/
theorem thread_turn (hlocks : (w.step t).store.locks = #[]) (ht : t < (w.step t).threads.size)
    (u : ThreadId) : (w.turn t).thread u =
      { (w.step t).thread u with spent := (w.thread u).spent + if u = t then 1 else 0 } := by
  rw [turn_eq hlocks]
  show ((w.step t).modifyThread t _).thread u = _
  have hspent := spent_step w t u
  by_cases hu : u = t
  · subst hu
    rw [thread_modifyThread_self _ ht, if_pos rfl, hspent]
  · rw [thread_modifyThread_of_ne _ hu, if_neg hu, Nat.add_zero, ← hspent]

theorem rescheduled_turn (hlocks : (w.step t).store.locks = #[])
    (ht : t < (w.step t).threads.size) : (w.step t).Rescheduled (w.turn t) := by
  refine ⟨?_, ?_, fun u => ⟨_, thread_turn hlocks ht u⟩⟩
  · rw [turn_eq hlocks]
    rfl
  · rw [turn_eq hlocks]
    simp [lineUp, modifyThread]

end turn

theorem Rescheduled.togo {w w' : World} (h : w.Rescheduled w') : w'.togo = w.togo := by
  rw [World.togo, World.togo, h.size]
  refine Finset.sum_congr rfl fun j _ => ?_
  obtain ⟨n, hn⟩ := h.thread (j + 1)
  rw [hn]
  rfl

end World

/-- A join waits for a future and not for time, and goes on only when one has come. -/
def Control.Timely (s : Store) (cells : List CellId) : Control → Prop
  | .blocked (.resolvedBy _ deadline) (.join _ _) =>
      s.now < deadline ∨ ∀ c ∈ cells, ∃ v, s.heap.resolved? c = some v
  | .leaving _ (.join j _) => ∃ c ∈ j.pending, ∃ v, s.heap.resolved? c = some v
  | _ => True

theorem Control.Timely.mono {s s' : Store} {cells : List CellId} {c : Control}
    (h : c.Timely s cells) (hnow : s'.now = s.now)
    (hresolved : ∀ c v, s.heap.resolved? c = some v → s'.heap.resolved? c = some v) :
    c.Timely s' cells := by
  revert h
  unfold Control.Timely
  split
  · rw [hnow]
    exact Or.imp_right fun hall c hc => (hall c hc).imp fun v => hresolved c v
  · rintro ⟨c, hc, v, hv⟩
    exact ⟨c, hc, v, hresolved c v hv⟩
  · exact id

/-- Time may pass when all futures have values. -/
theorem Control.Timely.elapse {s : Store} {cells : List CellId} {c : Control}
    (h : c.Timely s cells) (now : Nat) (hresolved : ∀ c ∈ cells, ∃ v, s.heap.resolved? c = some v) :
    c.Timely { s with now } cells := by
  revert h
  unfold Control.Timely
  split
  · exact fun _ => .inr hresolved
  · exact id
  · exact id

namespace Demo

/-- What a run keeps up. -/
structure Paced (cells : List CellId) (w : World) : Prop where
  lined : w.Lined
  /-- No isolate uses up the steps of a round. -/
  spent : ∀ j < cells.length, (w.thread (j + 1)).spent + (w.thread (j + 1)).togo ≤ 37
  timely : (w.control 0).Timely w.store cells

/-- What a step does that takes a run further. -/
structure Strides (cells : List CellId) (w : World) (t : ThreadId) : Prop where
  others : ∀ u, u ≠ t → u < w.threads.size → (w.step t).thread u = w.thread u
  spent : ∀ j < cells.length, (w.thread (j + 1)).spent + (if j + 1 = t then 1 else 0) +
    ((w.step t).thread (j + 1)).togo ≤ 37
  timely : ((w.step t).control 0).Timely (w.step t).store cells
  shrinks : (w.step t).togo + ((w.step t).control 0).errand < w.togo + (w.control 0).errand

theorem left_lt {w w' : World}
    (h : w'.togo + (w'.control 0).errand < w.togo + (w.control 0).errand) : w'.left < w.left := by
  unfold left
  split <;> split <;> omega

/-- A turn takes a run further if its step does. -/
theorem Paced.turn {cells cells' : List CellId} {w : World} {t : ThreadId} (h : Paced cells w)
    (hs : Strides cells' w t) (hlocks : (w.step t).store.locks = #[])
    (ht : t < (w.step t).threads.size) :
    Paced cells' (w.turn t) ∧ (w.turn t).left < w.left := by
  have hresched := rescheduled_turn hlocks ht
  have hstore : (w.turn t).store = (w.step t).store := by
    rw [turn_eq hlocks]
    rfl
  refine ⟨⟨h.lined.turn hlocks hs.others, fun j hj => ?_, ?_⟩, left_lt ?_⟩
  · rw [thread_turn hlocks ht]
    exact hs.spent j hj
  · rw [hresched.control, hstore]
    exact hs.timely
  · rw [hresched.togo, hresched.control]
    exact hs.shrinks

/-- A new round begins. -/
theorem Paced.beginRound {cells : List CellId} {w : World} (h : Paced cells w) {now : Nat}
    (htimely : (w.control 0).Timely { w.store with now } cells) :
    Paced cells (w.beginRound now) := by
  have hresched := rescheduled_beginRound w now
  refine ⟨fun t ht hgone => ?_, fun j hj => ?_, ?_⟩
  · rw [hresched.size] at ht
    rw [hresched.control] at hgone
    exact h.lined t ht hgone
  · rw [thread_beginRound]
    exact (Nat.add_le_add_right (Nat.zero_le _) _).trans (h.spent j hj)
  · rw [hresched.control]
    exact htimely

variable {o : Options} {own : Ledger} {d b : CellId} {cells : List CellId} {s : State}

namespace Good

/-- An isolate takes a run further. -/
theorem strides_isolate (h : Good o own d b cells s) (hpaced : Paced cells s.world)
    {t : ThreadId} (ht : t ≠ 0) (hready : s.world.ready t = true) {own' : Ledger} {i : Isolate}
    {th : Thread} (hturn : Turn own' t i s.world (s.world.step t) th) :
    Strides cells s.world t := by
  have hzero : (s.world.step t).control 0 = s.world.control 0 :=
    congrArg Thread.control (hturn.becomes.others 0 ht.symm)
  refine ⟨fun u hu _ => hturn.becomes.others u hu, fun j hj => ?_, ?_, ?_⟩
  · have hold := hpaced.spent j hj
    split
    · rename_i heq
      have htogo := hturn.togo
      rw [heq] at hold ⊢
      rw [hturn.becomes.mine]
      omega
    · rename_i hne
      rw [hturn.becomes.others _ hne]
      exact hold
  · rw [hzero]
    exact hpaced.timely.mono hturn.now fun c v => resolved?_of_spares hturn.objects
  · rw [hzero]
    exact Nat.add_lt_add_right (h.togo_turn ht hready hturn) _

/-- A step of the main thread takes a run further if it brings that closer to its end. -/
theorem strides_main (hpaced : Paced cells s.world) {c : Control}
    (hbecomes : Becomes 0 { s.world.thread 0 with control := c } s.world (s.world.step 0))
    (htimely : c.Timely (s.world.step 0).store cells)
    (hlt : c.errand < (s.world.control 0).errand) : Strides cells s.world 0 := by
  have hcontrol : (s.world.step 0).control 0 = c := congrArg Thread.control hbecomes.mine
  refine ⟨fun u hu _ => hbecomes.others u hu, fun j hj => ?_, ?_, ?_⟩
  · rw [if_neg (Nat.succ_ne_zero j), hbecomes.others _ (Nat.succ_ne_zero j)]
    exact hpaced.spent j hj
  · rw [hcontrol]
    exact htimely
  · rw [hcontrol, togo_congr hbecomes.size hbecomes.others]
    exact Nat.add_lt_add_left hlt _

/-- The main thread takes a run further. -/
theorem stride (h : Good o own d b cells s) (hpaced : Paced cells s.world)
    (hready : s.world.ready 0 = true) : ∃ own' cells',
      Good o own' d b cells' { s with world := s.world.step 0 } ∧ Strides cells' s.world 0 := by
  have hrests : ∀ {c}, s.world.control 0 = c → c ≠ .idle ∧ ∀ outcome, c ≠ .finished outcome := by
    rintro c hc
    refine ⟨?_, fun outcome => ?_⟩
    all_goals
      rintro rfl
      rw [World.ready, hc] at hready
      cases hready
  cases h.front with
  | launching _ hc => exact absurd rfl (hrests hc).1
  | started _ hc | complete _ hc => exact absurd rfl ((hrests hc).2 _)
  | asked _ hc =>
    obtain ⟨own', hgood, hbecomes⟩ := h.begin_start hready hc
    refine ⟨own', cells, hgood, strides_main hpaced hbecomes trivial ?_⟩
    rw [hc]
    exact Nat.lt_succ_self _
  | admitted _ hc =>
    obtain ⟨own', c, i, name, hgood, hc', hothers⟩ := h.bear hready hc
    have hsize : (s.world.step 0).threads.size = cells.length + 1 + 1 := by
      rw [hgood.crew.size, List.length_append, List.length_singleton]
    refine ⟨own', _, hgood, fun u hu hlt => ?_, fun j hj => ?_, ?_, ?_⟩
    · rw [hothers u hu, if_neg hlt.ne]
    · rw [if_neg (Nat.succ_ne_zero j), hothers _ (Nat.succ_ne_zero j)]
      split
      · rename_i heq
        have hnone : s.world.thread (j + 1) = {} := by
          rw [World.thread, Array.getD_eq_getD_getElem?,
            Array.getElem?_eq_none (Nat.le_of_eq heq.symm)]
          rfl
        rw [hnone]
        exact le_rfl
      · rename_i hne
        rw [h.crew.size] at hne
        rw [List.length_append, List.length_singleton] at hj
        exact hpaced.spent j (Nat.lt_of_le_of_ne (Nat.le_of_lt_succ hj)
          fun heq => hne (congrArg _ heq))
    · rw [hc']
      trivial
    · rw [hc, hc', togo_born h.crew.size hsize hothers]
      exact Nat.lt_succ_self _
  | @waiting f deadline j _ hc hmem hseen =>
    obtain ⟨own', outcome, hgood, hbecomes, hstore⟩ := h.wake hready hc
    refine ⟨own', cells, hgood, strides_main hpaced hbecomes ?_ ?_⟩
    · have htimely := hpaced.timely
      rw [hc] at htimely
      rw [World.ready, hc] at hready
      rw [hstore]
      refine ⟨f, hmem, ?_⟩
      rcases htimely with hlt | hall
      · have hpassable : (s.world.store.heap.resolved? f).isSome = true ∨
            decide (deadline ≤ s.world.store.now) = true := Bool.or_eq_true_iff.1 hready
        refine Option.isSome_iff_exists.1 (hpassable.resolve_right fun hle => ?_)
        exact (Nat.not_le.2 hlt) (of_decide_eq_true hle)
      · exact hall f (hseen.mem hmem)
    · rw [hc]
      exact Nat.lt_succ_self _
  | @passing outcome j _ hc hseen =>
    obtain ⟨own', c, hgood, hbecomes, hpassed⟩ := h.collects hready hc
    refine ⟨own', cells, hgood, ?_⟩
    have htimely := hpaced.timely
    rw [hc] at htimely
    obtain ⟨c', hc', v, hv⟩ := htimely
    have hfewer : (Join.missing s.world.store.heap j.pending).length < j.pending.length := by
      refine List.length_filter_lt_length_iff_exists.2 ⟨c', hc', ?_⟩
      rw [hv]
      exact Bool.false_ne_true
    cases hpassed with
    | complete =>
      refine strides_main hpaced hbecomes trivial ?_
      rw [hc]
      exact Nat.succ_pos _
    | waiting hmissing hseen' =>
      refine strides_main hpaced hbecomes (.inl (Nat.lt_add_of_pos_right hseen'.poll)) ?_
      rw [hmissing] at hfewer
      rw [hc]
      show 3 * (_ :: _).length + 2 < 3 * j.pending.length + 1
      omega

/-- A thread that can go on has its turn. -/
theorem stride_of_ready (h : Good o own d b cells s) (hpaced : Paced cells s.world)
    (hN : ∀ j < o.isolates.toNat, 2 * j < 2 ^ 63) {t : ThreadId} (hready : s.world.ready t = true) :
    ∃ own' cells', Good o own' d b cells' { s with world := s.world.step t } ∧
      Strides cells' s.world t := by
  by_cases ht : t = 0
  · subst ht
    exact h.stride hpaced hready
  · obtain ⟨own', i, th, hgood, hturn⟩ := h.turn ht hready hN
    exact ⟨own', cells, hgood, h.strides_isolate hpaced ht hready hturn⟩

/-- When it is nobody's turn, the main thread has used up the steps of the round, and all futures
have values. -/
theorem spent_of_pick? (h : Good o own d b cells s) (hpaced : Paced cells s.world)
    (hrest : s.world.atRest 0 = false) (hpick : s.world.pick? 0 = none) :
    s.world.ready 0 = true ∧ ¬ (s.world.thread 0).spent < roundSteps ∧
      ∀ c ∈ cells, ∃ v, s.world.store.heap.resolved? c = some v := by
  obtain ⟨hmain, hline⟩ : s.world.inTurn 0 = false ∧
      ∀ u ∈ s.world.line, s.world.inTurn u = false := by
    unfold World.pick? at hpick
    split at hpick
    · cases hpick
    · exact ⟨Bool.eq_false_iff.2 ‹_›, fun u hu =>
        Bool.eq_false_iff.2 (List.find?_eq_none.1 hpick u hu)⟩
  rcases h.busy hrest with ⟨t, ht, hready⟩ | ⟨hready, hresolved⟩
  · obtain ⟨j, i, rfl, hj, -⟩ := h.isolate_of_ready ht hready
    have hpresent : s.world.control (j + 1) ≠ .gone := by
      intro hgone
      rw [World.ready, hgone] at hready
      cases hready
    have hsize : j + 1 < s.world.threads.size := by
      rw [h.crew.size]
      exact Nat.succ_lt_succ hj
    have hturn := hline _ (hpaced.lined _ hsize hpresent)
    have hspent : (s.world.thread (j + 1)).spent < roundSteps :=
      (Nat.le_of_add_right_le (hpaced.spent j hj)).trans_lt (by decide)
    rw [World.inTurn, hready, decide_eq_true hspent] at hturn
    cases hturn
  · refine ⟨hready, fun hspent => ?_, hresolved⟩
    rw [World.inTurn, hready, decide_eq_true hspent] at hmain
    cases hmain

/-- A turn, or the beginning of a round. -/
theorem round (h : Good o own d b cells s) (hpaced : Paced cells s.world)
    (hN : ∀ j < o.isolates.toNat, 2 * j < 2 ^ 63) (hrest : s.world.atRest 0 = false) :
    ∃ own' cells' w', (∀ fuel, World.run (fuel + 1) 0 s.world = World.run fuel 0 w') ∧
      Relation.ReflTransGen (Moves o) s { s with world := w' } ∧
      Good o own' d b cells' { s with world := w' } ∧ Paced cells' w' ∧ w'.left < s.world.left := by
  cases hpick : s.world.pick? 0 with
  | some t =>
    have hready := ready_of_pick? hpick
    obtain ⟨own', cells', hgood, hstrides⟩ := h.stride_of_ready hpaced hN hready
    have hlocks : (s.world.step t).store.locks = #[] := hgood.crew.locks
    have ht : t < (s.world.step t).threads.size := by
      refine (lt_size_of_control fun hidle => ?_).trans_le (size_le_step _ _)
      rw [World.ready, hidle] at hready
      cases hready
    have hresched := rescheduled_turn hlocks ht
    obtain ⟨hpaced', hlt⟩ := hpaced.turn hstrides hlocks ht
    refine ⟨own', cells', s.world.turn t, fun fuel => ?_, ?_, hgood.pass hresched, hpaced', hlt⟩
    · rw [World.run, if_neg (by rw [hrest]; exact Bool.false_ne_true)]
      simp only [hpick]
    · exact .head (.step hready) (.single (.pass hresched))
  | none =>
    obtain ⟨hready, hspent, hresolved⟩ := h.spent_of_pick? hpaced hrest hpick
    let now := s.world.store.now + roundTime
    have hresched := rescheduled_beginRound s.world now
    have hline : (0 : ThreadId) ∈ s.world.line := by
      refine hpaced.lined 0 h.main_lt fun hgone => ?_
      rw [World.ready, hgone] at hready
      cases hready
    have hnext : s.world.nextRound? = some now := by
      rw [World.nextRound?, if_pos (List.any_eq_true.2 ⟨0, hline, hready⟩)]
    refine ⟨own, cells, s.world.beginRound now, fun fuel => ?_, .single (.pass hresched),
      h.pass hresched, hpaced.beginRound ?_, ?_⟩
    · rw [World.run, if_neg (by rw [hrest]; exact Bool.false_ne_true)]
      simp only [hpick, hnext]
    · exact hpaced.timely.elapse now hresolved
    · unfold left
      rw [hresched.togo, hresched.control, thread_beginRound, if_neg hspent]
      exact Nat.lt_succ_self _

/-- **A run** comes to rest, and is a part of a course. -/
theorem run (h : Good o own d b cells s) (hpaced : Paced cells s.world)
    (hN : ∀ j < o.isolates.toNat, 2 * j < 2 ^ 63) {fuel : Nat} (hfuel : s.world.left ≤ fuel) :
    ∃ own' cells' w', World.run fuel 0 s.world = (w', true) ∧
      Relation.ReflTransGen (Moves o) s { s with world := w' } ∧
      Good o own' d b cells' { s with world := w' } ∧ Paced cells' w' := by
  induction fuel generalizing own cells s with
  | zero =>
    cases hrest : s.world.atRest 0 with
    | true => exact ⟨own, cells, s.world, run_of_atRest hrest 0, .refl, h, hpaced⟩
    | false =>
      obtain ⟨_, _, _, -, -, -, -, hlt⟩ := h.round hpaced hN hrest
      exact absurd (hlt.trans_le hfuel) (Nat.not_lt_zero _)
  | succ fuel ih =>
    cases hrest : s.world.atRest 0 with
    | true => exact ⟨own, cells, s.world, run_of_atRest hrest _, .refl, h, hpaced⟩
    | false =>
      obtain ⟨own₁, cells₁, w₁, hrun, hcourse, hgood, hpaced₁, hlt⟩ := h.round hpaced hN hrest
      obtain ⟨own₂, cells₂, w₂, hrun₂, hcourse₂, hgood₂, hpaced₂⟩ :=
        ih hgood hpaced₁ (Nat.le_of_lt_succ (hlt.trans_le hfuel))
      exact ⟨own₂, cells₂, w₂, (hrun fuel).trans hrun₂, hcourse.trans hcourse₂, hgood₂, hpaced₂⟩

/-- So many steps are enough for everything that the main thread asks for. -/
theorem left_le (h : Good o own d b cells s) (hpaced : Paced cells s.world) :
    s.world.left ≤ 100 * (o.isolates.toNat + 1) := by
  have hlen := h.length_le
  have htogo : s.world.togo ≤ 37 * cells.length := by
    rw [togo, h.crew.size, Nat.add_sub_cancel, Nat.mul_comm]
    refine (Finset.sum_le_card_nsmul _ _ 37 fun j hj => ?_).trans (by simp)
    exact (Nat.le_add_left _ _).trans (hpaced.spent j (Finset.mem_range.1 hj))
  have hpending : ∀ {j : Join}, Seen s.world cells j → j.pending.length ≤ cells.length := by
    intro j hseen
    obtain ⟨vs, order, -, hperm, -⟩ := hseen.results
    rw [← hperm.length_eq, List.length_append]
    exact Nat.le_add_left _ _
  have herrand : (s.world.control 0).errand ≤ 3 * cells.length + 39 := by
    cases h.front with
    | launching _ hc | asked _ hc | admitted _ hc | started _ hc | complete _ hc =>
      rw [hc]
      simp [Control.errand]
    | waiting _ hc _ hseen | passing _ hc hseen =>
      have hle := hpending hseen
      rw [hc]
      simp only [Control.errand]
      omega
  unfold left
  split <;> omega

/-- The main thread carries out a task. -/
theorem perform (h : Good o own d b cells s) (hpaced : Paced cells s.world)
    (hN : ∀ j < o.isolates.toNat, 2 * j < 2 ^ 63) {fuel : Nat}
    (hfuel : 100 * (o.isolates.toNat + 1) ≤ fuel) {w : World} {r : Request}
    (hw : s.world = w.assign 0 (.request r)) :
    ∃ own' cells' w', Relation.ReflTransGen (Moves o) s { s with world := w' } ∧
      Good o own' d b cells' { s with world := w' } ∧ Paced cells' w' ∧ w'.atRest 0 = true ∧
      ∀ outcome, w'.control 0 = .finished outcome →
        w.perform fuel 0 (.request r) = (w'.setControl 0 .idle, some outcome) := by
  let w₁ := s.world.lineUp 0
  let w₂ := w₁.beginRound w₁.store.now
  have hresched : s.world.Rescheduled w₂ :=
    (rescheduled_lineUp _ 0).trans (rescheduled_beginRound _ _)
  have hpaced₂ : Paced cells w₂ :=
    Paced.beginRound (w := w₁) ⟨hpaced.lined.lineUp 0, hpaced.spent, hpaced.timely⟩ hpaced.timely
  have hgood₂ := h.pass hresched
  obtain ⟨own', cells', w', hrun, hcourse, hgood, hpaced'⟩ :=
    hgood₂.run hpaced₂ hN ((hgood₂.left_le hpaced₂).trans hfuel)
  have hrest : w'.atRest 0 = true := by
    have hsnd := run_snd fuel 0 w₂
    rw [hrun] at hsnd
    exact hsnd.symm
  refine ⟨own', cells', w', .head (.pass hresched) hcourse, hgood, hpaced', hrest,
    fun outcome hc => ?_⟩
  have hlocks : ((w.assign 0 (.request r)).lineUp 0).store.locks = #[] := by
    rw [← hw]
    exact h.crew.locks
  have hrun' : World.run fuel 0 (((w.assign 0 (.request r)).lineUp 0).beginRound
      ((w.assign 0 (.request r)).lineUp 0).store.now) = (w', true) := by
    rw [← hw]
    exact hrun
  simp only [World.perform, handOver_of_locks hlocks, hrun', hc]

end Good

/-- The main thread goes on to something else. -/
theorem Paced.of_main {cells : List CellId} {w w' : World} {th : Thread} (h : Paced cells w)
    (hroll : w'.roll = w.roll) (hbecomes : Becomes 0 th w w') (hgone : w.control 0 ≠ .gone)
    (htimely : th.control.Timely w'.store cells) : Paced cells w' := by
  refine ⟨fun u hu hgone' => ?_, fun j hj => ?_, ?_⟩
  · rw [show w'.line = w.line from congrArg Prod.snd hroll]
    rw [size_of_roll hroll] at hu
    refine h.lined u hu fun hc => ?_
    by_cases hzero : u = 0
    · subst hzero
      exact hgone hc
    · rw [World.control, hbecomes.others u hzero] at hgone'
      exact hgone' hc
  · rw [hbecomes.others _ (Nat.succ_ne_zero j)]
    exact h.spent j hj
  · rw [hbecomes.control]
    exact htimely

namespace Good

theorem idle_of_launching (h : Good o own d b cells s) (hp : s.phase = .launching) :
    s.world.control 0 = .idle := by
  cases h.front with
  | launching _ hc => exact hc
  | asked hp' | admitted hp' | started hp' | waiting hp' | passing hp' | complete hp' =>
    rw [hp] at hp'
    cases hp'

/-- The main thread asks for the next isolate, gets its future and puts that on its stack. -/
theorem launch_next (h : Good o own d b cells s) (hpaced : Paced cells s.world)
    (hN : ∀ j < o.isolates.toNat, 2 * j < 2 ^ 63) {fuel : Nat}
    (hfuel : 100 * (o.isolates.toNat + 1) ≤ fuel) (hp : s.phase = .launching)
    (hlt : s.futures.size < o.isolates.toNat) {r : Request}
    (hr : r = .start (s.function o.failEvery.toNat s.futures.size)
      #[.int (Int64.ofNat s.futures.size)]) :
    ∃ own' cells' w f, s.world.perform fuel 0 (.request r) = (w, some (.value f)) ∧
      let s' : State := { s with
        world := w.setVm 0 ((w.thread 0).vm.push f)
        futures := s.futures.push f
        phase := .launching }
      Relation.ReflTransGen (Moves o) s s' ∧ Good o own' d b cells' s' ∧ Paced cells' s'.world := by
  obtain ⟨own₁, c, hgood₁, hbecomes₁⟩ := h.launch hp hlt hr
  have hmove : Moves o s (s.assign r .starting) := hr ▸ .launch hp hlt
  have hidle := h.idle_of_launching hp
  have hc : (s.assign r .starting).world.control 0 = c := congrArg Thread.control hbecomes₁.mine
  have hpaced₁ : Paced cells (s.assign r .starting).world := by
    refine hpaced.of_main (roll_assign _ _ r) hbecomes₁ (by simp [hidle]) ?_
    cases hgood₁.front with
    | asked _ hc' | admitted _ hc' | started _ hc' =>
      rw [hc] at hc'
      subst hc'
      trivial
    | launching hp' | waiting hp' | passing hp' | complete hp' => cases hp'
  obtain ⟨own₂, cells₂, w₂, hcourse, hgood₂, hpaced₂, hrest, hperform⟩ :=
    hgood₁.perform hpaced₁ hN hfuel rfl
  obtain ⟨f, hf⟩ : ∃ f, w₂.control 0 = .finished (.value f) := by
    cases hgood₂.front with
    | started _ hc => exact ⟨_, hc⟩
    | asked _ hc | admitted _ hc =>
      rw [World.atRest, show w₂.control 0 = _ from hc] at hrest
      cases hrest
    | launching hp' | waiting hp' | passing hp' | complete hp' => cases hp'
  obtain ⟨hgood₃, hbecomes₃⟩ := hgood₂.started rfl hf
  have hvm : ((w₂.setControl 0 .idle).thread 0).vm = (w₂.thread 0).vm := by
    rw [(becomes_setControl (w := w₂) rfl hgood₂.main_lt .idle).mine]
  have hpaced₃ : Paced cells₂ ((w₂.setControl 0 .idle).setVm 0 ((w₂.thread 0).vm.push f)) := by
    refine hpaced₂.of_main ?_ hbecomes₃ (by simp [hf]) trivial
    rw [roll_setVm, roll_setControl]
  refine ⟨own₂, cells₂, w₂.setControl 0 .idle, f, hperform _ hf, ?_⟩
  rw [hvm]
  exact ⟨.trans (.head hmove hcourse) (.single (.started rfl hf)), hgood₃, hpaced₃⟩

/-- The main thread starts all isolates. -/
theorem launchAll (h : Good o own d b cells s) (hpaced : Paced cells s.world)
    (hN : ∀ j < o.isolates.toNat, 2 * j < 2 ^ 63) {fuel : Nat}
    (hfuel : 100 * (o.isolates.toNat + 1) ≤ fuel) (hp : s.phase = .launching) {n : Nat}
    (hn : s.futures.size + n = o.isolates.toNat) :
    ∃ own' cells' s', Demo.launchAll fuel 0 (s.function o.failEvery.toNat) n s.futures.size s.world
        s.futures = .ok (s'.world, s'.futures) ∧
      Relation.ReflTransGen (Moves o) s s' ∧ Good o own' d b cells' s' ∧ Paced cells' s'.world ∧
      s'.phase = .launching ∧ s'.futures.size = o.isolates.toNat := by
  induction n generalizing own cells s with
  | zero => exact ⟨own, cells, s, rfl, .refl, h, hpaced, hp, hn⟩
  | succ n ih =>
    obtain ⟨own₁, cells₁, w, f, hperform, hcourse, hgood₁, hpaced₁⟩ :=
      h.launch_next hpaced hN hfuel hp (by omega) rfl
    have hsize : (s.futures.push f).size = s.futures.size + 1 := Array.size_push _
    obtain ⟨own₂, cells₂, s₂, hall, hcourse₂, hrest⟩ := ih hgood₁ hpaced₁ rfl (by
      show (s.futures.push f).size + n = _
      omega)
    refine ⟨own₂, cells₂, s₂, ?_, hcourse.trans hcourse₂, hrest⟩
    have hall' : Demo.launchAll fuel 0 (s.function o.failEvery.toNat) n (s.futures.push f).size
        (w.setVm 0 ((w.thread 0).vm.push f)) (s.futures.push f) = _ := hall
    rw [Demo.launchAll, hperform]
    rw [hsize] at hall'
    exact hall'

/-- The main thread joins all isolates. -/
theorem join_all (h : Good o own d b cells s) (hpaced : Paced cells s.world)
    (hN : ∀ j < o.isolates.toNat, 2 * j < 2 ^ 63) {fuel : Nat}
    (hfuel : 100 * (o.isolates.toNat + 1) ≤ fuel) (hp : s.phase = .launching)
    (hsize : s.futures.size = o.isolates.toNat) :
    ∃ w results s', s.world.perform fuel 0
        (.request (.join s.futures s.world.store.isolates.poll true)) =
          (w, some (.values results)) ∧
      Relation.ReflTransGen (Moves o) s s' ∧ s'.phase = .over (summary w results) := by
  obtain ⟨own₁, j, c, hgood₁, hbecomes₁, hpassed⟩ := h.join hp hsize
  have hidle := h.idle_of_launching hp
  let r : Request := .join s.futures s.world.store.isolates.poll true
  have hpaced₁ : Paced cells (s.assign r .joining).world := by
    refine hpaced.of_main (roll_assign _ _ _) hbecomes₁ (by rw [hidle]; nofun) ?_
    cases hpassed with
    | complete => trivial
    | waiting _ hseen => exact .inl (Nat.lt_add_of_pos_right hseen.poll)
  obtain ⟨own₂, cells₂, w₂, hcourse, hgood₂, hpaced₂, hrest, hperform⟩ :=
    hgood₁.perform hpaced₁ hN hfuel (w := s.world) (r := r) rfl
  obtain ⟨results, hresults⟩ : ∃ results, w₂.control 0 = .finished (.values results) := by
    cases hgood₂.front with
    | complete _ hc => exact ⟨_, hc⟩
    | waiting _ hc | passing _ hc =>
      rw [World.atRest, show w₂.control 0 = _ from hc] at hrest
      cases hrest
    | launching hp' | asked hp' | admitted hp' | started hp' => cases hp'
  exact ⟨w₂.setControl 0 .idle, results, _, hperform _ hresults,
    .trans (.head (.join hp hsize) hcourse) (.single (.finish rfl hresults)), rfl⟩

end Good

/-! ### The whole run -/

/-- The first turn of a thread in a round. -/
def turned (w : World) : World :=
  (((w.step 0).modifyThread 0 fun th => { th with spent := th.spent + 1 }).lineUp 0).setControl 0
    .idle

/-- A task of one step. -/
theorem perform_step (w : World) (task : Task) (fuel : Nat) (w' : World) {outcome : Outcome}
    (hw' : ((w.assign 0 task).lineUp 0).beginRound (w.assign 0 task).store.now = w')
    (hlocks : (w.assign 0 task).store.locks = #[]) (hready : w'.ready 0 = true)
    (hlocks' : (w'.step 0).store.locks = #[]) (hdone : (w'.step 0).control 0 = .finished outcome) :
    w.perform (fuel + 1) 0 task = (turned w', some outcome) := by
  have hlt : 0 < w'.threads.size := lt_size_of_control fun hidle => by
    rw [World.ready, hidle] at hready
    cases hready
  have hrest : w'.atRest 0 = false := by
    cases hc : w'.control 0 with
    | idle | finished | gone =>
      rw [World.ready, hc] at hready
      cases hready
    | _ => rw [World.atRest, hc]
  have hspent : (w'.thread 0).spent < roundSteps := by
    rw [← hw', thread_beginRound]
    exact Nat.zero_lt_succ 999
  have hpick : w'.pick? 0 = some 0 := by
    rw [World.pick?, World.inTurn, hready, decide_eq_true hspent]
    rfl
  have hturn : (w'.turn 0).control 0 = .finished outcome := by
    rw [(rescheduled_turn hlocks' (hlt.trans_le (size_le_step _ _))).control, hdone]
  have hrun : World.run (fuel + 1) 0 w' = (w'.turn 0, true) := by
    have hstep : World.run (fuel + 1) 0 w' = World.run fuel 0 (w'.turn 0) := by
      rw [World.run, if_neg (by rw [hrest]; exact Bool.false_ne_true)]
      simp only [hpick]
    rw [hstep, run_of_atRest]
    rw [World.atRest, hturn]
  have hover : ((w.assign 0 task).lineUp 0).handOver = (w.assign 0 task).lineUp 0 :=
    handOver_of_locks hlocks
  simp only [World.perform, hover]
  rw [show ((w.assign 0 task).lineUp 0).store.now = (w.assign 0 task).store.now from rfl, hw', hrun]
  simp only [hturn]
  rw [turned, turn_eq hlocks']

/-- A round of one thread begins. -/
theorem beginRound_single (store : Store) (th : Thread) (line : List ThreadId) :
    World.beginRound { store, threads := #[th], line } store.now =
      { store, threads := #[{ th with spent := 0 }], line } := by
  simp [World.beginRound]

/-- The main thread registers. -/
theorem perform_enroll {store : Store} (h : Pristine store) (fuel : Nat) : ∃ line,
    (World.addHost { store }).1.perform (fuel + 1) 0 .enroll =
      ({ store := (enrolled store).store,
         threads := #[{ storage := some store.collector.nextId, control := .idle, spent := 1 }],
         line }, some .done) := by
  let w : World := { store, threads := #[{ control := .enrolling }],
                     line := (((World.addHost { store }).1.assign 0 .enroll).lineUp 0).line }
  have hready : w.ready 0 = true := by
    show (!store.collector.sync.collecting) = true
    rw [h.collecting]
    rfl
  exact ⟨(turned w).line, perform_step (World.addHost { store }).1 .enroll fuel w
    (beginRound_single store _ _) h.locks hready h.locks rfl⟩

/-- A thread on its own gets a machine. -/
theorem perform_equip {s : Store} (hlocks : s.locks = #[]) {th : Thread}
    (hhost : th.role = .host) (line : List ThreadId) (fuel : Nat) : ∃ line',
    World.perform { store := s, threads := #[th], line } (fuel + 1) 0 .equip =
      ({ store := { s with collector := (s.collector.addRoot (.stack 0)).1 },
         threads := #[{ th with vm := {}, root := some (s.collector.addRoot (.stack 0)).2,
                                control := .idle, spent := 1 }],
         line := line' }, some .done) ∧ 0 ∈ line' := by
  obtain ⟨vm, name, storage, root, role, control, spent⟩ := th
  obtain rfl : role = .host := hhost
  let w : World := { store := s, threads := #[⟨vm, name, storage, root, .host, control, spent⟩],
                     line }
  let w' : World := { store := s, threads := #[⟨vm, name, storage, root, .host, .equipping, 0⟩],
                      line := ((w.assign 0 .equip).lineUp 0).line }
  refine ⟨(turned w').line, perform_step w .equip fuel w' (beginRound_single s _ _) hlocks rfl
    hlocks rfl, ?_⟩
  exact mem_lineUp (w := (w'.step 0).modifyThread 0 fun th => { th with spent := th.spent + 1 })
    (t := 0) (u := 0) (by show Control.finished .done ≠ .gone; nofun) (.inl rfl)

/-- The main thread gets its machine and the two functions. -/
theorem exists_begun {settings : CollectorSettings} {store : Store}
    (hs : Store.new settings {} = .ok store) (fuel : Nat) : ∃ w₁ w₂ : World,
      (World.addHost { store }).1.perform (fuel + 1) 0 .enroll = (w₁, some .done) ∧
      w₁.perform (fuel + 1) 0 .equip = (w₂, some .done) ∧
      let w₃ := (define w₂ 0 double).1
      let w₄ := (define w₃ 0 broken).1
      (define w₂ 0 double).2 = (opening store).doubling ∧
      (define w₃ 0 broken).2 = (opening store).breaking ∧
      (opening store).world.Rescheduled w₄ ∧ w₄.Lined := by
  have hpristine := pristine_new hs
  obtain ⟨line, henroll⟩ := perform_enroll hpristine fuel
  let s : Store := (enrolled store).store
  let th : Thread := { storage := some store.collector.nextId, control := .idle, spent := 1 }
  obtain ⟨line', hequip, hline⟩ := perform_equip (s := s) hpristine.locks
    (show th.role = .host from rfl) line fuel
  refine ⟨_, _, henroll, hequip, ?_⟩
  rw [opening_eq]
  refine ⟨rfl, rfl, ⟨rfl, rfl, fun t => ?_⟩, ?_⟩
  · cases t with
    | zero => exact ⟨1, rfl⟩
    | succ t => exact ⟨0, rfl⟩
  · intro t ht _
    obtain rfl : t = 0 := Nat.lt_one_iff.1 ht
    exact hline

/-- **The demonstration as it is run** is a course that comes to its end, if there is memory for the
table of futures. -/
theorem exists_course {o : Options} {store : Store}
    (hs : Store.new { allocLimit := o.allocLimit } {} = .ok store)
    (hN : ∀ j < o.isolates.toNat, 2 * j < 2 ^ 63) {memory : Nat}
    (hreserve : reserve memory o.isolates.toNat = .ok ())
    {fuel : Nat} (hfuel : 100 * (o.isolates.toNat + 1) ≤ fuel) :
    ∃ s lines, Relation.ReflTransGen (Moves o) (opening store) s ∧ s.phase = .over lines ∧
      play memory fuel o = .ok lines := by
  obtain ⟨n, rfl⟩ : ∃ n, fuel = n + 1 := Nat.exists_eq_succ_of_ne_zero (by omega)
  obtain ⟨own, d, b, hgood⟩ := good_opening o hs
  obtain ⟨w₁, w₂, henroll, hequip, hdoubling, hbreaking, hresched, hlined⟩ := exists_begun hs n
  obtain ⟨w₃, doubling, hdouble⟩ : ∃ w v, define w₂ 0 double = (w, v) := ⟨_, _, rfl⟩
  obtain ⟨w₄, breaking, hbroken⟩ : ∃ w v, define w₃ 0 broken = (w, v) := ⟨_, _, rfl⟩
  simp only [hdouble, hbroken] at hdoubling hbreaking hresched hlined
  subst hdoubling hbreaking
  have hpaced : Paced [] w₄ := by
    refine ⟨hlined, fun j hj => absurd hj (Nat.not_lt_zero j), ?_⟩
    rw [hresched.control, hgood.idle_of_launching rfl]
    trivial
  obtain ⟨own', cells, s, hall, hcourse, hgood', hpaced', hp, hsize⟩ :=
    (hgood.pass hresched).launchAll hpaced hN hfuel rfl (n := o.isolates.toNat) (Nat.zero_add _)
  obtain ⟨w, results, s', hjoin, hcourse', hover⟩ := hgood'.join_all hpaced' hN hfuel hp hsize
  refine ⟨s', _, (Relation.ReflTransGen.head (.pass hresched) hcourse).trans hcourse', hover, ?_⟩
  have hstarted : launchAll (n + 1) 0 (fun i => if fails o.failEvery.toNat i then
      (opening store).breaking else (opening store).doubling) o.isolates.toNat 0 w₄ #[] =
        .ok (s.world, s.futures) := hall
  have haddHost : (World.addHost { store }).2 = 0 := rfl
  simp only [play, hs, Except.mapError, bind, Except.bind, haddHost, henroll, hequip, hdouble,
    hbroken, hreserve, hstarted, hjoin]

/-- A course is under way, or it has come to its end. -/
theorem good_or_over {settings : CollectorSettings} {store : Store}
    (hs : Store.new settings {} = .ok store) (hN : ∀ j < o.isolates.toNat, 2 * j < 2 ^ 63)
    (hcourse : Relation.ReflTransGen (Moves o) (opening store) s) :
    (∃ own d b cells, Good o own d b cells s) ∨
      ∃ lines, s.phase = .over lines ∧ Printed o lines := by
  induction hcourse with
  | refl =>
    obtain ⟨own, d, b, hgood⟩ := good_opening o hs
    exact .inl ⟨own, d, b, [], hgood⟩
  | tail _ hmove ih =>
    rcases ih with ⟨own, d, b, cells, hgood⟩ | ⟨lines, hover, hprinted⟩
    · rcases hgood.moves hN hmove with ⟨own', cells', hgood'⟩ | ⟨results, hp, hc, hover⟩
      · exact .inl ⟨own', d, b, cells', hgood'⟩
      · exact .inr ⟨_, hover, hgood.printed hN hp hc⟩
    · refine .inr ⟨lines, ?_, hprinted⟩
      cases hmove with
      | step | pass => exact hover
      | launch hp | started hp | join hp | finish hp | panic hp =>
        rw [hover] at hp
        cases hp
      | fail hp => rcases hp with hp | hp <;> rw [hover] at hp <;> cases hp

/-- The table of futures is asked for at the outset. If it does not fit in the address range, the
run ends there, and nothing is printed. -/
theorem report_without_table {o : Options} (hlimit : o.allocLimit ≠ 0)
    (htable : addressRange < valueBytes * o.isolates.toNat) (memory fuel : Nat) :
    play memory fuel o = .error (.panicked .capacityOverflow) ∧
      report fuel (.demo o) memory = { exit := some 101, lines := [] } := by
  obtain ⟨store, hs⟩ := exists_new hlimit
  have hreserve : reserve memory o.isolates.toNat = .error (.panicked .capacityOverflow) :=
    if_pos htable
  have hplay : play memory fuel o = .error (.panicked .capacityOverflow) := by
    simp only [play, hs, Except.mapError, bind, Except.bind, hreserve]
  refine ⟨hplay, ?_⟩
  rw [report, hplay]
  rfl

end Demo

/-- **The result of the demonstration does not depend on the schedule.** Whatever the order in which
the main thread, the isolates and their collections make their steps, nothing is printed but what is
to be printed, nothing breaks down, and the end can be reached from everywhere. The run in rounds
is one of these courses, and it comes to its end if there is memory for the table of futures. A
table that does not fit in the address range ends it before any isolate is started, with nothing
printed. -/
theorem demo_is_schedule_independent (o : Options) (hlimit : o.allocLimit ≠ 0)
    (hN : ∀ j < o.isolates.toNat, 2 * j < 2 ^ 63) :
    ∃ store, Store.new { allocLimit := o.allocLimit } {} = .ok store ∧
      (∀ s, Relation.ReflTransGen (Demo.Moves o) (Demo.opening store) s →
        (∀ lines, s.phase = .over lines → Demo.Printed o lines) ∧
        (∀ b, s.phase ≠ .broken b) ∧
        ∃ s' lines, Relation.ReflTransGen (Demo.Moves o) s s' ∧ s'.phase = .over lines) ∧
      (∀ memory, Demo.reserve memory o.isolates.toNat = .ok () →
        ∀ fuel, 100 * (o.isolates.toNat + 1) ≤ fuel →
          ∃ s lines, Relation.ReflTransGen (Demo.Moves o) (Demo.opening store) s ∧
            s.phase = .over lines ∧ Demo.play memory fuel o = .ok lines ∧ Demo.Printed o lines) ∧
      (Demo.addressRange < Demo.valueBytes * o.isolates.toNat → ∀ memory fuel,
        Demo.play memory fuel o = .error (.panicked .capacityOverflow) ∧
          Demo.report fuel (.demo o) memory = { exit := some 101, lines := [] }) := by
  obtain ⟨store, hs⟩ := Demo.exists_new hlimit
  refine ⟨store, hs, fun s hcourse => ?_, fun memory hreserve fuel hfuel => ?_,
    Demo.report_without_table hlimit⟩
  · rcases Demo.good_or_over hs hN hcourse with ⟨own, d, b, cells, hgood⟩ | ⟨lines, hover, hprinted⟩
    · obtain ⟨hover, hbroken⟩ := hgood.under_way
      exact ⟨fun lines h => absurd h (hover lines), hbroken, hgood.ends hN⟩
    · refine ⟨fun lines' hover' => ?_, fun b hb => ?_, s, lines, .refl, hover⟩
      · rw [hover] at hover'
        cases hover'
        exact hprinted
      · rw [hover] at hb
        cases hb
  · obtain ⟨s, lines, hcourse, hover, hplay⟩ := Demo.exists_course hs hN hreserve hfuel
    refine ⟨s, lines, hcourse, hover, hplay, ?_⟩
    rcases Demo.good_or_over hs hN hcourse with
      ⟨own, d, b, cells, hgood⟩ | ⟨lines', hover', hprinted⟩
    · exact absurd hover (hgood.under_way.1 lines)
    · rw [hover] at hover'
      cases hover'
      exact hprinted

/-- There is memory for three values. -/
theorem demo_of_three_isolates :
    ∃ lines, Demo.play 48 400 { isolates := 3, failEvery := 2, allocLimit := 1 } = .ok lines ∧
      Demo.Printed { isolates := 3, failEvery := 2, allocLimit := 1 } lines := by
  obtain ⟨store, -, -, hplay, -⟩ := demo_is_schedule_independent
    { isolates := 3, failEvery := 2, allocLimit := 1 } (by decide) (by decide)
  obtain ⟨-, lines, -, -, hlines⟩ := hplay 48 rfl 400 (by decide)
  exact ⟨lines, hlines⟩

/-- If a table of 2 ^ 60 futures is asked for, nothing is printed, whatever memory there is. -/
theorem demo_without_table :
    let o : Options := { isolates := 1152921504606846976, allocLimit := 18446744073709551615 }
    o.allocLimit ≠ 0 ∧ (∀ j < o.isolates.toNat, 2 * j < 2 ^ 63) ∧ ∀ memory fuel,
      Demo.play memory fuel o = .error (.panicked .capacityOverflow) ∧
        Demo.report fuel (.demo o) memory = { exit := some 101, lines := [] } := by
  intro o
  have hisolates : o.isolates.toNat = 2 ^ 60 := rfl
  have hlimit : o.allocLimit ≠ 0 := by decide
  refine ⟨hlimit, fun j hj => ?_, Demo.report_without_table hlimit (by decide)⟩
  rw [hisolates] at hj
  omega

end ScriptCore
